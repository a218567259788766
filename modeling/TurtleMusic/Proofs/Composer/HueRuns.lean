import TurtleMusic.Proofs.Composer.Silent

/-!
# Runs of hue characters

Hue characters with nothing but blanks between them make a run. A run that no longer one contains reaches from where no hue character is seen looking back to where none is seen looking ahead, and so it is found from its last character, by going back from there.
-/

namespace TurtleMusic.Composer

/-- A part of a text, with what comes before it and behind it. -/
@[ext]
structure Part where
  before : List Char
  inner : List Char
  behind : List Char

namespace Part

def whole (part : Part) : List Char := part.before ++ part.inner ++ part.behind

/-- The place where the part ends. -/
def finish (part : Part) : Nat := part.before.length + part.inner.length

/-- The part begins and ends with a hue character and holds nothing else but blanks besides such characters. -/
structure IsHueRun (part : Part) : Prop where
  first : ∃ c ∈ part.inner.head?, isHueSymbol c = true
  last : ∃ c ∈ part.inner.getLast?, isHueSymbol c = true
  inside : ∀ c ∈ part.inner, isHueSymbol c = true ∨ Text.isBlank c = true

/-- The part is a run of hue characters, and the only one of its text that reaches as far at both ends. -/
structure IsMaximalHueRun (part : Part) : Prop where
  run : part.IsHueRun
  longest : ∀ other : Part, other.IsHueRun → other.whole = part.whole → other.before <+: part.before →
    other.behind <:+ part.behind → other = part

end Part

/-! ### Looking ahead -/

theorem hueFollows_of_hue {c : Char} (hhue : isHueSymbol c = true) (rest : List Char) : hueFollows (c :: rest) = true := by
  cases hblank : Text.isBlank c with
  | false => rw [hueFollows_plain hblank, hhue]
  | true =>
    rcases isHueSymbol_cases hhue with rfl | rfl
    all_goals exact absurd hblank (by decide)

/-- A hue character is seen across blanks and other such characters. -/
theorem hueFollows_append {text : List Char} (hinside : ∀ c ∈ text, isHueSymbol c = true ∨ Text.isBlank c = true)
    (hhue : ∃ c ∈ text, isHueSymbol c = true) (rest : List Char) : hueFollows (text ++ rest) = true := by
  induction text with
  | nil =>
    obtain ⟨c, hmem, _⟩ := hhue
    exact absurd hmem List.not_mem_nil
  | cons c others ih =>
    rw [List.forall_mem_cons] at hinside
    by_cases hfirst : isHueSymbol c = true
    · exact hueFollows_of_hue hfirst _
    · rw [List.cons_append, hueFollows_blank (hinside.1.resolve_left hfirst)]
      exact ih hinside.2 (by simpa [hfirst] using hhue)

/-- What is seen ahead is a hue character behind some blanks. -/
theorem exists_of_hueFollows {text : List Char} (hfollows : hueFollows text = true) :
    ∃ blanks c rest, text = blanks ++ c :: rest ∧ (∀ blank ∈ blanks, Text.isBlank blank = true) ∧ isHueSymbol c = true := by
  induction text with
  | nil => cases hfollows
  | cons c rest ih =>
    cases hblank : Text.isBlank c with
    | false => exact ⟨[], c, rest, rfl, by simp, hueFollows_plain hblank rest ▸ hfollows⟩
    | true =>
      rw [hueFollows_blank hblank] at hfollows
      obtain ⟨blanks, found, others, rfl, hblanks, hhue⟩ := ih hfollows
      exact ⟨c :: blanks, found, others, rfl, List.forall_mem_cons.2 ⟨hblank, hblanks⟩, hhue⟩

/-- A text that could be part of a run, up to a hue character at its end, is empty where none is seen. -/
theorem eq_nil_of_not_seen {text : List Char} (rest : List Char) (hinside : ∀ c ∈ text, isHueSymbol c = true ∨ Text.isBlank c = true)
    (hlast : ∀ c ∈ text.getLast?, isHueSymbol c = true) (hseen : hueFollows (text ++ rest) = false) : text = [] := by
  by_contra hmore
  have hmem := List.getLast_mem hmore
  have hhue := hlast _ (List.getLast?_eq_some_getLast hmore)
  rw [hueFollows_append hinside ⟨_, hmem, hhue⟩] at hseen
  cases hseen

/-! ### The ends of a run -/

namespace Part

variable {part : Part}

theorem longest_of_ends (hrun : part.IsHueRun) (hbefore : hueFollows part.before.reverse = false)
    (hbehind : hueFollows part.behind = false) : part.IsMaximalHueRun := by
  refine ⟨hrun, fun other hother hwhole hprefix hsuffix => ?_⟩
  obtain ⟨left, hleft⟩ := hprefix
  obtain ⟨right, hright⟩ := hsuffix
  have hinner : other.inner = left ++ (part.inner ++ right) := by
    rw [whole, whole, ← hleft, ← hright] at hwhole
    have hsame : other.inner ++ other.behind = left ++ (part.inner ++ right) ++ other.behind := by simpa using hwhole
    exact List.append_cancel_right hsame
  obtain ⟨⟨first, hfirst, hfirstHue⟩, ⟨last, hlast, hlastHue⟩, hinside⟩ := hother
  have hnoLeft : left.reverse = [] := by
    refine eq_nil_of_not_seen other.before.reverse (fun c hc => ?_) (fun c hc => ?_) ?_
    · exact hinside c (hinner ▸ List.mem_append_left _ (List.mem_reverse.1 hc))
    · rw [List.getLast?_reverse] at hc
      rw [hinner, List.head?_append, hc] at hfirst
      cases hfirst
      exact hfirstHue
    · rw [← List.reverse_append, hleft]
      exact hbefore
  have hnoRight : right = [] := by
    refine eq_nil_of_not_seen other.behind (fun c hc => ?_) (fun c hc => ?_) ?_
    · exact hinside c (hinner ▸ List.mem_append_right _ (List.mem_append_right _ hc))
    · rw [hinner, ← List.append_assoc, List.getLast?_append, hc] at hlast
      cases hlast
      exact hlastHue
    · rw [hright]
      exact hbehind
  rw [List.reverse_eq_nil_iff] at hnoLeft
  subst hnoLeft hnoRight
  ext1
  · rw [← hleft, List.append_nil]
  · rw [hinner, List.nil_append, List.append_nil]
  · exact hright

theorem IsMaximalHueRun.before_end (hmaximal : part.IsMaximalHueRun) : hueFollows part.before.reverse = false := by
  obtain ⟨⟨hfirst, hlast, hinside⟩, hlongest⟩ := hmaximal
  rw [Bool.eq_false_iff]
  intro hfollows
  obtain ⟨blanks, c, rest, hbefore, hblanks, hhue⟩ := exists_of_hueFollows hfollows
  rw [List.reverse_eq_iff] at hbefore
  have hlonger : (⟨rest.reverse, c :: (blanks.reverse ++ part.inner), part.behind⟩ : Part).IsHueRun := by
    refine ⟨⟨c, rfl, hhue⟩, ?_, ?_⟩
    · obtain ⟨last, hmem, hlastHue⟩ := hlast
      refine ⟨last, ?_, hlastHue⟩
      rw [← List.cons_append, List.getLast?_append, hmem]
      rfl
    · rw [List.forall_mem_cons, List.forall_mem_append]
      exact ⟨.inl hhue, fun blank hblank => .inr (hblanks blank (List.mem_reverse.1 hblank)), hinside⟩
  have hsame := hlongest _ hlonger ?_ ?_ (List.suffix_refl _)
  · have hinner := congrArg (fun part : Part => part.inner.length) hsame
    simp at hinner
    omega
  · simp [whole, hbefore]
  · exact ⟨c :: blanks.reverse, by simp [hbefore]⟩

theorem IsMaximalHueRun.behind_end (hmaximal : part.IsMaximalHueRun) : hueFollows part.behind = false := by
  obtain ⟨⟨hfirst, hlast, hinside⟩, hlongest⟩ := hmaximal
  rw [Bool.eq_false_iff]
  intro hfollows
  obtain ⟨blanks, c, rest, hbehind, hblanks, hhue⟩ := exists_of_hueFollows hfollows
  have hlonger : (⟨part.before, part.inner ++ (blanks ++ [c]), rest⟩ : Part).IsHueRun := by
    refine ⟨?_, ⟨c, by simp, hhue⟩, ?_⟩
    · obtain ⟨first, hmem, hfirstHue⟩ := hfirst
      refine ⟨first, ?_, hfirstHue⟩
      rw [List.head?_append, hmem]
      rfl
    · rw [List.forall_mem_append, List.forall_mem_append]
      exact ⟨hinside, fun blank hblank => .inr (hblanks blank hblank), by simp [hhue]⟩
  have hsame := hlongest _ hlonger ?_ (List.prefix_refl _) ?_
  · have hinner := congrArg (fun part : Part => part.inner.length) hsame
    simp at hinner
  · simp [whole, hbehind]
  · exact ⟨blanks ++ [c], by simp [hbehind]⟩

end Part

/-! ### Going back from the last character -/

/-- A text up to where no hue character is seen any more, and what is left of it. -/
def reach : List Char → List Char × List Char
  | [] => ([], [])
  | c :: rest => if hueFollows (c :: rest) then (c :: (reach rest).1, (reach rest).2) else ([], c :: rest)

theorem reach_of_not_seen {text : List Char} (hseen : hueFollows text = false) : reach text = ([], text) := by
  cases text with
  | nil => rfl
  | cons c rest => rw [reach, if_neg (by simp [hseen])]

theorem reach_append (text : List Char) : (reach text).1 ++ (reach text).2 = text := by
  induction text with
  | nil => rfl
  | cons c rest ih =>
    rw [reach]
    split
    · rw [List.cons_append, ih]
    · rfl

theorem reach_end (text : List Char) : hueFollows (reach text).2 = false := by
  induction text with
  | nil => rfl
  | cons c rest ih =>
    rw [reach]
    split
    · exact ih
    · next hseen => exact Bool.eq_false_iff.2 hseen

theorem reach_inside (text : List Char) : ∀ c ∈ (reach text).1, isHueSymbol c = true ∨ Text.isBlank c = true := by
  induction text with
  | nil => exact fun _ hmem => absurd hmem List.not_mem_nil
  | cons c rest ih =>
    rw [reach]
    split
    · next hseen =>
      refine List.forall_mem_cons.2 ⟨?_, ih⟩
      cases hblank : Text.isBlank c with
      | true => exact .inr rfl
      | false => exact .inl (hueFollows_plain hblank rest ▸ hseen)
    · exact fun _ hmem => absurd hmem List.not_mem_nil

/-- The last character reached is a hue character, for beyond it none is seen. -/
theorem reach_last (text : List Char) : ∀ c ∈ (reach text).1.getLast?, isHueSymbol c = true := by
  induction text with
  | nil => simp [reach]
  | cons c rest ih =>
    rw [reach]
    split
    · next hseen =>
      cases hreach : (reach rest).1 with
      | nil =>
        have hsame := reach_append rest
        have hend := reach_end rest
        rw [hreach, List.nil_append] at hsame
        rw [hsame] at hend
        have hplain : Text.isBlank c = false := by
          rw [Bool.eq_false_iff]
          intro hblank
          rw [hueFollows_blank hblank, hend] at hseen
          cases hseen
        rw [hueFollows_plain hplain] at hseen
        simpa using hseen
      | cons next others =>
        rw [hreach] at ih
        rwa [List.getLast?_cons_cons]
    · simp

/-- There is one way to reach where no hue character is seen any more. -/
theorem reach_eq {taken left : List Char} (hinside : ∀ c ∈ taken, isHueSymbol c = true ∨ Text.isBlank c = true)
    (hlast : ∀ c ∈ taken.getLast?, isHueSymbol c = true) (hseen : hueFollows left = false) :
    reach (taken ++ left) = (taken, left) := by
  induction taken with
  | nil => exact reach_of_not_seen hseen
  | cons c rest ih =>
    have hfollows : hueFollows (c :: (rest ++ left)) = true := by
      rw [← List.cons_append, ← Bool.not_eq_false]
      exact fun hnot => List.cons_ne_nil c rest (eq_nil_of_not_seen left hinside hlast hnot)
    have hrest : ∀ own ∈ rest.getLast?, isHueSymbol own = true := by
      intro own hown
      rw [Option.mem_def] at hown
      exact hlast own (by rw [List.getLast?_cons, hown]; rfl)
    rw [List.cons_append, reach, if_pos hfollows, ih (List.forall_mem_cons.1 hinside).2 hrest]

/-! ### All runs -/

/-- The run that ends with a hue character, with what comes before it, newest first, and behind it. -/
def runEndingAt (past : List Char) (c : Char) (rest : List Char) : Part :=
  ⟨(reach past).2.reverse, (c :: (reach past).1).reverse, rest⟩

def hueRunsFrom (past : List Char) : List Char → List Part
  | [] => []
  | c :: rest =>
    (if isHueSymbol c && !hueFollows rest then [runEndingAt past c rest] else []) ++ hueRunsFrom (c :: past) rest

/-- The runs of hue characters in a text, in their order. -/
def hueRuns (text : List Char) : List Part := hueRunsFrom [] text

theorem runEndingAt_upTo (past : List Char) (c : Char) (rest : List Char) :
    (runEndingAt past c rest).before ++ (runEndingAt past c rest).inner = (c :: past).reverse := by
  rw [runEndingAt, ← List.reverse_append, List.cons_append, reach_append]

theorem runEndingAt_maximal (past : List Char) {c : Char} {rest : List Char} (hhue : isHueSymbol c = true)
    (hseen : hueFollows rest = false) : (runEndingAt past c rest).IsMaximalHueRun := by
  apply Part.longest_of_ends _ _ hseen
  · refine ⟨?_, ⟨c, by simp [runEndingAt], hhue⟩, ?_⟩
    · have hlast := reach_last past
      rw [runEndingAt, List.head?_reverse, List.getLast?_cons]
      cases hreach : (reach past).1.getLast? with
      | none => exact ⟨c, rfl, hhue⟩
      | some last => exact ⟨last, rfl, hlast last hreach⟩
    · intro own hown
      rw [runEndingAt, List.mem_reverse, List.mem_cons] at hown
      rcases hown with rfl | hown
      · exact .inl hhue
      · exact reach_inside past own hown
  · rw [runEndingAt, List.reverse_reverse]
    exact reach_end past

theorem mem_hueRunsFrom_iff {past text : List Char} {part : Part} :
    part ∈ hueRunsFrom past text ↔ ∃ walked c rest, text = walked ++ c :: rest ∧ isHueSymbol c = true ∧
      hueFollows rest = false ∧ part = runEndingAt (walked.reverse ++ past) c rest := by
  induction text generalizing past with
  | nil => simp [hueRunsFrom]
  | cons c rest ih =>
    rw [hueRunsFrom, List.mem_append, ih]
    constructor
    · rintro (hhere | ⟨walked, own, later, rfl, hhue, hseen, rfl⟩)
      · split at hhere
        · next hends =>
          rw [Bool.and_eq_true, Bool.not_eq_true'] at hends
          exact ⟨[], c, rest, rfl, hends.1, hends.2, List.mem_singleton.1 hhere⟩
        · exact absurd hhere List.not_mem_nil
      · exact ⟨c :: walked, own, later, rfl, hhue, hseen, by simp⟩
    · rintro ⟨walked, own, later, htext, hhue, hseen, rfl⟩
      cases walked with
      | nil =>
        cases htext
        exact .inl (by simp [hhue, hseen])
      | cons first others =>
        rw [List.cons_append, List.cons.injEq] at htext
        obtain ⟨rfl, rfl⟩ := htext
        exact .inr ⟨others, own, later, rfl, hhue, hseen, by simp⟩

/-- These are all the runs that no longer one contains. -/
theorem mem_hueRuns_iff {text : List Char} {part : Part} :
    part ∈ hueRuns text ↔ part.whole = text ∧ part.IsMaximalHueRun := by
  rw [hueRuns, mem_hueRunsFrom_iff]
  constructor
  · rintro ⟨walked, c, rest, rfl, hhue, hseen, rfl⟩
    refine ⟨?_, runEndingAt_maximal _ hhue hseen⟩
    rw [Part.whole, runEndingAt_upTo]
    simp [runEndingAt]
  · rintro ⟨rfl, hmaximal⟩
    obtain ⟨⟨first, hfirst, hfirstHue⟩, ⟨c, hlast, hhue⟩, hinside⟩ := hmaximal.run
    obtain ⟨others, hinner⟩ := List.getLast?_eq_some_iff.1 hlast
    have hreach : reach (others.reverse ++ part.before.reverse) = (others.reverse, part.before.reverse) := by
      refine reach_eq (fun own hown => ?_) (fun own hown => ?_) hmaximal.before_end
      · exact hinside own (hinner ▸ List.mem_append_left _ (List.mem_reverse.1 hown))
      · rw [List.getLast?_reverse] at hown
        rw [hinner, List.head?_append, hown] at hfirst
        cases hfirst
        exact hfirstHue
    refine ⟨part.before ++ others, c, part.behind, by simp [Part.whole, hinner], hhue, hmaximal.behind_end, ?_⟩
    rw [List.append_nil, List.reverse_append, runEndingAt, hreach]
    ext1
    · exact (List.reverse_reverse part.before).symm
    · simp [hinner]
    · rfl

example : (hueRuns "# @g [@X##]".toList).map (fun part => String.ofList part.inner) = ["# @", "@", "##"] := by decide

theorem hueRunsFrom_finish {past text : List Char} {part : Part} (hpart : part ∈ hueRunsFrom past text) :
    past.length < part.finish := by
  obtain ⟨walked, c, rest, _, _, _, rfl⟩ := mem_hueRunsFrom_iff.1 hpart
  rw [Part.finish, ← List.length_append, runEndingAt_upTo]
  simp

theorem hueRunsFrom_pairwise (past text : List Char) :
    (hueRunsFrom past text).Pairwise fun left right => left.finish < right.finish := by
  induction text generalizing past with
  | nil => exact List.Pairwise.nil
  | cons c rest ih =>
    rw [hueRunsFrom]
    split
    · refine List.pairwise_cons.2 ⟨fun later hlater => ?_, ih _⟩
      have hfinish := hueRunsFrom_finish hlater
      rw [Part.finish, ← List.length_append, runEndingAt_upTo, List.length_reverse]
      exact hfinish
    · exact ih _

end TurtleMusic.Composer
