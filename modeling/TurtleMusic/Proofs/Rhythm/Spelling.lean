import TurtleMusic.Proofs.Rhythm.Notation

/-!
# Spellings of patterns

A pattern has many spellings: blanks may stand anywhere in them, and a pulse may be a small or a large letter. One of them is its normal form. It reads back as the pattern, so different patterns have different normal forms, and a normal form is its own. Texts thus have the same normal form just if nothing but blanks and the size of letters tells them apart.
-/

namespace TurtleMusic.Pattern

/-! ### Normal forms read back -/

theorem isSymbol_symbol (pulse : Bool) : IsSymbol (symbol pulse) := by
  cases pulse <;> decide

theorem letter?_symbol (pulse : Bool) : letter? (symbol pulse) = some pulse := by
  cases pulse <;> rfl

theorem letters_symbols (pattern : Pattern) : letters (symbols pattern) = pattern := by
  fun_induction symbols pattern with
  | case1 => rfl
  | case2 pulse =>
    rw [letters_cons, letter?_symbol]
    rfl
  | case3 pulse next rest ih =>
    rw [letters_cons, letters_cons, letter?_symbol, ih]
    rfl

theorem isSymbol_of_mem_symbols {pattern : Pattern} : ∀ c ∈ symbols pattern, IsSymbol c := by
  fun_induction symbols pattern with
  | case1 => simp
  | case2 pulse => simpa using isSymbol_symbol pulse
  | case3 pulse next rest ih =>
    rw [List.forall_mem_cons, List.forall_mem_cons]
    exact ⟨isSymbol_symbol pulse, by decide, ih⟩

theorem read_render (pattern : Pattern) : read (render pattern) = .ok pattern := by
  have hsymbols : ∀ c ∈ (render pattern).toList, IsSymbol c := by
    rw [render, String.toList_ofList]
    exact isSymbol_of_mem_symbols
  rw [read_of_symbols hsymbols, render, String.toList_ofList, letters_symbols]

theorem render_injective {left right : Pattern} (hsame : render left = render right) : left = right := by
  have hread := read_render left
  rw [hsame, read_render] at hread
  exact (Except.ok.inj hread).symm

theorem render_beq_render (left right : Pattern) : (render left == render right) = (left == right) := by
  rw [Bool.eq_iff_iff, beq_iff_eq, beq_iff_eq]
  exact ⟨render_injective, congrArg render⟩

theorem normalize_of_read {text : String} {pattern : Pattern} (hread : read text = .ok pattern) :
    normalize text = .ok (render pattern) := by
  rw [normalize, hread, Except.map]

theorem normalize_normalize (text : String) : (normalize text).bind normalize = normalize text := by
  cases hread : read text with
  | error fault => rw [normalize, hread, Except.map, Except.bind]
  | ok pattern => rw [normalize_of_read hread, Except.bind, normalize_of_read (read_render pattern)]

/-! ### Texts without blanks -/

/-- A text without its blanks and with a small letter for every large one. -/
def bare (text : List Char) : List Char :=
  (text.filter (!Text.isBlank ·)).map fun c => if c = 'X' then 'x' else c

theorem letter?_blank {c : Char} (hblank : Text.isBlank c = true) : letter? c = none := by
  have hstep := stepOf?_symbol (.inr (.inr (.inr hblank)))
  rw [stepOf?, if_pos hblank] at hstep
  exact (Option.some.inj hstep).symm

theorem bare_cons_blank {c : Char} (hblank : Text.isBlank c = true) (rest : List Char) : bare (c :: rest) = bare rest := by
  rw [bare, List.filter_cons_of_neg (by simpa using hblank), bare]

/-- Without blanks and large letters a text is the letters of its steps. -/
theorem bare_eq {text : List Char} (hsymbols : ∀ c ∈ text, IsSymbol c) : bare text = (letters text).map symbol := by
  induction text with
  | nil => rfl
  | cons c rest ih =>
    rw [List.forall_mem_cons] at hsymbols
    have hrest := ih hsymbols.2
    rw [letters_cons]
    -- A letter of either size leaves the small letter of its step, and a blank leaves nothing.
    rcases hsymbols.1 with rfl | rfl | rfl | hblank
    · exact congrArg ('x' :: ·) hrest
    · exact congrArg ('x' :: ·) hrest
    · exact congrArg ('.' :: ·) hrest
    · rw [bare_cons_blank hblank, letter?_blank hblank]
      exact hrest

theorem symbol_injective {left right : Bool} (hsame : symbol left = symbol right) : left = right := by
  have hletter := letter?_symbol left
  rw [hsame, letter?_symbol] at hletter
  exact (Option.some.inj hletter).symm

theorem bare_eq_bare_iff {left right : List Char} (hleft : ∀ c ∈ left, IsSymbol c) (hright : ∀ c ∈ right, IsSymbol c) :
    bare left = bare right ↔ letters left = letters right := by
  rw [bare_eq hleft, bare_eq hright]
  exact List.map_inj_right fun _ _ => symbol_injective

/-! ### Texts that are spellings -/

theorem read_isOk_iff (text : String) : (∃ pattern, read text = .ok pattern) ↔ ∀ c ∈ text.toList, IsSymbol c := by
  constructor
  · rintro ⟨pattern, hread⟩ c hmem
    refine Decidable.of_not_not fun hc => ?_
    obtain ⟨other, _, _, hrefused⟩ := read_of_other ⟨c, hmem, hc⟩
    rw [hread] at hrefused
    cases hrefused
  · exact fun hsymbols => ⟨_, read_of_symbols hsymbols⟩

/-- What is written of a pattern reads back as it. A text is read just if all its characters are step letters and blanks, and is refused for its first other character if not. Normal forms are their own normal forms, and two texts that can be read have the same one just if they agree in all but blanks and the size of letters. -/
theorem patterns_told_by_spelling :
    (∀ pattern : Pattern, read (render pattern) = .ok pattern) ∧
    (∀ text : String, ((∃ pattern, read text = .ok pattern) ↔ ∀ c ∈ text.toList, IsSymbol c) ∧
      ((∃ c ∈ text.toList, ¬IsSymbol c) → ∃ before c after, text.toList = before ++ c :: after ∧
        (∀ earlier ∈ before, IsSymbol earlier) ∧ ¬IsSymbol c ∧
        ∃ fault, read text = .error fault ∧ fault.kind = .value ∧
          fault.message = "Unexpected rhythm symbol " ++ Text.quote c.toString ++ " in " ++ Text.quote text)) ∧
    (∀ text : String, (normalize text).bind normalize = normalize text) ∧
    ∀ left right : String, (∃ pattern, read left = .ok pattern) → (∃ pattern, read right = .ok pattern) →
      ∃ leftForm rightForm, normalize left = .ok leftForm ∧ normalize right = .ok rightForm ∧
        (leftForm = rightForm ↔ bare left.toList = bare right.toList) := by
  refine ⟨read_render, fun text => ⟨read_isOk_iff text, fun hother => ?_⟩, normalize_normalize,
    fun left right hleft hright => ?_⟩
  · obtain ⟨before, c, after, htext, hbefore, hc, hrefused⟩ := read_of_first_other hother
    exact ⟨before, c, after, htext, hbefore, hc, _, hrefused, rfl, rfl⟩
  · rw [read_isOk_iff] at hleft hright
    refine ⟨_, _, normalize_of_read (read_of_symbols hleft), normalize_of_read (read_of_symbols hright), ?_⟩
    rw [bare_eq_bare_iff hleft hright]
    exact ⟨render_injective, congrArg render⟩

/-- Two spellings of one pattern with blanks of several kinds, and a text that is none. -/
theorem patterns_told_by_spelling_spaced :
    read (render [true, false, true]) = .ok [true, false, true] ∧
      (∃ pattern, read "\u3000X.\u2003x" = .ok pattern) ∧ (∃ pattern, read "x .\tX\n" = .ok pattern) ∧
      (∀ c ∈ "\u3000X.\u2003x".toList, IsSymbol c) ∧ normalize "\u3000X.\u2003x" = normalize "x .\tX\n" ∧
      (normalize "x .\tX\n").bind normalize = normalize "x .\tX\n" ∧
      (∃ c ∈ "x-x?".toList, ¬IsSymbol c) ∧ ∃ fault, read "x-x?" = .error fault ∧ fault.kind = .value := by
  obtain ⟨hwritten, hread, hnormal, hspelled⟩ := patterns_told_by_spelling
  have hleft : ∃ pattern, read "\u3000X.\u2003x" = .ok pattern := ⟨[true, false, true], rfl⟩
  have hright : ∃ pattern, read "x .\tX\n" = .ok pattern := ⟨[true, false, true], rfl⟩
  have hother : ∃ c ∈ "x-x?".toList, ¬IsSymbol c := ⟨'-', by decide +kernel, by decide⟩
  obtain ⟨leftForm, rightForm, hleftForm, hrightForm, hsame⟩ := hspelled _ _ hleft hright
  obtain ⟨_, _, _, _, _, _, fault, hrefused, hkind, _⟩ := (hread _).2 hother
  refine ⟨hwritten _, hleft, hright, (hread _).1.1 hleft, ?_, hnormal _, hother, fault, hrefused, hkind⟩
  rw [hleftForm, hrightForm, hsame.2 (by decide +kernel)]

end TurtleMusic.Pattern
