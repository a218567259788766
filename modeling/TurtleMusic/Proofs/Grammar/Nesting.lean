import TurtleMusic.Grammar.Brackets

/-!
# Well-nested texts

What the bracket check accepts. A text is well nested if its brackets form a Dyck word, whatever else stands between them; the check accepts exactly these texts. While such a text is read, the brackets still open are those opened less those closed, and the text that remains closes them one after the other.
-/

namespace TurtleMusic.Grammar

inductive Nested : List Char → Prop
  | nil : Nested []
  | plain {c : Char} {rest : List Char} (hopen : c ≠ '[') (hclose : c ≠ ']') : Nested rest → Nested (c :: rest)
  | scope {inner rest : List Char} : Nested inner → Nested rest → Nested ('[' :: (inner ++ ']' :: rest))

theorem Nested.append {left right : List Char} (hleft : Nested left) (hright : Nested right) :
    Nested (left ++ right) := by
  induction hleft with
  | nil => exact hright
  | plain hopen hclose _ ih => exact Nested.plain hopen hclose ih
  | scope hinner _ _ ih =>
    have hscope := Nested.scope hinner ih
    simpa only [List.cons_append, List.append_assoc] using hscope

/-! ### Texts that close open brackets -/

/-- The text closes this many brackets that were opened before it, and is well nested otherwise. -/
def Closing : (depth : Nat) → List Char → Prop
  | 0, text => Nested text
  | depth + 1, text => ∃ inner rest, text = inner ++ ']' :: rest ∧ Nested inner ∧ Closing depth rest

theorem Nested.closing_append {left text : List Char} (hleft : Nested left) {depth : Nat} (htext : Closing depth text) :
    Closing depth (left ++ text) := by
  cases depth with
  | zero => exact hleft.append htext
  | succ depth =>
    obtain ⟨inner, rest, rfl, hinner, hrest⟩ := htext
    exact ⟨left ++ inner, rest, by rw [List.append_assoc], hleft.append hinner, hrest⟩

theorem closing_open_iff (depth : Nat) (rest : List Char) :
    Closing depth ('[' :: rest) ↔ Closing (depth + 1) rest := by
  constructor
  · intro hclosing
    cases depth with
    | zero =>
      cases hclosing with
      | plain hopen => exact absurd rfl hopen
      | scope hinner hafter => exact ⟨_, _, rfl, hinner, hafter⟩
    | succ depth =>
      obtain ⟨inner, after, htext, hinner, hafter⟩ := hclosing
      cases hinner with
      | nil => simp at htext
      | plain hopen =>
        rw [List.cons_append, List.cons.injEq] at htext
        exact absurd htext.1.symm hopen
      | @scope first second hfirst hsecond =>
        rw [List.cons_append, List.cons.injEq] at htext
        rw [htext.2, List.append_assoc, List.cons_append]
        exact ⟨first, second ++ ']' :: after, rfl, hfirst, second, after, rfl, hsecond, hafter⟩
  · rintro ⟨inner, after, rfl, hinner, hafter⟩
    have hscope : Nested ('[' :: (inner ++ [']'])) := Nested.scope hinner Nested.nil
    simpa only [List.cons_append, List.append_assoc, List.nil_append] using hscope.closing_append hafter

theorem closing_close_iff (depth : Nat) (rest : List Char) :
    Closing depth (']' :: rest) ↔ ∃ outer, depth = outer + 1 ∧ Closing outer rest := by
  constructor
  · intro hclosing
    cases depth with
    | zero =>
      cases hclosing with
      | plain _ hclose => exact absurd rfl hclose
    | succ depth =>
      obtain ⟨inner, after, htext, hinner, hafter⟩ := hclosing
      cases hinner with
      | nil =>
        rw [List.nil_append, List.cons.injEq] at htext
        exact ⟨depth, rfl, htext.2 ▸ hafter⟩
      | plain _ hclose =>
        rw [List.cons_append, List.cons.injEq] at htext
        exact absurd htext.1.symm hclose
      | scope => simp at htext
  · rintro ⟨outer, rfl, hrest⟩
    exact ⟨[], rest, rfl, Nested.nil, hrest⟩

theorem closing_plain_iff {c : Char} (hopen : c ≠ '[') (hclose : c ≠ ']') (depth : Nat) (rest : List Char) :
    Closing depth (c :: rest) ↔ Closing depth rest := by
  constructor
  · intro hclosing
    cases depth with
    | zero =>
      cases hclosing with
      | plain _ _ hrest => exact hrest
      | scope => exact absurd rfl hopen
    | succ depth =>
      obtain ⟨inner, after, htext, hinner, hafter⟩ := hclosing
      cases hinner with
      | nil =>
        rw [List.nil_append, List.cons.injEq] at htext
        exact absurd htext.1 hclose
      | plain _ _ hinner =>
        rw [List.cons_append, List.cons.injEq] at htext
        exact ⟨_, after, htext.2, hinner, hafter⟩
      | scope =>
        rw [List.cons_append, List.cons.injEq] at htext
        exact absurd htext.1 hopen
  · intro hrest
    exact (Nested.plain hopen hclose Nested.nil).closing_append hrest

/-! ### The check -/

@[simp] theorem openBrackets_open (position depth : Nat) (rest : List Char) :
    openBrackets position depth ('[' :: rest) = openBrackets (position + 1) (depth + 1) rest := by
  simp [openBrackets]

@[simp] theorem openBrackets_close_zero (position : Nat) (rest : List Char) :
    openBrackets position 0 (']' :: rest) = .error (.unexpectedClose position) := by
  simp [openBrackets]

@[simp] theorem openBrackets_close_succ (position depth : Nat) (rest : List Char) :
    openBrackets position (depth + 1) (']' :: rest) = openBrackets (position + 1) depth rest := by
  simp [openBrackets]

theorem openBrackets_plain {c : Char} (hopen : c ≠ '[') (hclose : c ≠ ']') (position depth : Nat) (rest : List Char) :
    openBrackets position depth (c :: rest) = openBrackets (position + 1) depth rest := by
  simp [openBrackets, hopen, hclose]

theorem openBrackets_eq_zero_iff (text : List Char) (position depth : Nat) :
    openBrackets position depth text = .ok 0 ↔ Closing depth text := by
  induction text generalizing position depth with
  | nil =>
    cases depth with
    | zero => exact iff_of_true rfl Nested.nil
    | succ depth =>
      apply iff_of_false (by simp [openBrackets])
      rintro ⟨inner, rest, htext, _⟩
      simp at htext
  | cons c rest ih =>
    by_cases hopen : c = '['
    · subst hopen
      rw [openBrackets_open, ih, closing_open_iff]
    · by_cases hclose : c = ']'
      · subst hclose
        rw [closing_close_iff]
        cases depth with
        | zero => simp
        | succ depth => simp [ih]
      · rw [openBrackets_plain hopen hclose, ih, closing_plain_iff hopen hclose]

theorem openBrackets_error_kind {text : List Char} {position depth : Nat} {fault : Fault}
    (hfault : openBrackets position depth text = .error fault) : fault.kind = .grammar := by
  induction text generalizing position depth with
  | nil => simp [openBrackets] at hfault
  | cons c rest ih =>
    by_cases hopen : c = '['
    · subst hopen
      exact ih (openBrackets_open position depth rest ▸ hfault)
    · by_cases hclose : c = ']'
      · subst hclose
        cases depth with
        | zero =>
          rw [openBrackets_close_zero] at hfault
          cases hfault
          rfl
        | succ depth => exact ih (openBrackets_close_succ position depth rest ▸ hfault)
      · exact ih (openBrackets_plain hopen hclose position depth rest ▸ hfault)

theorem checkBrackets_eq_ok_iff (text : List Char) : checkBrackets text = .ok () ↔ Nested text := by
  rw [show Nested text ↔ openBrackets 0 0 text = .ok 0 from (openBrackets_eq_zero_iff text 0 0).symm, checkBrackets]
  cases openBrackets 0 0 text with
  | error fault => simp
  | ok depth => cases depth <;> simp

theorem checkBrackets_isOk_iff (text : List Char) : (checkBrackets text).isOk = true ↔ Nested text := by
  rw [← checkBrackets_eq_ok_iff]
  cases checkBrackets text <;> simp [Except.isOk, Except.toBool]

instance (text : List Char) : Decidable (Nested text) := decidable_of_iff _ (checkBrackets_isOk_iff text)

theorem checkBrackets_error_kind {text : List Char} {fault : Fault} (hfault : checkBrackets text = .error fault) :
    fault.kind = .grammar := by
  rw [checkBrackets] at hfault
  cases hbrackets : openBrackets 0 0 text with
  | error found =>
    rw [hbrackets] at hfault
    cases hfault
    exact openBrackets_error_kind hbrackets
  | ok depth =>
    rw [hbrackets] at hfault
    cases depth with
    | zero => simp at hfault
    | succ depth =>
      cases hfault
      rfl

/-! ### Brackets still open -/

/-- How many brackets are open after a character. -/
def depthAfter (depth : Nat) (c : Char) : Nat :=
  if c = '[' then depth + 1 else if c = ']' then depth - 1 else depth

/-- How many brackets are open after a text. -/
def depthOver (depth : Nat) (text : List Char) : Nat := text.foldl depthAfter depth

@[simp] theorem depthAfter_open (depth : Nat) : depthAfter depth '[' = depth + 1 := rfl

@[simp] theorem depthAfter_close (depth : Nat) : depthAfter depth ']' = depth - 1 := rfl

theorem depthAfter_plain {c : Char} (hopen : c ≠ '[') (hclose : c ≠ ']') (depth : Nat) : depthAfter depth c = depth := by
  rw [depthAfter, if_neg hopen, if_neg hclose]

theorem Closing.tail {c : Char} {rest : List Char} {depth : Nat} (hclosing : Closing depth (c :: rest)) :
    Closing (depthAfter depth c) rest := by
  by_cases hopen : c = '['
  · subst hopen
    exact (closing_open_iff _ _).1 hclosing
  · by_cases hclose : c = ']'
    · subst hclose
      obtain ⟨outer, rfl, hrest⟩ := (closing_close_iff _ _).1 hclosing
      exact hrest
    · rw [depthAfter_plain hopen hclose]
      exact (closing_plain_iff hopen hclose _ _).1 hclosing

/-- What follows a part of a text closes the brackets that the part leaves open. -/
theorem Closing.of_append {before after : List Char} {depth : Nat} (hclosing : Closing depth (before ++ after)) :
    Closing (depthOver depth before) after := by
  induction before generalizing depth with
  | nil => exact hclosing
  | cons c before ih => exact ih hclosing.tail

/-- How many brackets of a text are not closed in it. -/
def stillOpen (text : List Char) : Nat := text.count '[' - text.count ']'

theorem Closing.depthOver_add {before after : List Char} {depth : Nat} (hclosing : Closing depth (before ++ after)) :
    depthOver depth before + before.count ']' = depth + before.count '[' := by
  induction before generalizing depth with
  | nil => rfl
  | cons c before ih =>
    have hrest := ih hclosing.tail
    by_cases hopen : c = '['
    · subst hopen
      rw [List.count_cons_self, List.count_cons_of_ne (by decide)]
      rw [depthAfter_open] at hrest
      rw [depthOver, List.foldl_cons, depthAfter_open, ← depthOver]
      omega
    · by_cases hclose : c = ']'
      · subst hclose
        obtain ⟨outer, rfl, _⟩ := (closing_close_iff _ _).1 hclosing
        rw [List.count_cons_self, List.count_cons_of_ne (by decide)]
        rw [depthAfter_close] at hrest
        rw [depthOver, List.foldl_cons, depthAfter_close, ← depthOver]
        omega
      · rw [List.count_cons_of_ne hopen, List.count_cons_of_ne hclose]
        rw [depthAfter_plain hopen hclose] at hrest
        rw [depthOver, List.foldl_cons, depthAfter_plain hopen hclose]
        exact hrest

theorem Nested.depthOver_eq {before after : List Char} (hnested : Nested (before ++ after)) :
    depthOver 0 before = stillOpen before := by
  have hclosing : Closing 0 (before ++ after) := hnested
  have hcount := hclosing.depthOver_add
  rw [stillOpen]
  omega

theorem depthOver_append (depth : Nat) (left right : List Char) :
    depthOver depth (left ++ right) = depthOver (depthOver depth left) right :=
  List.foldl_append

/-- A well-nested text leaves as many brackets open as it found. -/
theorem Nested.depthOver_self {inner : List Char} (hinner : Nested inner) (depth : Nat) : depthOver depth inner = depth := by
  induction hinner generalizing depth with
  | nil => rfl
  | plain hopen hclose _ ih =>
    rw [depthOver, List.foldl_cons, depthAfter_plain hopen hclose]
    exact ih depth
  | @scope inner rest _ _ ihinner ihrest =>
    rw [depthOver, List.foldl_cons, ← depthOver, depthOver_append, depthAfter_open, ihinner (depth + 1)]
    exact ihrest depth

/-! ### Texts that lose characters -/

/-- The second text is the first one without some of its removable characters. -/
inductive Thinned (removable : Char → Prop) : (text thinned : List Char) → Prop
  | nil : Thinned removable [] []
  | keep (c : Char) {text thinned : List Char} (hrest : Thinned removable text thinned) :
      Thinned removable (c :: text) (c :: thinned)
  | drop {c : Char} {text thinned : List Char} (hremovable : removable c) (hrest : Thinned removable text thinned) :
      Thinned removable (c :: text) thinned

/-- Losing other characters than brackets, a text closes as many of them as before. -/
theorem Thinned.closing {removable : Char → Prop} (hplain : ∀ c, removable c → c ≠ '[' ∧ c ≠ ']') {text thinned : List Char}
    (hthinned : Thinned removable text thinned) {depth : Nat} (hclosing : Closing depth text) : Closing depth thinned := by
  induction hthinned generalizing depth with
  | nil => exact hclosing
  | keep c _ ih =>
    have hrest := ih hclosing.tail
    by_cases hopen : c = '['
    · subst hopen
      exact (closing_open_iff _ _).2 hrest
    by_cases hclose : c = ']'
    · subst hclose
      obtain ⟨outer, rfl, _⟩ := (closing_close_iff _ _).1 hclosing
      exact (closing_close_iff _ _).2 ⟨outer, rfl, hrest⟩
    rw [depthAfter_plain hopen hclose] at hrest
    exact (closing_plain_iff hopen hclose _ _).2 hrest
  | drop hremovable _ ih =>
    obtain ⟨hopen, hclose⟩ := hplain _ hremovable
    exact ih ((closing_plain_iff hopen hclose _ _).1 hclosing)

theorem Thinned.nested {removable : Char → Prop} (hplain : ∀ c, removable c → c ≠ '[' ∧ c ≠ ']') {text thinned : List Char}
    (hthinned : Thinned removable text thinned) (hnested : Nested text) : Nested thinned := by
  have hclosing : Closing 0 text := hnested
  exact hthinned.closing hplain hclosing

end TurtleMusic.Grammar
