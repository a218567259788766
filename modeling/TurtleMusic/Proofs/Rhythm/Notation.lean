import TurtleMusic.Rhythm.Pattern

/-!
# Patterns written as text

A text is read as a pattern just if it is made of step letters and blanks. Its letters are then the steps, in their order, and blanks may stand anywhere between them. Any other text is refused for the first character that is neither letter nor blank.
-/

namespace TurtleMusic.Pattern

/-- A character that the text of a pattern may hold. -/
def IsSymbol (c : Char) : Prop := c = 'x' ∨ c = 'X' ∨ c = '.' ∨ Text.isBlank c = true

instance : DecidablePred IsSymbol := fun c =>
  inferInstanceAs (Decidable (c = 'x' ∨ c = 'X' ∨ c = '.' ∨ Text.isBlank c = true))

/-- The step that a letter stands for. -/
def letter? (c : Char) : Option Bool :=
  if c = 'x' ∨ c = 'X' then some true else if c = '.' then some false else none

/-- The steps that the letters of a text stand for. -/
def letters (text : List Char) : Pattern := text.filterMap letter?

theorem stepOf?_symbol {c : Char} (hsymbol : IsSymbol c) : stepOf? c = some (letter? c) := by
  rcases hsymbol with rfl | rfl | rfl | hblank
  · rfl
  · rfl
  · rfl
  · -- No letter is blank.
    have hpulse : ¬(c = 'x' ∨ c = 'X') := by
      rintro (rfl | rfl) <;> exact absurd hblank (by decide)
    have hpause : c ≠ '.' := by
      rintro rfl
      exact absurd hblank (by decide)
    rw [stepOf?, if_pos hblank, letter?, if_neg hpulse, if_neg hpause]

theorem stepOf?_other {c : Char} (hother : ¬IsSymbol c) : stepOf? c = none := by
  simp only [IsSymbol, not_or] at hother
  obtain ⟨hsmall, hlarge, hpause, hblank⟩ := hother
  simp [stepOf?, hsmall, hlarge, hpause, hblank]

theorem readSteps_cons (whole : String) (c : Char) (rest : List Char) :
    readSteps whole (c :: rest) =
      match stepOf? c with
      | none => .error (.unexpectedStep c whole)
      | some step => (readSteps whole rest).map (step.toList ++ ·) := (rfl)

theorem letters_cons (c : Char) (rest : List Char) : letters (c :: rest) = (letter? c).toList ++ letters rest := by
  cases hletter : letter? c <;> simp [letters, hletter]

/-- A text is refused for its first character that is no symbol, and read letter by letter if it has none. -/
theorem readSteps_eq (whole : String) (text : List Char) :
    readSteps whole text =
      match text.find? (¬IsSymbol ·) with
      | none => .ok (letters text)
      | some c => .error (.unexpectedStep c whole) := by
  induction text with
  | nil => rfl
  | cons c rest ih =>
    by_cases hsymbol : IsSymbol c
    · rw [readSteps_cons, stepOf?_symbol hsymbol, List.find?_cons_of_neg (by simpa using hsymbol), letters_cons]
      dsimp only
      rw [ih]
      cases rest.find? (¬IsSymbol ·) <;> rfl
    · rw [readSteps_cons, stepOf?_other hsymbol, List.find?_cons_of_pos (by simpa using hsymbol)]

theorem read_of_symbols {text : String} (hsymbols : ∀ c ∈ text.toList, IsSymbol c) : read text = .ok (letters text.toList) := by
  have hnone : text.toList.find? (¬IsSymbol ·) = none := by simpa using hsymbols
  rw [read, readSteps_eq, hnone]

theorem read_of_first_other {text : String} (hother : ∃ c ∈ text.toList, ¬IsSymbol c) :
    ∃ before c after, text.toList = before ++ c :: after ∧ (∀ earlier ∈ before, IsSymbol earlier) ∧ ¬IsSymbol c ∧
      read text = .error (.unexpectedStep c text) := by
  obtain ⟨c, hfirst⟩ := Option.isSome_iff_exists.1 (List.find?_isSome (p := (¬IsSymbol ·)).2 (by simpa using hother))
  obtain ⟨hc, before, after, htext, hbefore⟩ := List.find?_eq_some_iff_append.1 hfirst
  refine ⟨before, c, after, htext, by simpa using hbefore, by simpa using hc, ?_⟩
  rw [read, readSteps_eq, hfirst]

theorem read_of_other {text : String} (hother : ∃ c ∈ text.toList, ¬IsSymbol c) :
    ∃ c ∈ text.toList, ¬IsSymbol c ∧ read text = .error (.unexpectedStep c text) := by
  obtain ⟨before, c, after, htext, _, hc, hrefused⟩ := read_of_first_other hother
  exact ⟨c, htext ▸ List.mem_append_right before List.mem_cons_self, hc, hrefused⟩

end TurtleMusic.Pattern
