import TurtleMusic.Score.Length

/-!
# Lengths and their codes

A length is the sum of its codes, so writing a length and reading the codes gives it back, and codes written behind each other add up. Only a positive length can be written, and it takes at least one code.
-/

namespace TurtleMusic.Codes

@[simp] theorem units_append (left right : Codes) : units (left ++ right) = units left + units right := by
  induction left with
  | nil => simp [units]
  | cons code rest ih =>
    rw [List.cons_append, units, units, ih, Nat.add_assoc]

theorem units_replicate_whole (count : Nat) : units (List.replicate count .w) = 128 * count := by
  induction count with
  | zero => rfl
  | succ count ih =>
    rw [List.replicate_succ, units, ih, LengthCode.units]
    omega

theorem units_belowWhole : ∀ length : Fin 128, units (belowWhole length.val) = length.val := by
  decide

theorem units_ofUnits (length : Nat) : units (ofUnits length) = length := by
  have hbelow := units_belowWhole ⟨length % 128, Nat.mod_lt _ (by decide)⟩
  rw [ofUnits, units_append, units_replicate_whole, hbelow]
  exact Nat.div_add_mod length 128

theorem ofUnits_ne_nil {length : Nat} (hpos : 0 < length) : ofUnits length ≠ [] := by
  intro hnil
  have hunits := units_ofUnits length
  rw [hnil, units] at hunits
  omega

theorem units_pos {codes : Codes} (hcodes : codes ≠ []) : 0 < units codes := by
  cases codes with
  | nil => exact absurd rfl hcodes
  | cons code rest =>
    have hcode : 0 < code.units := by cases code <;> decide
    rw [units]
    omega

theorem ofLength_eq_ok {length : Int} (hpos : 0 < length) : ofLength length = .ok (ofUnits length.toNat) :=
  if_neg (Int.not_le.2 hpos)

/-- What a written length looks like. -/
theorem ofLength_ok {length : Int} {codes : Codes} (hcodes : ofLength length = .ok codes) :
    0 < length ∧ codes ≠ [] ∧ (units codes : Int) = length := by
  rw [ofLength] at hcodes
  split at hcodes
  · cases hcodes
  · rename_i hpos
    cases hcodes
    refine ⟨by omega, ofUnits_ne_nil (by omega), ?_⟩
    rw [units_ofUnits]
    omega

/-! ### Reading -/

theorem read_text (codes : Codes) : read codes.text = .ok codes := by
  induction codes with
  | nil => rfl
  | cons code rest ih =>
    rw [text, List.map_cons, read, LengthCode.ofLetter?_letter]
    exact congrArg (Except.map (code :: ·)) ih

theorem readSome?_text {codes : Codes} (hcodes : codes ≠ []) : readSome? codes.text = some codes := by
  rw [readSome?, read_text]
  cases codes with
  | nil => exact absurd rfl hcodes
  | cons code rest => rfl

theorem readSome?_ne_nil {text : List Char} {codes : Codes} (hread : readSome? text = some codes) : codes ≠ [] := by
  rw [readSome?] at hread
  split at hread
  · cases hread
    exact List.cons_ne_nil _ _
  · cases hread

end TurtleMusic.Codes
