import Mathlib.Algebra.Order.Field.Rat
import TurtleMusic.Number.Weight

/-!
# Signs of weights

What drawing relies on in the arithmetic of weights. A quotient of two overflowing counts need not be a number, so the laws say which weights are not negative, and which are neither negative nor nought; both notions survive addition.
-/

namespace TurtleMusic.Number

class LawfulWeight (W : Type) [Weight W] : Prop where
  zero_not_neg : ¬(0 : W) < 0
  not_neg_of_pos {a : W} : 0 < a → ¬a < 0
  not_nonpos_of_pos {a : W} : 0 < a → ¬a ≤ 0
  add_not_neg {a b : W} : ¬a < 0 → ¬b < 0 → ¬a + b < 0
  add_not_nonpos_left {a b : W} : ¬a ≤ 0 → ¬b < 0 → ¬a + b ≤ 0
  add_not_nonpos_right {a b : W} : ¬a < 0 → ¬b ≤ 0 → ¬a + b ≤ 0
  natCast_pos {n : Nat} : 0 < n → 0 < (n : W)
  div_not_neg {a b : W} : ¬a < 0 → ¬b ≤ 0 → ¬a / b < 0

section

variable {W : Type} [Weight W] [LawfulWeight W]

theorem tally_not_neg (count : Nat) : ¬(tally count : W) < 0 := by
  induction count with
  | zero => exact LawfulWeight.zero_not_neg
  | succ count ih => exact LawfulWeight.add_not_neg ih (LawfulWeight.not_neg_of_pos (LawfulWeight.natCast_pos Nat.one_pos))

theorem tally_not_nonpos {count : Nat} (hpos : 0 < count) : ¬(tally count : W) ≤ 0 := by
  obtain ⟨before, rfl⟩ := Nat.exists_eq_succ_of_ne_zero (Nat.ne_of_gt hpos)
  have hone : ¬((1 : Nat) : W) ≤ 0 := LawfulWeight.not_nonpos_of_pos (LawfulWeight.natCast_pos Nat.one_pos)
  exact LawfulWeight.add_not_nonpos_right (tally_not_neg before) hone

theorem foldl_add_not_nonpos_of_start {row : List W} (hrow : ∀ weight ∈ row, ¬weight < 0) {start : W} (hstart : ¬start ≤ 0) :
    ¬row.foldl (· + ·) start ≤ 0 := by
  induction row generalizing start with
  | nil => exact hstart
  | cons weight rest ih =>
    rw [List.forall_mem_cons] at hrow
    exact ih hrow.2 (LawfulWeight.add_not_nonpos_left hstart hrow.1)

theorem foldl_add_not_nonpos {row : List W} (hrow : ∀ weight ∈ row, ¬weight < 0) {weight : W} (hmem : weight ∈ row)
    (hweight : ¬weight ≤ 0) {start : W} (hstart : ¬start < 0) : ¬row.foldl (· + ·) start ≤ 0 := by
  induction row generalizing start with
  | nil => exact absurd hmem List.not_mem_nil
  | cons first rest ih =>
    rw [List.forall_mem_cons] at hrow
    rcases List.mem_cons.1 hmem with rfl | hrest
    · exact foldl_add_not_nonpos_of_start hrow.2 (LawfulWeight.add_not_nonpos_right hstart hweight)
    · exact ih hrow.2 hrest (LawfulWeight.add_not_neg hstart hrow.1)

/-- One weight gives the whole row weight. -/
theorem sum_not_nonpos {row : List W} (hrow : ∀ weight ∈ row, ¬weight < 0) {weight : W} (hmem : weight ∈ row)
    (hweight : ¬weight ≤ 0) : ¬sum row ≤ 0 :=
  foldl_add_not_nonpos hrow hmem hweight LawfulWeight.zero_not_neg

theorem sum_tally_not_nonpos {counts : List Nat} {count : Nat} (hmem : count ∈ counts) (hpos : 0 < count) :
    ¬sum (counts.map (tally : Nat → W)) ≤ 0 := by
  apply sum_not_nonpos _ (List.mem_map_of_mem hmem) (tally_not_nonpos hpos)
  intro weight hweight
  obtain ⟨other, _, rfl⟩ := List.mem_map.1 hweight
  exact tally_not_neg other

end

/-! ### Rationals -/

instance : LawfulWeight Rat where
  zero_not_neg := lt_irrefl (0 : Rat)
  not_neg_of_pos hpos := not_lt.2 (le_of_lt hpos)
  not_nonpos_of_pos hpos := not_le.2 hpos
  add_not_neg ha hb := not_lt.2 (add_nonneg (not_lt.1 ha) (not_lt.1 hb))
  add_not_nonpos_left ha hb := not_le.2 (add_pos_of_pos_of_nonneg (not_le.1 ha) (not_lt.1 hb))
  add_not_nonpos_right ha hb := not_le.2 (add_pos_of_nonneg_of_pos (not_lt.1 ha) (not_le.1 hb))
  natCast_pos hpos := Nat.cast_pos.2 hpos
  div_not_neg ha hb := not_lt.2 (div_nonneg (not_lt.1 ha) (le_of_lt (not_le.1 hb)))

theorem tally_rat (count : Nat) : (tally count : Rat) = count := by
  induction count with
  | zero => exact Nat.cast_zero.symm
  | succ count ih =>
    rw [Nat.cast_succ, ← ih]
    rfl

theorem sum_rat (row : List Rat) : sum row = row.sum := List.sum_eq_foldl.symm

end TurtleMusic.Number
