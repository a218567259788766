import TurtleMusic.Text.Digit

/-!
# Written numbers read back

The decimal text of a number consists of digits and reads as that number. Texts of scores are made of such numbers with other characters between them, so what matters beside the value is that no digit is mistaken for one of those.
-/

namespace TurtleMusic.Text

theorem toNat_mem_of_isDigit {c : Char} (hdigit : c.isDigit = true) : 48 ≤ c.toNat ∧ c.toNat ≤ 57 := by
  simpa [Char.isDigit, UInt32.le_iff_toNat_le] using hdigit

theorem digitValue?_of_isDigit {c : Char} (hdigit : c.isDigit = true) : digitValue? c = some (c.toNat - 48) := by
  have hrange := toNat_mem_of_isDigit hdigit
  have hfound : (decide (0x30 ≤ c.toNat) && decide (c.toNat < 0x30 + 10)) = true := by
    rw [Bool.and_eq_true, decide_eq_true_eq, decide_eq_true_eq]
    omega
  have hfind : (0x30 :: noughts.tail).find? (fun nought => nought ≤ c.toNat && c.toNat < nought + 10) = some 0x30 :=
    List.find?_cons_of_pos hfound
  rw [digitValue?, show noughts = 0x30 :: noughts.tail from rfl, hfind]
  rfl

theorem isDigit_of_isDigit {c : Char} (hdigit : c.isDigit = true) : isDigit c = true := by
  rw [isDigit, digitValue?_of_isDigit hdigit]
  rfl

theorem digitsValue_eq_ofDigitChars {digits : List Char} (hdigits : ∀ c ∈ digits, c.isDigit = true) (value : Nat) :
    digits.foldl (fun value c => 10 * value + (digitValue? c).getD 0) value = Nat.ofDigitChars 10 digits value := by
  induction digits generalizing value with
  | nil => rfl
  | cons c rest ih =>
    rw [List.forall_mem_cons] at hdigits
    rw [List.foldl_cons, Nat.ofDigitChars_cons, digitValue?_of_isDigit hdigits.1]
    exact ih hdigits.2 _

/-! ### Decimal texts -/

theorem isDigit_of_mem_toDigits {n : Nat} {c : Char} (hmem : c ∈ Nat.toDigits 10 n) : c.isDigit = true :=
  Nat.isDigit_of_mem_toDigits (by decide) (by decide) hmem

theorem natural?_toDigits (n : Nat) : natural? (Nat.toDigits 10 n) = some n := by
  have hall : (Nat.toDigits 10 n).all isDigit = true :=
    List.all_eq_true.2 fun c hmem => isDigit_of_isDigit (isDigit_of_mem_toDigits hmem)
  have hvalue : digitsValue (Nat.toDigits 10 n) = n :=
    (digitsValue_eq_ofDigitChars (fun c hmem => isDigit_of_mem_toDigits hmem) 0).trans Nat.ofDigitChars_ten_toDigits
  rw [natural?, hall, hvalue]
  simp [Nat.toDigits_ne_nil]

/-- A number that is not negative is written without a sign. -/
theorem toList_toString_natCast (n : Nat) : (toString (n : Int)).toList = Nat.toDigits 10 n :=
  Nat.toList_repr

/-! ### Where a number ends -/

section Ending

variable {digits : List Char} (hdigits : ∀ c ∈ digits, isDigit c = true) {c : Char} (hc : isDigit c = false) (rest : List Char)
include hdigits hc

/-- A row of digits goes up to the first character that is no digit. -/
theorem takeWhile_isDigit_append : (digits ++ c :: rest).takeWhile isDigit = digits := by
  rw [List.takeWhile_append_of_pos hdigits, List.takeWhile_cons_of_neg (by simp [hc]), List.append_nil]

theorem dropWhile_isDigit_append : (digits ++ c :: rest).dropWhile isDigit = c :: rest := by
  rw [List.dropWhile_append_of_pos hdigits, List.dropWhile_cons_of_neg (by simp [hc])]

end Ending

theorem takeWhile_isDigit_toDigits (n : Nat) {c : Char} (hc : isDigit c = false) (rest : List Char) :
    (Nat.toDigits 10 n ++ c :: rest).takeWhile isDigit = Nat.toDigits 10 n :=
  takeWhile_isDigit_append (fun _ hmem => isDigit_of_isDigit (isDigit_of_mem_toDigits hmem)) hc rest

theorem dropWhile_isDigit_toDigits (n : Nat) {c : Char} (hc : isDigit c = false) (rest : List Char) :
    (Nat.toDigits 10 n ++ c :: rest).dropWhile isDigit = c :: rest :=
  dropWhile_isDigit_append (fun _ hmem => isDigit_of_isDigit (isDigit_of_mem_toDigits hmem)) hc rest

end TurtleMusic.Text
