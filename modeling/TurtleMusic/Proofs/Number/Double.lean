import Mathlib
import TurtleMusic.Proofs.Number.Sign

/-!
# Signs of doubles

Doubles obey the laws of signs. Packing and rounding keep the sign, and a positive number that is at least the least double does not come out as nought. A sum of weights is therefore never negative, nor nought unless all of them are; it may overflow, or be no number at all.
-/

namespace TurtleMusic.Number.Double

open Float.Model Float.Model.UnpackedFloat

/-- The unpacked numbers less than nought. -/
inductive Negative : UnpackedFloat → Prop
  | infinity : Negative (.infinity .negative)
  | finite {mantissa : Nat} {exponent : Int} {hpos : 0 < mantissa} :
      Negative (.finite .negative mantissa exponent hpos)

/-- The unpacked numbers greater than nought, with the mantissas and exponents that doubles have. -/
inductive Positive : UnpackedFloat → Prop
  | infinity : Positive (.infinity .positive)
  | finite {mantissa : Nat} {exponent : Int} {hpos : 0 < mantissa} (hmantissa : mantissa < 2 ^ 53)
      (hexponent : -1074 ≤ exponent) : Positive (.finite .positive mantissa exponent hpos)

/-! ### Rounding -/

theorem shiftRight_mantissa (extended : ExtendedMantissa) (places : Nat) :
    (extended >>> places).mantissa = extended.mantissa / 2 ^ places := by
  induction places with
  | zero => simp [HShiftRight.hShiftRight, Nat.repeat]
  | succ places ih =>
    have hstep : (extended >>> (places + 1)).mantissa = (extended >>> places).mantissa / 2 := rfl
    rw [hstep, ih, Nat.div_div_eq_div_mul, Nat.pow_succ]

theorem ofMantissaAndAccuracy_mantissa (mantissa : Nat) (accuracy : Accuracy) :
    (ExtendedMantissa.ofMantissaAndAccuracy mantissa accuracy).mantissa = mantissa := by
  cases accuracy with
  | exact => rfl
  | inexact half => cases half <;> rfl

theorem roundedMantissa_bounds (extended : ExtendedMantissa) :
    extended.mantissa ≤ extended.roundedMantissa ∧ extended.roundedMantissa ≤ extended.mantissa + 1 := by
  obtain ⟨mantissa, roundBit, stickyBit⟩ := extended
  cases roundBit <;> cases stickyBit <;>
    simp only [ExtendedMantissa.roundedMantissa, ExtendedMantissa.accuracy, Accuracy.roundToNearestEven] <;> omega

theorem targetExponent_eq (mantissa : Nat) (exponent : Int) :
    Format.binary64.targetExponent (totalExponent mantissa exponent) =
      max (mantissa.log2 - 52 + exponent) (-1074) := by
  simp only [Format.targetExponent, totalExponent, Format.mantissaBits, Format.minExponent]
  omega

/-- Shifting keeps a mantissa that is worth at least the least double, and makes it fit. -/
theorem shiftToTargetExponent_fits {mantissa : Nat} {exponent : Int} (accuracy : Accuracy)
    (hmantissa : 2 ^ (-1074 - exponent).toNat ≤ mantissa) :
    0 < (shiftToTargetExponent Format.binary64 mantissa exponent accuracy).1.mantissa ∧
      (shiftToTargetExponent Format.binary64 mantissa exponent accuracy).1.mantissa < 2 ^ 53 ∧
      -1074 ≤ (shiftToTargetExponent Format.binary64 mantissa exponent accuracy).2 := by
  have hpos : mantissa ≠ 0 := Nat.ne_of_gt (Nat.lt_of_lt_of_le (Nat.two_pow_pos _) hmantissa)
  simp only [shiftToTargetExponent, shiftToExponent, targetExponent_eq, shiftRight_mantissa,
    ofMantissaAndAccuracy_mantissa]
  generalize hplaces : (max (mantissa.log2 - 52 + exponent) (-1074) - exponent).toNat = places
  have hfloor : 2 ^ places ≤ mantissa := by
    by_cases hleast : places ≤ (-1074 - exponent).toNat
    · exact Nat.le_trans (Nat.pow_le_pow_right (by decide) hleast) hmantissa
    · exact Nat.le_trans (Nat.pow_le_pow_right (by decide) (by omega)) (Nat.log2_self_le hpos)
  have hceiling : mantissa < 2 ^ 53 * 2 ^ places := by
    rw [← Nat.pow_add]
    exact Nat.lt_of_lt_of_le Nat.lt_log2_self (Nat.pow_le_pow_right (by decide) (by omega))
  refine ⟨Nat.div_pos hfloor (Nat.two_pow_pos places), ?_, by omega⟩
  exact (Nat.div_lt_iff_lt_mul (Nat.two_pow_pos places)).2 hceiling

/-- A positive number that is at least the least double stays positive. -/
theorem roundWithAccuracy_positive {mantissa : Nat} {exponent : Int} (accuracy : Accuracy)
    (hmantissa : 2 ^ (-1074 - exponent).toNat ≤ mantissa) :
    Positive (roundWithAccuracy Format.binary64 .positive mantissa exponent accuracy) := by
  obtain ⟨hpos, _, hexponent⟩ := shiftToTargetExponent_fits accuracy hmantissa
  rw [roundWithAccuracy]
  generalize shiftToTargetExponent Format.binary64 mantissa exponent accuracy = shifted at hpos hexponent ⊢
  have hrounded : 2 ^ (-1074 - shifted.2).toNat ≤ shifted.1.roundedMantissa := by
    rw [Int.toNat_of_nonpos (by omega)]
    exact Nat.le_trans hpos (roundedMantissa_bounds shifted.1).1
  obtain ⟨hfinal, hfits, hleast⟩ := shiftToTargetExponent_fits .exact hrounded
  dsimp only
  rw [dif_neg (Nat.ne_of_gt hfinal)]
  exact Positive.finite hfits hleast

theorem roundWithAccuracy_not_negative (mantissa : Nat) (exponent : Int) (accuracy : Accuracy) :
    ¬Negative (roundWithAccuracy Format.binary64 .positive mantissa exponent accuracy) := by
  rw [roundWithAccuracy]
  dsimp only
  split <;> nofun

theorem round_positive {mantissa : Nat} {exponent : Int} (hpos : 0 < mantissa) (hexponent : -1074 ≤ exponent) :
    Positive (UnpackedFloat.round Format.binary64 .positive mantissa exponent) := by
  rw [UnpackedFloat.round, decreaseExponent]
  dsimp only
  apply roundWithAccuracy_positive .exact
  rw [targetExponent_eq, Int.toNat_of_nonpos (by omega), Nat.shiftLeft_eq]
  exact Nat.mul_pos hpos (Nat.two_pow_pos _)

theorem normalize_positive {mantissa : Int} {exponent : Int} (hpos : 0 < mantissa) (hexponent : -1074 ≤ exponent)
    (zeroSign : Sign) : Positive (UnpackedFloat.normalize Format.binary64 mantissa exponent zeroSign) := by
  rw [UnpackedFloat.normalize, show compare mantissa 0 = .gt from Int.compare_eq_gt.2 hpos]
  exact round_positive (by omega) hexponent

/-! ### Packing -/

theorem unpackSign_packComponents {spec : Format} {sign : Sign} {exponent : BitVec spec.exponentBits}
    {mantissa : BitVec spec.mantissaBitsWithoutImplicit} :
    unpackSign (packComponents spec sign exponent mantissa) = sign.toBitVec := by
  ext i hi
  simp only [unpackSign, packComponents, BitVec.getElem_cast, BitVec.getElem_extract, BitVec.getLsbD_append]
  rw [if_neg (by omega), if_neg (by omega), ← BitVec.getLsbD_eq_getElem hi]
  congr 1
  omega

/-- What can be unpacked from components. -/
inductive Unpacked (sign : Sign) (exponentBits : BitVec Format.binary64.exponentBits)
    (mantissaBits : BitVec Format.binary64.mantissaBitsWithoutImplicit) : UnpackedFloat → Prop
  | notANumber (hexponent : exponentBits = -1#_) : Unpacked sign exponentBits mantissaBits .notANumber
  | infinity : Unpacked sign exponentBits mantissaBits (.infinity sign)
  | zero (hexponent : exponentBits = 0#_) (hmantissa : mantissaBits = 0#_) :
      Unpacked sign exponentBits mantissaBits (.zero sign)
  | finite {mantissa : Nat} {exponent : Int} {hpos : 0 < mantissa} (hmantissa : mantissa < 2 ^ 53)
      (hexponent : -1074 ≤ exponent) : Unpacked sign exponentBits mantissaBits (.finite sign mantissa exponent hpos)

theorem unpack_unpacked (bits : BitVec Format.binary64.numBits) :
    Unpacked (Sign.ofBitVec (unpackSign bits)) (unpackExponent bits) (unpackMantissa bits)
      (UnpackedFloat.unpack Format.binary64 bits) := by
  rw [UnpackedFloat.unpack]
  dsimp only
  split
  · next hexponent =>
    split
    · exact Unpacked.infinity
    · exact Unpacked.notANumber hexponent
  · split
    · next hexponent =>
      split
      · next hmantissa => exact Unpacked.zero hexponent hmantissa
      · apply Unpacked.finite (Nat.lt_trans (BitVec.isLt _) (by decide))
        rw [hexponent]
        decide
    · next hexponent =>
      have hpos : 0 < (unpackExponent bits).toNat :=
        Nat.pos_of_ne_zero fun hzero => hexponent (BitVec.eq_of_toNat_eq hzero)
      apply Unpacked.finite (BitVec.isLt _)
      rw [show Format.binary64.exponentBias = 1023 from rfl]
      omega

theorem unpack_packComponents (sign : Sign) (exponent : BitVec Format.binary64.exponentBits)
    (mantissa : BitVec Format.binary64.mantissaBitsWithoutImplicit) :
    Unpacked sign exponent mantissa
      (UnpackedFloat.unpack Format.binary64 (packComponents Format.binary64 sign exponent mantissa)) := by
  have hunpacked := unpack_unpacked (packComponents Format.binary64 sign exponent mantissa)
  rw [unpackSign_packComponents, unpackExponent_packComponents, unpackMantissa_packComponents] at hunpacked
  cases sign <;> exact hunpacked

section

variable {exponent : BitVec Format.binary64.exponentBits} {mantissa : BitVec Format.binary64.mantissaBitsWithoutImplicit}
  {unpacked : UnpackedFloat}

theorem Unpacked.not_negative (hunpacked : Unpacked .positive exponent mantissa unpacked) : ¬Negative unpacked := by
  cases hunpacked <;> nofun

theorem Unpacked.positive (hunpacked : Unpacked .positive exponent mantissa unpacked) (hnumber : exponent ≠ -1#_)
    (hnonzero : exponent ≠ 0#_ ∨ mantissa ≠ 0#_) : Positive unpacked := by
  cases hunpacked with
  | notANumber hexponent => exact absurd hexponent hnumber
  | infinity => exact Positive.infinity
  | zero hexponent hmantissa => exact absurd hmantissa (hnonzero.resolve_left (not_not_intro hexponent))
  | finite hmantissa hexponent => exact Positive.finite hmantissa hexponent

end

theorem unpack_pack (unpacked : UnpackedFloat) :
    (Float.Model.pack unpacked).unpack = UnpackedFloat.unpack Format.binary64 (UnpackedFloat.pack Format.binary64 unpacked) :=
  rfl

/-- Packing makes no number negative. -/
theorem pack_not_negative {unpacked : UnpackedFloat} (hnot : ¬Negative unpacked) :
    ¬Negative (Float.Model.pack unpacked).unpack := by
  rw [unpack_pack]
  cases unpacked with
  | notANumber => exact (unpack_packComponents .positive _ _).not_negative
  | infinity sign =>
    cases sign with
    | negative => exact absurd Negative.infinity hnot
    | positive => exact (unpack_packComponents .positive _ _).not_negative
  | zero sign => cases sign <;> nofun
  | finite sign =>
    cases sign with
    | negative => exact absurd Negative.finite hnot
    | positive =>
      rw [UnpackedFloat.pack]
      dsimp only
      split
      · exact (unpack_packComponents .positive _ _).not_negative
      · split <;> exact (unpack_packComponents .positive _ _).not_negative

/-- Packing keeps positive numbers positive. -/
theorem Positive.pack {unpacked : UnpackedFloat} (hpositive : Positive unpacked) :
    Positive (Float.Model.pack unpacked).unpack := by
  rw [unpack_pack]
  cases hpositive with
  | infinity => exact Positive.infinity
  | @finite mantissa exponent hpos hmantissa hexponent =>
    rw [UnpackedFloat.pack]
    dsimp only
    split
    · exact Positive.infinity
    · next hsmall =>
      have hbias : exponent + Format.binary64.exponentBias + Format.binary64.mantissaBitsWithoutImplicit = exponent + 1075 := by
        change exponent + 1023 + 52 = exponent + 1075
        omega
      have hbound : (exponent + 1075).toNat + 1 < 2 ^ 11 := by rwa [hbias, Nat.not_le] at hsmall
      split
      · refine (unpack_packComponents .positive _ _).positive (fun heq => ?_) (.inl fun heq => ?_)
        · have hones := congrArg BitVec.toNat heq
          rw [hbias, BitVec.toNat_ofNat, Nat.mod_eq_of_lt (by omega), show (-1#11).toNat = 2047 from rfl] at hones
          omega
        · have hnought := congrArg BitVec.toNat heq
          rw [hbias, BitVec.toNat_ofNat, Nat.mod_eq_of_lt (by omega), show (0#11).toNat = 0 from rfl] at hnought
          omega
      · next hsubnormal =>
        refine (unpack_packComponents .positive _ _).positive (by decide) (.inr fun heq => ?_)
        have hlog : mantissa.log2 ≠ 52 := fun hlog => hsubnormal (by rw [hlog]; rfl)
        have hlow : mantissa < 2 ^ 52 := by
          have hlogLt : mantissa.log2 < 53 := (Nat.log2_lt (Nat.ne_of_gt hpos)).2 hmantissa
          exact (Nat.log2_lt (Nat.ne_of_gt hpos)).1 (by omega)
        have hnought := congrArg BitVec.toNat heq
        rw [BitVec.toNat_ofNat, Nat.mod_eq_of_lt hlow, show (0#52).toNat = 0 from rfl] at hnought
        omega

/-- An unpacked number that is not at most nought: it is positive, or it is none. -/
def Weighty (unpacked : UnpackedFloat) : Prop := Positive unpacked ∨ unpacked = .notANumber

theorem Weighty.pack {unpacked : UnpackedFloat} (hweighty : Weighty unpacked) :
    Weighty (Float.Model.pack unpacked).unpack := by
  rcases hweighty with hpositive | rfl
  · exact .inl hpositive.pack
  · exact .inr rfl

theorem Weighty.not_negative {unpacked : UnpackedFloat} (hweighty : Weighty unpacked) : ¬Negative unpacked := by
  rcases hweighty with (_ | _) | rfl <;> nofun

theorem exists_unpacked (x : Float) : ∃ sign exponent mantissa, Unpacked sign exponent mantissa x.toModel.unpack :=
  ⟨_, _, _, unpack_unpacked x.toModel.toBits.toBitVec⟩

/-- A double is negative, is nought of either sign, or has weight. -/
theorem negative_or_zero_or_weighty (x : Float) :
    Negative x.toModel.unpack ∨ (∃ sign, x.toModel.unpack = .zero sign) ∨ Weighty x.toModel.unpack := by
  obtain ⟨sign, _, _, hunpacked⟩ := exists_unpacked x
  generalize x.toModel.unpack = unpacked at hunpacked ⊢
  cases hunpacked with
  | notANumber => exact .inr (.inr (.inr rfl))
  | zero => exact .inr (.inl ⟨sign, rfl⟩)
  | infinity =>
    cases sign with
    | negative => exact .inl Negative.infinity
    | positive => exact .inr (.inr (.inl Positive.infinity))
  | finite hmantissa hexponent =>
    cases sign with
    | negative => exact .inl Negative.finite
    | positive => exact .inr (.inr (.inl (Positive.finite hmantissa hexponent)))

theorem weighty_or_zero {x : Float} (hnot : ¬Negative x.toModel.unpack) :
    Weighty x.toModel.unpack ∨ ∃ sign, x.toModel.unpack = .zero sign :=
  ((negative_or_zero_or_weighty x).resolve_left hnot).symm

/-! ### Comparing with nought -/

theorem unpack_zero : (0 : Float).toModel.unpack = .zero .positive := by
  rfl

theorem lt_zero_iff {x : Float} : x < 0 ↔ Negative x.toModel.unpack := by
  have hcompare : x < 0 ↔ x.toModel.unpack.compare (.zero .positive) = some .lt := by
    rw [← unpack_zero]
    exact decide_eq_true_iff.trans beq_iff_eq
  have hkind := negative_or_zero_or_weighty x
  rw [hcompare]
  generalize x.toModel.unpack = unpacked at hkind ⊢
  rcases hkind with (_ | _) | ⟨_, rfl⟩ | (_ | _) | rfl
  · exact iff_of_true rfl Negative.infinity
  · exact iff_of_true rfl Negative.finite
  · exact iff_of_false nofun nofun
  · exact iff_of_false nofun nofun
  · exact iff_of_false nofun nofun
  · exact iff_of_false nofun nofun

theorem zero_lt_iff {x : Float} : 0 < x ↔ Positive x.toModel.unpack := by
  have hcompare : 0 < x ↔ UnpackedFloat.compare (.zero .positive) x.toModel.unpack = some .lt := by
    rw [← unpack_zero]
    exact decide_eq_true_iff.trans beq_iff_eq
  have hkind := negative_or_zero_or_weighty x
  rw [hcompare]
  generalize x.toModel.unpack = unpacked at hkind ⊢
  rcases hkind with (_ | _) | ⟨_, rfl⟩ | (_ | hfits) | rfl
  · exact iff_of_false nofun nofun
  · exact iff_of_false nofun nofun
  · exact iff_of_false nofun nofun
  · exact iff_of_true rfl Positive.infinity
  · exact iff_of_true rfl (Positive.finite hfits ‹_›)
  · exact iff_of_false nofun nofun

theorem not_le_zero_iff {x : Float} : ¬x ≤ 0 ↔ Weighty x.toModel.unpack := by
  have hcompare : x ≤ 0 ↔ (x.toModel.unpack.compare (.zero .positive)).any (·.isLE) = true := by
    rw [← unpack_zero]
    exact decide_eq_true_iff
  have hkind := negative_or_zero_or_weighty x
  rw [hcompare]
  generalize x.toModel.unpack = unpacked at hkind ⊢
  rcases hkind with hnegative | ⟨_, rfl⟩ | hweighty
  · refine iff_of_false ?_ fun hweighty => hweighty.not_negative hnegative
    cases hnegative <;> exact fun hnot => hnot rfl
  · refine iff_of_false (fun hnot => hnot rfl) ?_
    rintro (hpositive | hnone)
    · cases hpositive
    · cases hnone
  · refine iff_of_true ?_ hweighty
    rcases hweighty with (_ | _) | rfl <;> nofun

/-! ### Sums -/

theorem shiftLeft_pos {mantissa : Nat} (hpos : 0 < mantissa) (places : Nat) : 0 < mantissa <<< places := by
  rw [Nat.shiftLeft_eq]
  exact Nat.mul_pos hpos (Nat.two_pow_pos places)

theorem add_positive {u v : UnpackedFloat} (hu : Positive u) (hv : Positive v) :
    Positive (UnpackedFloat.add Format.binary64 u v) := by
  cases hu with
  | infinity => cases hv <;> exact Positive.infinity
  | finite =>
    cases hv with
    | infinity => exact Positive.infinity
    | finite =>
      refine normalize_positive ?_ (by omega) .positive
      exact Int.add_pos (Int.natCast_pos.2 (shiftLeft_pos ‹_› _)) (Int.natCast_pos.2 (shiftLeft_pos ‹_› _))

theorem add_weighty {u v : UnpackedFloat} (hu : Weighty u) (hv : Weighty v) :
    Weighty (UnpackedFloat.add Format.binary64 u v) := by
  rcases hu with hu | rfl
  · rcases hv with hv | rfl
    · exact .inl (add_positive hu hv)
    · cases hu <;> exact .inr rfl
  · exact .inr rfl

theorem add_zero_of_weighty {u : UnpackedFloat} (hu : Weighty u) (sign : Sign) :
    UnpackedFloat.add Format.binary64 u (.zero sign) = u := by
  rcases hu with (_ | _) | rfl <;> rfl

theorem zero_add_of_weighty {u : UnpackedFloat} (hu : Weighty u) (sign : Sign) :
    UnpackedFloat.add Format.binary64 (.zero sign) u = u := by
  rcases hu with (_ | _) | rfl <;> rfl

theorem unpack_add (x y : Float) :
    (x + y).toModel.unpack =
      (Float.Model.pack (UnpackedFloat.add Format.binary64 x.toModel.unpack y.toModel.unpack)).unpack :=
  rfl

theorem add_weighty_left {x y : Float} (hx : Weighty x.toModel.unpack) (hy : ¬Negative y.toModel.unpack) :
    Weighty (x + y).toModel.unpack := by
  rw [unpack_add]
  apply Weighty.pack
  rcases weighty_or_zero hy with hyWeighty | ⟨sign, hzero⟩
  · exact add_weighty hx hyWeighty
  · rw [hzero, add_zero_of_weighty hx]
    exact hx

theorem add_weighty_right {x y : Float} (hx : ¬Negative x.toModel.unpack) (hy : Weighty y.toModel.unpack) :
    Weighty (x + y).toModel.unpack := by
  rw [unpack_add]
  apply Weighty.pack
  rcases weighty_or_zero hx with hxWeighty | ⟨sign, hzero⟩
  · exact add_weighty hxWeighty hy
  · rw [hzero, zero_add_of_weighty hy]
    exact hy

theorem add_not_negative {x y : Float} (hx : ¬Negative x.toModel.unpack) (hy : ¬Negative y.toModel.unpack) :
    ¬Negative (x + y).toModel.unpack := by
  rcases weighty_or_zero hx with hxWeighty | ⟨xSign, hxZero⟩
  · exact (add_weighty_left hxWeighty hy).not_negative
  · rcases weighty_or_zero hy with hyWeighty | ⟨ySign, hyZero⟩
    · exact (add_weighty_right hx hyWeighty).not_negative
    · rw [unpack_add, hxZero, hyZero]
      apply pack_not_negative
      rw [UnpackedFloat.add]
      split <;> nofun

/-! ### Whole numbers and their quotients -/

theorem mul_one_positive {unpacked : UnpackedFloat} (hpositive : Positive unpacked) :
    Positive (UnpackedFloat.mul Format.binary64 unpacked (.finite .positive (2 ^ 52) (-52) (by decide))) := by
  cases hpositive with
  | infinity => exact Positive.infinity
  | @finite mantissa exponent hpos _ hexponent =>
    apply roundWithAccuracy_positive .exact
    calc 2 ^ (-1074 - (exponent + -52)).toNat
      _ ≤ 2 ^ 52 := Nat.pow_le_pow_right (by decide) (by omega)
      _ ≤ mantissa * 2 ^ 52 := Nat.le_mul_of_pos_left _ hpos

theorem toFloat_positive {n : Nat} (hpos : 0 < n) (hsmall : n < 2 ^ 53) :
    Positive n.toUInt64.toFloat.toModel.unpack := by
  have hvalue : n.toUInt64.toNat = n := by
    rw [Nat.toUInt64, UInt64.toNat_ofNat']
    omega
  have hround : Positive (UnpackedFloat.ofUInt64 Format.binary64 n.toUInt64) := by
    rw [UnpackedFloat.ofUInt64, hvalue]
    exact normalize_positive (Int.natCast_pos.2 hpos) (by decide) .positive
  exact hround.pack

theorem ofScientific_positive {n : Nat} (hpos : 0 < n) : Positive (UnpackedFloat.ofScientific Format.binary64 n 0) := by
  have hrange : (0 : Int) ≤ 2 ^ Format.binary64.exponentBits := by decide
  rw [UnpackedFloat.ofScientific, dif_neg (Nat.ne_of_gt hpos), if_neg (by decide), if_neg (by omega), if_pos (by decide),
    UnpackedFloat.mul]
  apply roundWithAccuracy_positive .exact
  exact Nat.mul_pos (shiftLeft_pos hpos _) (by decide)

theorem unpack_mul (x y : Float) :
    (x * y).toModel.unpack =
      (Float.Model.pack (UnpackedFloat.mul Format.binary64 x.toModel.unpack y.toModel.unpack)).unpack :=
  rfl

theorem unpack_one :
    (Float.ofBits 0x3FF0000000000000).toModel.unpack = .finite .positive (2 ^ 52) (-52) (by decide) := by
  rfl

theorem ofNat_positive {n : Nat} (hpos : 0 < n) : Positive (Float.ofNat n).toModel.unpack := by
  change Positive (Float.ofScientific n false 0).toModel.unpack
  rw [Float.ofScientific]
  split
  · next hsmall =>
    change Positive (n.toUInt64.toFloat * Float.ofBits 0x3FF0000000000000).toModel.unpack
    rw [unpack_mul, unpack_one]
    exact (mul_one_positive (toFloat_positive hpos hsmall.1)).pack
  · exact (ofScientific_positive hpos).pack

theorem unpack_div (x y : Float) :
    (x / y).toModel.unpack =
      (Float.Model.pack (UnpackedFloat.div Format.binary64 x.toModel.unpack y.toModel.unpack)).unpack :=
  rfl

/-- Divided by what has weight, a number that is not negative does not become so. -/
theorem div_not_negative {u v : UnpackedFloat} (hu : Weighty u ∨ ∃ sign, u = .zero sign) (hv : Weighty v) :
    ¬Negative (UnpackedFloat.div Format.binary64 u v) := by
  rcases hu with (hu | rfl) | ⟨sign, rfl⟩
  · rcases hv with hv | rfl
    · cases hu with
      | infinity => cases hv <;> nofun
      | finite =>
        cases hv with
        | infinity => nofun
        | finite => exact roundWithAccuracy_not_negative _ _ _
    · cases hu <;> nofun
  · nofun
  · rcases hv with (_ | _) | rfl <;> nofun

end TurtleMusic.Number.Double

namespace TurtleMusic.Number

open Double

instance : LawfulWeight Float where
  zero_not_neg hneg := nomatch unpack_zero ▸ lt_zero_iff.1 hneg
  not_neg_of_pos hpos hneg := Weighty.not_negative (.inl (zero_lt_iff.1 hpos)) (lt_zero_iff.1 hneg)
  not_nonpos_of_pos hpos := not_le_zero_iff.2 (.inl (zero_lt_iff.1 hpos))
  add_not_neg ha hb hneg := add_not_negative (mt lt_zero_iff.2 ha) (mt lt_zero_iff.2 hb) (lt_zero_iff.1 hneg)
  add_not_nonpos_left ha hb := not_le_zero_iff.2 (add_weighty_left (not_le_zero_iff.1 ha) (mt lt_zero_iff.2 hb))
  add_not_nonpos_right ha hb := not_le_zero_iff.2 (add_weighty_right (mt lt_zero_iff.2 ha) (not_le_zero_iff.1 hb))
  natCast_pos hpos := zero_lt_iff.2 (ofNat_positive hpos)
  div_not_neg ha hb hneg :=
    pack_not_negative (div_not_negative (weighty_or_zero (mt lt_zero_iff.2 ha)) (not_le_zero_iff.1 hb)) (lt_zero_iff.1 hneg)

end TurtleMusic.Number
