import Mathlib
import TurtleMusic.Proofs.Number.Double

/-!
# Tallies and their shares

A tally in doubles stops growing once one more is rounded away, so it is never more than a few powers of two above a whole mantissa, however much is counted. A dozen tallies therefore do not overflow, and no tally is so small beside their sum that its share would be nought.
-/

namespace TurtleMusic.Number

/-- Weights in which a dozen tallies have shares: one that counted something has some, and one that did not has none. -/
class SharingWeight (W : Type) [Weight W] : Prop extends LawfulWeight W where
  zero_nonpos : (0 : W) ≤ 0
  zero_add_zero : (0 : W) + 0 = 0
  share_pos {counts : List Nat} {count : Nat} (hdozen : counts.length ≤ 12) (hmem : count ∈ counts) (hpos : 0 < count) :
    0 < (tally count : W) / sum (counts.map tally)
  share_nonpos {counts : List Nat} {count : Nat} (hdozen : counts.length ≤ 12) (hmem : count ∈ counts) (hpos : 0 < count) :
    (0 : W) / sum (counts.map tally) ≤ 0

/-! ### Rationals -/

instance : SharingWeight Rat where
  zero_nonpos := le_refl (0 : Rat)
  zero_add_zero := add_zero (0 : Rat)
  share_pos {counts count} _ hmem hpos := by
    have htally : 0 < (tally count : Rat) := by
      rw [tally_rat]
      exact Nat.cast_pos.2 hpos
    exact div_pos htally (not_le.1 (sum_tally_not_nonpos hmem hpos))
  share_nonpos {counts count} _ _ _ := le_of_eq (zero_div (sum (counts.map (tally : Nat → Rat))))

/-! ### Doubles -/

namespace Double

open Float.Model Float.Model.UnpackedFloat

/-- The unpacked numbers from one up to a power of two, in the form that doubles have. -/
inductive Moderate (limit : Int) : UnpackedFloat → Prop
  | finite {mantissa : Nat} {exponent : Int} {hpos : 0 < mantissa} (hlow : 2 ^ 52 ≤ mantissa) (hhigh : mantissa < 2 ^ 53)
      (hleast : -52 ≤ exponent) (hmost : exponent ≤ limit) : Moderate limit (.finite .positive mantissa exponent hpos)

variable {limit bound : Int} {u v : UnpackedFloat}

theorem Moderate.positive (hmoderate : Moderate limit u) : Positive u := by
  cases hmoderate with
  | finite _ hhigh hleast _ => exact Positive.finite hhigh (by omega)

theorem Moderate.mono (hmoderate : Moderate limit u) (hle : limit ≤ bound) : Moderate bound u := by
  cases hmoderate with
  | finite hlow hhigh hleast hmost => exact .finite hlow hhigh hleast (hmost.trans hle)

theorem log2_of_bounds {mantissa : Nat} (places : Nat) (hlow : 2 ^ (52 + places) ≤ mantissa) (hhigh : mantissa < 2 ^ (53 + places)) :
    mantissa.log2 = 52 + places := by
  have hpos : mantissa ≠ 0 := Nat.ne_of_gt (Nat.lt_of_lt_of_le (Nat.two_pow_pos _) hlow)
  apply (Nat.log2_eq_iff hpos).2
  rw [Nat.add_right_comm]
  exact ⟨hlow, hhigh⟩

/-! #### Rounding long mantissas -/

variable {mantissa places : Nat} {exponent : Int}

/-- What is left of a mantissa that is too long by some places. -/
def shortened (mantissa places : Nat) : ExtendedMantissa :=
  ExtendedMantissa.ofMantissaAndAccuracy mantissa .exact >>> places

theorem shiftToTargetExponent_eq (hlog : mantissa.log2 = 52 + places) (hexponent : -1074 ≤ exponent) :
    shiftToTargetExponent Format.binary64 mantissa exponent .exact = (shortened mantissa places, exponent + places) := by
  have hplaces : (max (mantissa.log2 - 52 + exponent) (-1074) - exponent).toNat = places := by omega
  simp only [shiftToTargetExponent, shiftToExponent, targetExponent_eq, hplaces, shortened]

theorem round_eq_roundWithAccuracy (hlog : mantissa.log2 = 52 + places) :
    UnpackedFloat.round Format.binary64 .positive mantissa exponent =
      roundWithAccuracy Format.binary64 .positive mantissa exponent .exact := by
  have hplaces : (exponent - max (mantissa.log2 - 52 + exponent) (-1074)).toNat = 0 := by omega
  simp only [UnpackedFloat.round, decreaseExponent, targetExponent_eq, hplaces]
  simp

/-- A mantissa that is rounded without a carry is what it is rounded to. -/
theorem round_eq {rounded : Nat} (hlog : mantissa.log2 = 52 + places) (hexponent : -1074 ≤ exponent)
    (hrounded : (shortened mantissa places).roundedMantissa = rounded) (hlow : 2 ^ 52 ≤ rounded) (hhigh : rounded < 2 ^ 53) :
    UnpackedFloat.round Format.binary64 .positive mantissa exponent =
      .finite .positive rounded (exponent + places) (Nat.lt_of_lt_of_le (by decide) hlow) := by
  rw [round_eq_roundWithAccuracy hlog, roundWithAccuracy]
  simp only [shiftToTargetExponent_eq hlog hexponent, hrounded]
  have hlogRounded : rounded.log2 = 52 + 0 := log2_of_bounds 0 hlow hhigh
  have hfinal : (shortened rounded 0).mantissa = rounded := rfl
  simp only [shiftToTargetExponent_eq hlogRounded (show -1074 ≤ exponent + places by omega), hfinal]
  rw [dif_neg (by omega)]
  simp

/-- A mantissa that is rounded up to the next power of two is that power. -/
theorem round_carry (hlog : mantissa.log2 = 52 + places) (hexponent : -1074 ≤ exponent)
    (hfull : (shortened mantissa places).roundedMantissa = 2 ^ 53) :
    UnpackedFloat.round Format.binary64 .positive mantissa exponent =
      .finite .positive (2 ^ 52) (exponent + places + 1) (by decide) := by
  rw [round_eq_roundWithAccuracy hlog, roundWithAccuracy]
  simp only [shiftToTargetExponent_eq hlog hexponent, hfull]
  have hrounded : (2 ^ 53 : Nat).log2 = 52 + 1 := Nat.log2_two_pow
  have hfinal : (shortened (2 ^ 53) 1).mantissa = 2 ^ 52 := rfl
  simp only [shiftToTargetExponent_eq hrounded (show -1074 ≤ exponent + places by omega), hfinal]
  rfl

theorem roundedMantissa_of_roundBit {extended : ExtendedMantissa} (hbit : extended.roundBit = false) :
    extended.roundedMantissa = extended.mantissa := by
  obtain ⟨mantissa, roundBit, stickyBit⟩ := extended
  subst hbit
  cases stickyBit <;> rfl

theorem shortened_mantissa (mantissa places : Nat) : (shortened mantissa places).mantissa = mantissa / 2 ^ places := by
  rw [shortened, shiftRight_mantissa, ofMantissaAndAccuracy_mantissa]

theorem round_moderate (hlow : 2 ^ 52 ≤ mantissa) (hhigh : mantissa < 2 ^ (53 + places)) (hexponent : -52 ≤ exponent) :
    Moderate (exponent + places + 1) (UnpackedFloat.round Format.binary64 .positive mantissa exponent) := by
  have hpos : mantissa ≠ 0 := by omega
  obtain ⟨dropped, hlog⟩ : ∃ dropped, mantissa.log2 = 52 + dropped := Nat.exists_eq_add_of_le ((Nat.le_log2 hpos).2 hlow)
  have hdropped : dropped ≤ places := by
    have hlt := (Nat.log2_lt hpos).2 hhigh
    omega
  obtain ⟨hfloor, hceiling⟩ := (Nat.log2_eq_iff hpos).1 hlog
  have hrounding := roundedMantissa_bounds (shortened mantissa dropped)
  rw [shortened_mantissa] at hrounding
  have hleast : 2 ^ 52 ≤ mantissa / 2 ^ dropped := by
    rw [Nat.le_div_iff_mul_le (Nat.two_pow_pos dropped), ← Nat.pow_add]
    exact hfloor
  have hmost : mantissa / 2 ^ dropped < 2 ^ 53 := by
    rw [Nat.div_lt_iff_lt_mul (Nat.two_pow_pos dropped), ← Nat.pow_add]
    rwa [Nat.add_right_comm] at hceiling
  -- Rounding up a mantissa of ones carries into the exponent.
  by_cases hcarry : (shortened mantissa dropped).roundedMantissa = 2 ^ 53
  · rw [round_carry hlog (by omega) hcarry]
    exact .finite (by decide) (by decide) (by omega) (by omega)
  · rw [round_eq hlog (by omega) rfl (by omega) (by omega)]
    exact .finite (by omega) (by omega) (by omega) (by omega)

/-! #### Sums -/

theorem add_finite {m n : Nat} {e f : Int} {hm : 0 < m} {hn : 0 < n} :
    UnpackedFloat.add Format.binary64 (.finite .positive m e hm) (.finite .positive n f hn) =
      UnpackedFloat.round Format.binary64 .positive
        (m * 2 ^ (e - min e f).toNat + n * 2 ^ (f - min e f).toNat) (min e f) := by
  have hpos : 0 < m * 2 ^ (e - min e f).toNat + n * 2 ^ (f - min e f).toNat :=
    Nat.add_pos_left (Nat.mul_pos hm (Nat.two_pow_pos _)) _
  simp only [UnpackedFloat.add, decreaseExponent, Sign.apply, Nat.shiftLeft_eq]
  rw [← Int.natCast_add, UnpackedFloat.normalize, Int.compare_eq_gt.2 (Int.natCast_pos.2 hpos)]
  rfl

theorem Moderate.add (hu : Moderate limit u) (hv : Moderate limit v) :
    Moderate (limit + 2) (UnpackedFloat.add Format.binary64 u v) := by
  cases hu with
  | @finite m e _ hmLow hmHigh heLeast heMost =>
    cases hv with
    | @finite n f _ hnLow hnHigh hfLeast hfMost =>
      rw [add_finite]
      obtain ⟨spread, hspread⟩ : ∃ spread : Nat, max e f = min e f + spread := ⟨(max e f - min e f).toNat, by omega⟩
      have hbelow {k : Nat} {g : Int} (hk : k < 2 ^ 53) (hg : g ≤ max e f) :
          k * 2 ^ (g - min e f).toNat < 2 ^ (53 + spread) := by
        rw [Nat.pow_add]
        exact Nat.mul_lt_mul_of_lt_of_le hk (Nat.pow_le_pow_right (by decide) (by omega)) (Nat.two_pow_pos _)
      have hlow : m ≤ m * 2 ^ (e - min e f).toNat := Nat.le_mul_of_pos_right m (Nat.two_pow_pos _)
      have hm := hbelow hmHigh (le_max_left e f)
      have hn := hbelow hnHigh (le_max_right e f)
      have hsum : m * 2 ^ (e - min e f).toNat + n * 2 ^ (f - min e f).toNat < 2 ^ (53 + (spread + 1)) := by
        rw [← Nat.add_assoc, Nat.pow_succ]
        omega
      exact (round_moderate (by omega) hsum (by omega)).mono (by omega)

/-- Four times a whole mantissa is so much that one more is rounded away. -/
theorem round_of_one_more {m : Nat} (hlow : 2 ^ 52 ≤ m) (hhigh : m < 2 ^ 53) :
    UnpackedFloat.round Format.binary64 .positive (m * 2 ^ 54 + 2 ^ 52) (-52) =
      .finite .positive m 2 (Nat.lt_of_lt_of_le (by decide) hlow) := by
  have hlog : (m * 2 ^ 54 + 2 ^ 52).log2 = 52 + 54 := log2_of_bounds 54 (by omega) (by omega)
  have hquotient : (shortened (m * 2 ^ 54 + 2 ^ 52) 54).mantissa = m := by
    rw [shortened_mantissa]
    omega
  have hbit : (shortened (m * 2 ^ 54 + 2 ^ 52) 54).roundBit = false := by
    have hlast : (shortened (m * 2 ^ 54 + 2 ^ 52) 54).roundBit = ((shortened (m * 2 ^ 54 + 2 ^ 52) 53).mantissa % 2 != 0) := rfl
    rw [hlast, shortened_mantissa, bne_eq_false_iff_eq]
    omega
  have hrounded : (shortened (m * 2 ^ 54 + 2 ^ 52) 54).roundedMantissa = m := by
    rw [roundedMantissa_of_roundBit hbit, hquotient]
  rw [round_eq hlog (by decide) hrounded hlow hhigh]
  rfl

/-- Adding one never leads beyond eight times the largest mantissa. -/
theorem Moderate.add_one (hu : Moderate 2 u) :
    Moderate 2 (UnpackedFloat.add Format.binary64 u (.finite .positive (2 ^ 52) (-52) (by decide))) := by
  cases hu with
  | @finite m e hpos hlow hhigh hleast hmost =>
    -- A sum may take two places more, so exponents near the limit are looked at one by one.
    by_cases hsmall : e ≤ 0
    · have hown : Moderate e (.finite .positive m e hpos) := .finite hlow hhigh hleast (le_refl e)
      have hone : Moderate e (.finite .positive (2 ^ 52) (-52) (by decide)) := .finite (le_refl _) (by decide) (by decide) hleast
      exact (hown.add hone).mono (by omega)
    · rw [add_finite, min_eq_right hleast]
      obtain rfl | rfl : e = 1 ∨ e = 2 := by omega
      · exact round_moderate (by omega) (show m * 2 ^ 53 + 2 ^ 52 * 1 < 2 ^ (53 + 53) by omega) (le_refl _)
      · rw [show m * 2 ^ (2 - -52 : Int).toNat + 2 ^ 52 * 2 ^ (-52 - -52 : Int).toNat = m * 2 ^ 54 + 2 ^ 52 from rfl,
          round_of_one_more hlow hhigh]
        exact .finite hlow hhigh (by decide) (le_refl _)

/-! #### Packing and quotients -/

theorem pack_normal {hpos : 0 < mantissa} (hlog : mantissa.log2 = 52) (hexponent : (exponent + 1075).toNat + 1 < 2 ^ 11) :
    UnpackedFloat.pack Format.binary64 (.finite .positive mantissa exponent hpos) =
      packComponents Format.binary64 .positive (BitVec.ofNat 11 (exponent + 1075).toNat) (BitVec.ofNat 52 mantissa) := by
  have hbias : exponent + Format.binary64.exponentBias + Format.binary64.mantissaBitsWithoutImplicit = exponent + 1075 := by
    change exponent + 1023 + 52 = exponent + 1075
    omega
  rw [UnpackedFloat.pack, hbias]
  dsimp only
  rw [if_neg (Nat.not_le.2 hexponent), if_pos (show mantissa.log2 + 1 = Format.binary64.mantissaBits by rw [hlog]; rfl)]

theorem two_pow_le_one_append (mantissaBits : BitVec Format.binary64.mantissaBitsWithoutImplicit) :
    2 ^ 52 ≤ (1#1 ++ mantissaBits).toNat := by
  rw [BitVec.toNat_append]
  exact Nat.left_le_or

theorem unpack_normal {exponentBits : BitVec Format.binary64.exponentBits}
    {mantissaBits : BitVec Format.binary64.mantissaBitsWithoutImplicit} (hnumber : exponentBits ≠ -1#_)
    (hnormal : exponentBits ≠ 0#_) :
    UnpackedFloat.unpack Format.binary64 (packComponents Format.binary64 .positive exponentBits mantissaBits) =
      .finite .positive (1#1 ++ mantissaBits).toNat (exponentBits.toNat - 1075)
        (Nat.lt_of_lt_of_le (by decide) (two_pow_le_one_append mantissaBits)) := by
  rw [UnpackedFloat.unpack]
  dsimp only
  simp only [unpackSign_packComponents, unpackExponent_packComponents, unpackMantissa_packComponents]
  rw [if_neg hnumber, if_neg hnormal]
  rfl

theorem Moderate.pack (hmoderate : Moderate limit u) (hlimit : limit ≤ 900) :
    Moderate limit (Float.Model.pack u).unpack := by
  rw [unpack_pack]
  cases hmoderate with
  | @finite mantissa exponent hpos hlow hhigh hleast hmost =>
    have hlog : mantissa.log2 = 52 := log2_of_bounds 0 hlow hhigh
    have hbits : (BitVec.ofNat 11 (exponent + 1075).toNat).toNat = (exponent + 1075).toNat := by
      rw [BitVec.toNat_ofNat, Nat.mod_eq_of_lt (by omega)]
    rw [pack_normal hlog (by omega), unpack_normal]
    · rw [hbits]
      exact .finite (two_pow_le_one_append _) (BitVec.isLt _) (by omega) (by omega)
    · intro heq
      have hones := congrArg BitVec.toNat heq
      rw [hbits, show (-1#11).toNat = 2047 from rfl] at hones
      omega
    · intro heq
      have hnought := congrArg BitVec.toNat heq
      rw [hbits, show (0#11).toNat = 0 from rfl] at hnought
      omega

/-- A quotient of numbers from one up does not vanish. -/
theorem Moderate.div (hu : Moderate limit u) (hv : Moderate bound v) (hbound : bound ≤ 900) :
    Positive (UnpackedFloat.div Format.binary64 u v) := by
  cases hu with
  | @finite m e _ hmLow hmHigh heLeast heMost =>
    cases hv with
    | @finite n f hn hnLow hnHigh hfLeast hfMost =>
      have hm : m.log2 = 52 := log2_of_bounds 0 hmLow hmHigh
      have hn' : n.log2 = 52 := log2_of_bounds 0 hnLow hnHigh
      have htarget : min (e - f) (Format.binary64.targetExponent (totalExponent m e - totalExponent n f)) = e - f - 53 := by
        simp only [Format.targetExponent, totalExponent, Format.mantissaBits, Format.minExponent, hm, hn']
        omega
      have hplaces : (e - f - (e - f - 53)).toNat = 53 := by omega
      simp only [UnpackedFloat.div, divCore, htarget, hplaces]
      apply roundWithAccuracy_positive
      rw [Int.toNat_of_nonpos (by omega), Nat.shiftLeft_eq, Nat.pow_zero]
      apply Nat.div_pos _ hn
      omega

theorem Moderate.zero_div (hv : Moderate limit v) :
    UnpackedFloat.div Format.binary64 (.zero .positive) v = .zero .positive := by
  cases hv
  rfl

/-! #### Tallies -/

theorem not_weighty_zero : ¬Weighty (.zero .positive) := by
  rintro (hpositive | hnone)
  · cases hpositive
  · cases hnone

theorem unpack_natCast_one : ((1 : Nat) : Float).toModel.unpack = .finite .positive (2 ^ 52) (-52) (by decide) := by
  rfl

theorem tally_moderate {count : Nat} (hpos : 0 < count) : Moderate 2 (tally count : Float).toModel.unpack := by
  induction count with
  | zero => exact absurd hpos (Nat.lt_irrefl 0)
  | succ count ih =>
    have hone : (tally (count + 1) : Float) = tally count + ((1 : Nat) : Float) := rfl
    rw [hone, unpack_add, unpack_natCast_one]
    apply Moderate.pack _ (by decide)
    cases count with
    | zero => exact .finite (le_refl _) (by decide) (by decide) (by decide)
    | succ count => exact (ih (Nat.succ_pos count)).add_one

/-- Nought, or from one up to a power of two. -/
def Within (limit : Int) (x : Float) : Prop := x.toModel.unpack = .zero .positive ∨ Moderate limit x.toModel.unpack

variable {x y : Float}

theorem tally_within (count : Nat) : Within 2 (tally count) := by
  rcases Nat.eq_zero_or_pos count with rfl | hpos
  · exact .inl unpack_zero
  · exact .inr (tally_moderate hpos)

theorem Within.add (hx : Within limit x) (hy : Within 2 y) (hleast : 2 ≤ limit) (hlimit : limit ≤ 898) :
    Within (limit + 2) (x + y) := by
  rw [Within, unpack_add]
  rcases hx with hx | hx <;> rcases hy with hy | hy
  · rw [hx, hy]
    exact .inl unpack_zero
  · rw [hx, zero_add_of_weighty (.inl hy.positive)]
    exact .inr ((hy.pack (by omega)).mono (by omega))
  · rw [hy, add_zero_of_weighty (.inl hx.positive)]
    exact .inr ((hx.pack (by omega)).mono (by omega))
  · exact .inr ((hx.add (hy.mono hleast)).pack (by omega))

theorem foldl_within {row : List Float} {start : Float} (hrow : ∀ x ∈ row, Within 2 x) (hstart : Within limit start)
    (hleast : 2 ≤ limit) (hlimit : limit + 2 * row.length ≤ 900) :
    Within (limit + 2 * row.length) (row.foldl (· + ·) start) := by
  induction row generalizing start limit with
  | nil => simpa using hstart
  | cons x rest ih =>
    rw [List.forall_mem_cons] at hrow
    rw [List.length_cons] at hlimit ⊢
    have hnext := ih hrow.2 (hstart.add hrow.1 hleast (by omega)) (by omega) (by omega)
    have hsame : limit + 2 * ((rest.length + 1 : Nat) : Int) = limit + 2 + 2 * (rest.length : Int) := by omega
    rw [hsame]
    exact hnext

theorem sum_within {counts : List Nat} (hdozen : counts.length ≤ 12) : Within 26 (sum (counts.map tally)) := by
  have hrow : ∀ x ∈ counts.map (tally : Nat → Float), Within 2 x := by
    intro x hx
    obtain ⟨count, _, rfl⟩ := List.mem_map.1 hx
    exact tally_within count
  have hsum := foldl_within hrow (.inl unpack_zero) (le_refl 2) (by rw [List.length_map]; omega)
  rw [List.length_map] at hsum
  exact hsum.imp_right fun hmoderate => hmoderate.mono (by omega)

/-- A sum of tallies that are not all nought is no less than one, and does not overflow. -/
theorem sum_moderate {counts : List Nat} {count : Nat} (hdozen : counts.length ≤ 12) (hmem : count ∈ counts)
    (hpos : 0 < count) : Moderate 26 (sum (counts.map (tally : Nat → Float))).toModel.unpack := by
  have hweighty := not_le_zero_iff.1 (sum_tally_not_nonpos (W := Float) hmem hpos)
  refine (sum_within hdozen).resolve_left fun hzero => ?_
  rw [hzero] at hweighty
  exact not_weighty_zero hweighty

end Double

instance : SharingWeight Float where
  zero_nonpos := by decide
  zero_add_zero := rfl
  share_pos {counts count} hdozen hmem hpos := by
    have hpositive := (Double.tally_moderate hpos).div (Double.sum_moderate hdozen hmem hpos) (by decide)
    rw [Double.zero_lt_iff, Double.unpack_div]
    exact hpositive.pack
  share_nonpos {counts count} hdozen hmem hpos := by
    by_contra hnot
    rw [Double.not_le_zero_iff, Double.unpack_div, Double.unpack_zero, (Double.sum_moderate hdozen hmem hpos).zero_div] at hnot
    exact Double.not_weighty_zero hnot

end TurtleMusic.Number
