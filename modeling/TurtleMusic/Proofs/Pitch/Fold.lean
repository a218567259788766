import TurtleMusic.Pitch.Fold
import Mathlib.Tactic.Common

/-!
# What folding keeps

A folded pitch lies in the range and has kept its pitch class, whichever way it was folded. A range that spans an octave refuses no pitch, and a narrower one refuses every pitch. Of the octaves in the range wrapping takes the one farthest from where the pitch was, and clamping the nearest.
-/

namespace TurtleMusic.Pitch

variable {low high : Int}

theorem needsOctave_eq_ok (hspan : 11 ≤ high - low) : needsOctave low high = .ok () :=
  if_neg (by omega)

/-- Work on a range fails just if the range is too narrow. -/
theorem map_needsOctave_eq_error_iff (low high : Int) (fold : Unit → Int) (fault : Fault) :
    (needsOctave low high).map fold = .error fault ↔ high - low < 11 ∧ fault = .narrowRange low high := by
  rw [needsOctave]
  by_cases hnarrow : high - low < 11
  · rw [if_pos hnarrow, Except.map, Except.error.injEq, eq_comm]
    exact (and_iff_right hnarrow).symm
  · rw [if_neg hnarrow]
    exact iff_of_false (fun hok => nomatch hok) fun hrefused => hnarrow hrefused.1

/-! ### Wrapping -/

theorem wrapInto_mem (hspan : 11 ≤ high - low) (pitch : Int) :
    low ≤ wrapInto low high pitch ∧ wrapInto low high pitch ≤ high := by
  rw [wrapInto]
  split
  · omega
  · split <;> omega

theorem wrapInto_emod (low high pitch : Int) : wrapInto low high pitch % 12 = pitch % 12 := by
  rw [wrapInto]
  split
  · omega
  · split <;> omega

theorem wrapInto_of_mem {pitch : Int} (hlow : low ≤ pitch) (hhigh : pitch ≤ high) : wrapInto low high pitch = pitch := by
  rw [wrapInto, if_neg (Int.not_lt.2 hhigh), if_neg (Int.not_lt.2 hlow)]

/-- A pitch above the range wraps to the lowest octave of it. -/
theorem wrapInto_lt {pitch : Int} (habove : high < pitch) : wrapInto low high pitch < low + 12 := by
  rw [wrapInto, if_pos habove]
  omega

/-- A pitch below the range wraps to the highest octave of it. -/
theorem lt_wrapInto {pitch : Int} (hbelow : pitch < low) (hhigh : pitch ≤ high) : high - 12 < wrapInto low high pitch := by
  rw [wrapInto, if_neg (Int.not_lt.2 hhigh), if_pos hbelow]
  omega

theorem wrap_eq_ok (hspan : 11 ≤ high - low) (pitch : Int) : wrap pitch low high = .ok (wrapInto low high pitch) := by
  rw [wrap, needsOctave_eq_ok hspan]
  rfl

/-! ### Clamping -/

theorem dropTo_le (high pitch : Int) : dropTo high pitch ≤ high := by
  fun_induction dropTo high pitch with
  | case1 pitch _ ih => exact ih
  | case2 pitch hle => exact Int.not_lt.1 hle

/-- Dropping stops at the first octave that is low enough. -/
theorem lt_dropTo (high pitch : Int) : min (high - 12) (pitch - 1) < dropTo high pitch := by
  fun_induction dropTo high pitch with
  | case1 pitch _ ih => omega
  | case2 pitch _ => omega

theorem dropTo_emod (high pitch : Int) : dropTo high pitch % 12 = pitch % 12 := by
  fun_induction dropTo high pitch with
  | case1 pitch _ ih => omega
  | case2 pitch _ => rfl

theorem le_riseTo (low pitch : Int) : low ≤ riseTo low pitch := by
  fun_induction riseTo low pitch with
  | case1 pitch _ ih => exact ih
  | case2 pitch hle => exact Int.not_lt.1 hle

/-- Rising stops at the first octave that is high enough. -/
theorem riseTo_lt (low pitch : Int) : riseTo low pitch < max (low + 12) (pitch + 1) := by
  fun_induction riseTo low pitch with
  | case1 pitch _ ih => omega
  | case2 pitch _ => omega

theorem riseTo_emod (low pitch : Int) : riseTo low pitch % 12 = pitch % 12 := by
  fun_induction riseTo low pitch with
  | case1 pitch _ ih => omega
  | case2 pitch _ => rfl

theorem clampInto_mem (hspan : 11 ≤ high - low) (pitch : Int) :
    low ≤ clampInto low high pitch ∧ clampInto low high pitch ≤ high := by
  have hdropped := dropTo_le high pitch
  have hrisen := riseTo_lt low (dropTo high pitch)
  refine ⟨le_riseTo low _, ?_⟩
  rw [clampInto]
  omega

theorem clampInto_emod (low high pitch : Int) : clampInto low high pitch % 12 = pitch % 12 := by
  rw [clampInto, riseTo_emod, dropTo_emod]

theorem clampInto_of_mem {pitch : Int} (hlow : low ≤ pitch) (hhigh : pitch ≤ high) : clampInto low high pitch = pitch := by
  rw [clampInto, dropTo, if_neg (Int.not_lt.2 hhigh), riseTo, if_neg (Int.not_lt.2 hlow)]

/-- A pitch above the range comes down into the highest octave of it. -/
theorem lt_clampInto (hspan : 11 ≤ high - low) {pitch : Int} (habove : high < pitch) :
    high - 12 < clampInto low high pitch := by
  have hdropped := lt_dropTo high pitch
  -- An octave fits into the range, so the pitch does not drop out of it and nothing is left to rise.
  rw [clampInto, riseTo, if_neg (by omega)]
  omega

/-- A pitch below the range comes up into the lowest octave of it. -/
theorem clampInto_lt {pitch : Int} (hbelow : pitch < low) (hhigh : pitch ≤ high) : clampInto low high pitch < low + 12 := by
  have hrisen := riseTo_lt low pitch
  rw [clampInto, dropTo, if_neg (Int.not_lt.2 hhigh)]
  omega

theorem clamp_eq_ok (hspan : 11 ≤ high - low) (pitch : Int) :
    clamp pitch low high = .ok (clampInto low high pitch) := by
  rw [clamp, needsOctave_eq_ok hspan]
  rfl

/-! ### Both ways beside each other -/

/-- What both ways of folding promise. -/
structure Folded (low high pitch folded : Int) : Prop where
  low_le : low ≤ folded
  le_high : folded ≤ high
  emod : folded % 12 = pitch % 12
  of_mem (hlow : low ≤ pitch) (hhigh : pitch ≤ high) : folded = pitch

theorem wrapInto_folded (hspan : 11 ≤ high - low) (pitch : Int) : Folded low high pitch (wrapInto low high pitch) where
  low_le := (wrapInto_mem hspan pitch).1
  le_high := (wrapInto_mem hspan pitch).2
  emod := wrapInto_emod low high pitch
  of_mem := wrapInto_of_mem

theorem clampInto_folded (hspan : 11 ≤ high - low) (pitch : Int) : Folded low high pitch (clampInto low high pitch) where
  low_le := (clampInto_mem hspan pitch).1
  le_high := (clampInto_mem hspan pitch).2
  emod := clampInto_emod low high pitch
  of_mem := clampInto_of_mem

/-- Wrapping goes to the far end of the range and clamping to the near one, and no other pitch of the class in the range lies beyond them, so that clamping moves a pitch no farther than it has to. -/
theorem fold_to_ends (pitch low high : Int) :
    (∀ fault, wrap pitch low high = .error fault ↔ high - low < 11 ∧ fault = .narrowRange low high) ∧
    (∀ fault, clamp pitch low high = .error fault ↔ high - low < 11 ∧ fault = .narrowRange low high) ∧
    (Fault.narrowRange low high).kind = .value ∧
    (11 ≤ high - low → ∃ wrapped clamped, wrap pitch low high = .ok wrapped ∧ clamp pitch low high = .ok clamped ∧
      Folded low high pitch wrapped ∧ Folded low high pitch clamped ∧
      (high < pitch → wrapped - 12 < low ∧ high < clamped + 12) ∧ (pitch < low → high < wrapped + 12 ∧ clamped - 12 < low) ∧
      ∀ other, low ≤ other → other ≤ high → other % 12 = pitch % 12 →
        (high < pitch → wrapped ≤ other ∧ other ≤ clamped) ∧ (pitch < low → clamped ≤ other ∧ other ≤ wrapped) ∧
        (clamped - pitch).natAbs ≤ (other - pitch).natAbs) := by
  refine ⟨map_needsOctave_eq_error_iff low high _, map_needsOctave_eq_error_iff low high _, rfl, fun hspan => ?_⟩
  have hwrapped := wrapInto_folded hspan pitch
  have hclamped := clampInto_folded hspan pitch
  have hover : high < pitch → wrapInto low high pitch < low + 12 ∧ high - 12 < clampInto low high pitch :=
    fun habove => ⟨wrapInto_lt habove, lt_clampInto hspan habove⟩
  have hunder : pitch < low → high - 12 < wrapInto low high pitch ∧ clampInto low high pitch < low + 12 :=
    fun hbelow => ⟨lt_wrapInto hbelow (by omega), clampInto_lt hbelow (by omega)⟩
  refine ⟨_, _, wrap_eq_ok hspan pitch, clamp_eq_ok hspan pitch, hwrapped, hclamped, by omega, by omega, ?_⟩
  -- Within less than an octave of an end of the range there is no second pitch of the class.
  intro other hlow hhigh hclass
  obtain ⟨hwrappedLow, hwrappedHigh, hwrappedClass, -⟩ := hwrapped
  obtain ⟨hclampedLow, hclampedHigh, hclampedClass, hkept⟩ := hclamped
  exact ⟨by omega, by omega, by omega⟩

/-- Above two octaves a pitch goes to the lower one or to the upper one; a range of ten half steps is refused. -/
theorem fold_to_ends_two_octaves : (11 : Int) ≤ 83 - 60 ∧ wrap 90 60 83 = .ok 66 ∧ clamp 90 60 83 = .ok 78 ∧
    wrap 90 60 70 = .error (.narrowRange 60 70) := by
  have hspan : (11 : Int) ≤ 83 - 60 := by decide
  obtain ⟨wrapped, clamped, hwrap, hclamp, hwrapped, hclamped, hover, -⟩ := (fold_to_ends 90 60 83).2.2.2 hspan
  obtain ⟨hlowest, hhighest⟩ := hover (by decide)
  have hlow : wrapped = 66 := by
    obtain ⟨hin, -, hclass, -⟩ := hwrapped
    omega
  have hhigh : clamped = 78 := by
    obtain ⟨-, hin, hclass, -⟩ := hclamped
    omega
  subst hlow hhigh
  exact ⟨hspan, hwrap, hclamp, ((fold_to_ends 90 60 70).1 _).2 ⟨by decide, rfl⟩⟩

/-! ### The nearest pitch of a class -/

theorem nearestUnbounded_emod (reference pitchClass : Int) (high : Option Int) :
    nearestUnbounded reference pitchClass high % 12 = pitchClass % 12 := by
  simp only [nearestUnbounded]
  split
  · omega
  · split
    · omega
    · split <;> omega

theorem nearest_eq_ok (hspan : 11 ≤ high - low) (reference pitchClass : Int) :
    nearest reference pitchClass (some low) (some high) =
      .ok (clampInto low high (nearestUnbounded reference pitchClass (some high))) :=
  clamp_eq_ok hspan _

end TurtleMusic.Pitch
