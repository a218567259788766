import TurtleMusic.Rhythm.Euclidean
import Mathlib.Algebra.Ring.Nat
import Mathlib.Data.List.Rotate
import Mathlib.Data.List.TakeWhile

/-!
# Pulse groups fill the grid

The pulse groups of a rhythm last as long as its grid has steps, whatever the numbers it was made for and however it was turned. Two facts carry this: turning only moves steps around, and a filling with a pulse in it is as long as the grid.
-/

namespace TurtleMusic

/-! ### Lengths of groups -/

namespace Pattern

/-- Every step belongs to the group of the pulse before it, but for the pauses that lead the pattern. -/
theorem sum_legato (pattern : Pattern) : pattern.legato.sum + (pattern.takeWhile (!·)).length = pattern.length := by
  induction pattern with
  | nil => rfl
  | cons pulse rest ih =>
    cases pulse with
    | true =>
      simp only [legato, List.sum_cons, List.takeWhile_cons, Bool.not_true, Bool.false_eq_true, if_false,
        List.length_nil, List.length_cons]
      omega
    | false =>
      simp only [legato, List.sum_cons, List.takeWhile_cons, Bool.not_false, if_true, List.length_cons]
      omega

theorem length_fromFirstPulse (pattern : Pattern) : pattern.fromFirstPulse.length = pattern.length := by
  rw [fromFirstPulse, List.length_append, Nat.add_comm, ← List.length_append, List.takeWhile_append_dropWhile]

/-- A pattern that has a pulse is led by one once its leading pauses are moved to the end. -/
theorem takeWhile_fromFirstPulse {pattern : Pattern} (hpulse : true ∈ pattern) :
    pattern.fromFirstPulse.takeWhile (!·) = [] := by
  rw [fromFirstPulse]
  cases hrest : pattern.dropWhile (!·) with
  | nil =>
    have hpause := List.dropWhile_eq_nil_iff.1 hrest true hpulse
    simp at hpause
  | cons first rest =>
    have hfirst := List.head_dropWhile_not (!·) (l := pattern) (by rw [hrest]; exact List.cons_ne_nil _ _)
    simp only [hrest, List.head_cons, Bool.not_eq_false'] at hfirst
    simp [hfirst]

theorem sum_legato_fromFirstPulse {pattern : Pattern} (hpulse : true ∈ pattern) :
    pattern.fromFirstPulse.legato.sum = pattern.length := by
  have hsum := sum_legato pattern.fromFirstPulse
  rw [takeWhile_fromFirstPulse hpulse, length_fromFirstPulse] at hsum
  exact hsum

end Pattern

/-! ### Fillings -/

namespace Bucket

theorem length_fill (rule : Rule) (steps : Nat) (countdown : Countdown) : (fill rule steps countdown).length = steps := by
  induction steps generalizing countdown with
  | zero => rfl
  | succ steps ih =>
    rw [fill]
    split <;> rw [List.length_cons, ih]

/-- A filling starts with a pulse, and with a pause behind it if every pulse gets one. -/
theorem fill_start {rule : Rule} {steps leftOver : Nat} {wait skips : Int} (hpauses : 0 < rule.perPulse) :
    ∃ rest, fill rule (steps + 2) ⟨0, leftOver, wait, skips⟩ = true :: false :: rest := by
  obtain ⟨pauses, hopen⟩ : ∃ pauses, (openGroup rule ⟨0, leftOver, wait, skips⟩).pauses = pauses + 1 := by
    rw [openGroup]
    split
    · exact ⟨rule.perPulse, rfl⟩
    · exact ⟨rule.perPulse - 1, by simp only []; omega⟩
  rw [fill, fill]
  dsimp only
  rw [hopen]
  exact ⟨_, rfl⟩

theorem length_sparse (pulses pauses : Nat) : (sparse pulses pauses).length = pulses + pauses :=
  length_fill _ _ _

/-- Pauses that equal or outnumber the pulses leave room for a pulse and for a pause. -/
theorem sparse_start {pulses pauses : Nat} (hpos : 0 < pulses) (hpauses : pulses ≤ pauses) :
    ∃ rest, sparse pulses pauses = true :: false :: rest := by
  have hper : 0 < pauses / pulses := Nat.div_pos hpauses hpos
  have hsteps : pulses + pauses = (pulses + pauses - 2) + 2 := by omega
  rw [sparse, hsteps]
  exact fill_start hper

theorem length_spread {pulses steps : Nat} (hle : pulses ≤ steps) : (spread pulses steps).length = steps := by
  rw [spread]
  split
  · exact List.length_replicate
  · split
    · exact List.length_replicate
    · split
      · rw [List.length_map, length_sparse]
        omega
      · rw [length_sparse]
        omega

/-- Where pulses are asked for there is one. -/
theorem true_mem_spread {pulses steps : Nat} (hpos : 0 < pulses) (hle : pulses ≤ steps) : true ∈ spread pulses steps := by
  rw [spread, if_neg (Nat.ne_of_gt hpos)]
  split
  · next hfull => exact List.mem_replicate.2 ⟨by omega, rfl⟩
  · split
    · have hpauses : 0 < steps - pulses := by omega
      have hfew : steps - pulses ≤ pulses := by omega
      obtain ⟨rest, hrest⟩ := sparse_start hpauses hfew
      simp [hrest]
    · have hmany : pulses ≤ steps - pulses := by omega
      obtain ⟨rest, hrest⟩ := sparse_start hpos hmany
      simp [hrest]

end Bucket

/-! ### Rhythms -/

namespace EuclideanRhythm

theorem turnedGroup_isRotated (pattern : Pattern) : pattern ~r turnedGroup pattern := by
  refine ⟨lastPulse pattern, List.rotate_eq_drop_append_take ?_⟩
  rw [lastPulse, Nat.sub_sub]
  exact Nat.sub_le _ _

theorem repeat_turnedGroup_isRotated (count : Nat) (pattern : Pattern) :
    pattern ~r Nat.repeat turnedGroup count pattern := by
  induction count with
  | zero => exact List.IsRotated.refl pattern
  | succ count ih => exact ih.trans (turnedGroup_isRotated _)

theorem seek_isRotated (target : String) (turns : Nat) (pattern : Pattern) : pattern ~r (seek target turns pattern).2 := by
  induction turns generalizing pattern with
  | zero => exact List.IsRotated.refl pattern
  | succ turns ih =>
    rw [seek]
    split
    · exact List.IsRotated.refl pattern
    · exact (turnedGroup_isRotated pattern).trans (ih _)

theorem rotateGroups_isRotated (rhythm : EuclideanRhythm) (count : Int) :
    rhythm.pattern ~r (rhythm.rotateGroups count).pattern := by
  rw [rotateGroups]
  split
  · exact List.IsRotated.refl _
  · exact repeat_turnedGroup_isRotated _ _

theorem rotateGroups_pulses (rhythm : EuclideanRhythm) (count : Int) : (rhythm.rotateGroups count).pulses = rhythm.pulses := by
  rw [rotateGroups]
  split <;> rfl

theorem make_isRotated (pulses steps : Int) : bucketFill pulses steps ~r (make pulses steps).pattern :=
  seek_isRotated _ _ _

theorem clampedPulses_le (pulses steps : Int) : clampedPulses pulses (max 0 steps) ≤ steps.toNat := by
  simp only [clampedPulses]
  omega

/-- The groups of a rhythm with pulses last as long as its pattern. -/
theorem sum_durations {rhythm : EuclideanRhythm} (hpulses : 0 < rhythm.pulses) (hpulse : true ∈ rhythm.pattern) :
    rhythm.durations.sum = rhythm.pattern.length := by
  have hfilter : ∀ durations : List Nat, (durations.filter (· ≠ 0)).sum = durations.sum := by
    intro durations
    induction durations with
    | nil => rfl
    | cons duration rest ih =>
      by_cases hzero : duration = 0 <;> simp_all
  rw [durations, if_neg (Nat.ne_of_gt hpulses), hfilter, Pattern.sum_legato_fromFirstPulse hpulse]

/-- Turned by any number of groups, a rhythm that has pulses lasts as long as its grid. -/
theorem sum_durations_make {pulses steps : Int} (hpulses : 0 < (make pulses steps).pulses) (turns : Int) :
    ((make pulses steps).rotateGroups turns).durations.sum = steps.toNat := by
  have hperm := ((make_isRotated pulses steps).trans (rotateGroups_isRotated _ turns)).symm.perm
  have hle := clampedPulses_le pulses steps
  rw [sum_durations, hperm.length_eq]
  · exact Bucket.length_spread hle
  · rwa [rotateGroups_pulses]
  · exact hperm.mem_iff.2 (Bucket.true_mem_spread hpulses hle)

end EuclideanRhythm

end TurtleMusic
