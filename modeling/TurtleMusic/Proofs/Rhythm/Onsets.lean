import TurtleMusic.Proofs.Rhythm.Seeking

/-!
# Turns told by onsets

Turns by steps add up as their counts do, and only the remainder of a count by the length of the pattern matters. Turns by groups are such turns as well: a number of them lead the pattern with one of its pulses, the one counted back from the first as often as there were turns. So what a rhythm has become is read off its onsets, without making the turns one after the other.
-/

namespace TurtleMusic

open Pattern

namespace Pattern

/-! ### Onsets -/

theorem onsetsFrom_append (position : Nat) (left right : Pattern) :
    onsetsFrom position (left ++ right) = onsetsFrom position left ++ onsetsFrom (position + left.length) right := by
  induction left generalizing position with
  | nil => rfl
  | cons pulse rest ih =>
    rw [List.length_cons, Nat.add_comm rest.length, ← Nat.add_assoc]
    cases pulse with
    | true => rw [List.cons_append, onsetsFrom, onsetsFrom, ih, List.cons_append]
    | false => rw [List.cons_append, onsetsFrom, onsetsFrom, ih]

theorem length_onsetsFrom (position : Nat) (pattern : Pattern) :
    (onsetsFrom position pattern).length = pattern.count true := by
  induction pattern generalizing position with
  | nil => rfl
  | cons pulse rest ih =>
    cases pulse with
    | true => rw [onsetsFrom, List.length_cons, ih, List.count_cons_self]
    | false => rw [onsetsFrom, ih, List.count_cons_of_ne (by decide)]

theorem length_onsets (pattern : Pattern) : pattern.onsets.length = pattern.count true := length_onsetsFrom 0 pattern

theorem mem_onsetsFrom {position onset : Nat} {pattern : Pattern} :
    onset ∈ onsetsFrom position pattern ↔ ∃ step : Nat, pattern[step]? = some true ∧ onset = position + step := by
  induction pattern generalizing position with
  | nil => simp [onsetsFrom]
  | cons pulse rest ih =>
    have hlater : onset ∈ onsetsFrom (position + 1) rest ↔
        ∃ step : Nat, (pulse :: rest)[step + 1]? = some true ∧ onset = position + (step + 1) := by
      simp only [ih, List.getElem?_cons_succ, Nat.add_assoc, Nat.add_comm 1]
    rw [← Nat.or_exists_add_one]
    cases pulse with
    | true => simp [onsetsFrom, hlater]
    | false => simp [onsetsFrom, hlater]

/-- The onsets are the places of the pulses. -/
theorem mem_onsets {pattern : Pattern} {onset : Nat} : onset ∈ pattern.onsets ↔ pattern[onset]? = some true := by
  simp [onsets, mem_onsetsFrom]

theorem pairwise_onsetsFrom (position : Nat) (pattern : Pattern) : (onsetsFrom position pattern).Pairwise (· < ·) := by
  induction pattern generalizing position with
  | nil => exact List.Pairwise.nil
  | cons pulse rest ih =>
    cases pulse with
    | true =>
      refine List.pairwise_cons.2 ⟨fun onset honset => ?_, ih _⟩
      obtain ⟨step, _, rfl⟩ := mem_onsetsFrom.1 honset
      omega
    | false => exact ih _

/-- Read from one of its onsets on, a round is made of its groups, beginning with the group of that onset. -/
theorem Round.rotate_onset {pattern : Pattern} {groups : List Nat} (hround : Round pattern groups) {place : Nat}
    (hplace : place < groups.length) :
    ∃ onset, pattern.onsets[place]? = some onset ∧ pattern.rotate onset = ofGroups (groups.rotate place) := by
  obtain ⟨lead, front, last, rfl, rfl⟩ := hround
  -- The onset stands behind the leading pauses and the groups before its own.
  rw [List.length_append, List.length_singleton] at hplace
  obtain ⟨before, behind, rfl, rfl⟩ : ∃ before behind, front = before ++ behind ∧ before.length = place :=
    ⟨front.take place, front.drop place, (List.take_append_drop _ _).symm, List.length_take_of_le (by omega)⟩
  have hpattern : List.replicate lead false ++ ofGroups (before ++ behind ++ [last]) =
      (List.replicate lead false ++ ofGroups before) ++ ofGroups (behind ++ [last]) := by
    rw [List.append_assoc before, ofGroups_append, List.append_assoc]
  have hbefore : (onsetsFrom 0 (List.replicate lead false ++ ofGroups before)).length = before.length := by
    rw [length_onsetsFrom, List.count_append, count_ofGroups, List.count_replicate]
    simp
  have hgroups : before ++ behind ++ [last + lead] = before ++ (behind ++ [last + lead]) := List.append_assoc _ _ _
  refine ⟨(List.replicate lead false ++ ofGroups before).length, ?_, ?_⟩
  · obtain ⟨rest, honsets, _⟩ :=
      distances_ofGroups (0 + (List.replicate lead false ++ ofGroups before).length) lead last behind
    rw [hpattern, onsets, onsetsFrom_append, honsets, List.getElem?_append_right hbefore.le, hbefore, Nat.sub_self,
      List.getElem?_cons_zero, Nat.zero_add]
  · rw [hpattern, List.rotate_append_length_eq, hgroups, List.rotate_append_length_eq,
      ofGroups_append (behind ++ [last + lead]), ← ofGroups_concat_pauses, List.append_assoc]

end Pattern

namespace EuclideanRhythm

/-! ### Turning by steps -/

/-- A turn to the right is a turn to the left by a number that makes whole rounds of it. -/
theorem turnedSteps_eq_rotate {pattern : Pattern} {count : Int} {left : Nat}
    (hround : (pattern.length : Int) ∣ left + count) : turnedSteps pattern count = pattern.rotate left := by
  rcases pattern.eq_nil_or_concat with rfl | hsome
  · simp [turnedSteps]
  · have hlength : (0 : Int) < pattern.length := by
      obtain ⟨front, last, rfl⟩ := hsome
      simp
    have hless := Int.emod_lt_of_pos count hlength
    have hnonneg := Int.emod_nonneg count hlength.ne'
    rw [turnedSteps, ← List.rotate_eq_drop_append_take (Nat.sub_le _ _)]
    apply rotate_eq_of_modEq
    rw [Nat.modEq_iff_dvd]
    have hkept : (left : Int) - ((pattern.length - (count % pattern.length).toNat : Nat) : Int) =
        left + count - pattern.length * (count / pattern.length + 1) := by
      have hdivision := Int.emod_add_mul_ediv count pattern.length
      rw [Int.mul_add, Int.mul_one]
      omega
    rw [hkept]
    exact Int.dvd_sub hround (Int.dvd_mul_right _ _)

/-- For every turn to the right there is one to the left. -/
theorem exists_left {length : Nat} (hlength : 0 < length) (count : Int) : ∃ left : Nat, (length : Int) ∣ left + count := by
  refine ⟨(-count % length).toNat, ?_⟩
  rw [Int.toNat_of_nonneg (Int.emod_nonneg _ (by omega)), Int.emod_def]
  exact ⟨-(-count / length), by ring⟩

theorem turnedSteps_add (pattern : Pattern) (first second : Int) :
    turnedSteps (turnedSteps pattern first) second = turnedSteps pattern (first + second) := by
  rcases Nat.eq_zero_or_pos pattern.length with hnone | hsome
  · rw [List.length_eq_zero_iff.1 hnone]
    simp [turnedSteps]
  · obtain ⟨left, hleft⟩ := exists_left hsome first
    obtain ⟨further, hfurther⟩ := exists_left hsome second
    have hboth : (pattern.length : Int) ∣ ((left + further : Nat) : Int) + (first + second) := by
      have hsum := Int.dvd_add hleft hfurther
      rwa [show ((left + further : Nat) : Int) + (first + second) = left + first + (further + second) by push_cast; ring]
    rw [turnedSteps_eq_rotate hleft, turnedSteps_eq_rotate (by rwa [List.length_rotate]), List.rotate_rotate,
      turnedSteps_eq_rotate hboth]

theorem turnedSteps_rounds (pattern : Pattern) (rounds : Int) : turnedSteps pattern (rounds * pattern.length) = pattern := by
  have hround : (pattern.length : Int) ∣ (0 : Nat) + rounds * pattern.length := by
    rw [Int.natCast_zero, Int.zero_add]
    exact Int.dvd_mul_left _ _
  rw [turnedSteps_eq_rotate hround, List.rotate_zero]

/-! ### Turning by groups -/

section Filled

variable {rhythm : EuclideanRhythm} (hfilled : rhythm.Filled)
include hfilled

theorem Filled.length_onsets : rhythm.onsets.length = rhythm.pulses :=
  (Pattern.length_onsets rhythm.pattern).trans hfilled.count_eq

/-- Turned by groups, a rhythm is read from the onset that the turns count back to. -/
theorem Filled.rotateGroups_eq (hpulses : 0 < rhythm.pulses) {turns : Int} (hturns : 0 < turns) :
    ∃ onset, rhythm.onsets[(-turns % rhythm.pulses).toNat]? = some onset ∧
      rhythm.rotateGroups turns = { rhythm with pattern := rhythm.pattern.rotate onset } ∧
      (rhythm.rotateGroups turns).pattern.head? = some true := by
  obtain ⟨_, groups, hround, hlength, _⟩ := hfilled.exists_round hpulses
  have hnonneg := Int.emod_nonneg (-turns) (show (rhythm.pulses : Int) ≠ 0 by omega)
  have hless := Int.emod_lt_of_pos (-turns) (show (0 : Int) < rhythm.pulses by omega)
  obtain ⟨onset, honset, hrotated⟩ := hround.rotate_onset (show (-turns % rhythm.pulses).toNat < groups.length by omega)
  have hmissing : groups.length ∣ (-turns % rhythm.pulses).toNat + turns.toNat := by
    rw [hlength, ← Int.natCast_dvd_natCast, Int.natCast_add, Int.toNat_of_nonneg hnonneg, Int.toNat_of_nonneg hturns.le,
      Int.emod_def]
    exact ⟨-(-turns / rhythm.pulses), by ring⟩
  have hturned : rhythm.rotateGroups turns = { rhythm with pattern := rhythm.pattern.rotate onset } := by
    rw [rotateGroups, if_neg hpulses.ne', repeat_turnedGroup_of_round hround (by omega) hmissing, hrotated]
  refine ⟨onset, honset, hturned, ?_⟩
  rw [hturned, hrotated]
  exact head_ofGroups fun hnil => hround.ne_nil (List.rotate_eq_nil_iff.1 hnil)

/-- On a rhythm that starts on a pulse, as many turns more as there are pulses make no difference. -/
theorem Filled.rotateGroups_add_pulses (hhead : rhythm.pattern.head? = some true) {turns : Int} (hturns : 0 ≤ turns) :
    rhythm.rotateGroups (turns + rhythm.pulses) = rhythm.rotateGroups turns := by
  have hpulses : 0 < rhythm.pulses := by
    rw [← hfilled.count_eq]
    exact List.count_pos_iff.2 (List.mem_of_mem_head? hhead)
  rcases Int.lt_or_eq_of_le hturns with hpos | rfl
  · obtain ⟨onset, honset, hturned, _⟩ := hfilled.rotateGroups_eq hpulses hpos
    obtain ⟨other, hother, hlater, _⟩ := hfilled.rotateGroups_eq hpulses (show 0 < turns + rhythm.pulses by omega)
    have hplace : -(turns + rhythm.pulses) % rhythm.pulses = -turns % rhythm.pulses := by
      rw [Int.neg_add, ← Int.sub_eq_add_neg, Int.sub_emod_right]
    rw [hplace, honset] at hother
    cases hother
    rw [hturned, hlater]
  · obtain ⟨_, groups, hround, hlength, _⟩ := hfilled.exists_round hpulses
    rw [rotateGroups, rotateGroups, if_neg hpulses.ne', if_neg hpulses.ne', Int.zero_add, Int.toNat_natCast, ← hlength,
      repeat_turnedGroup_length hround, ← hround.eq_ofGroups hhead]
    rfl

end Filled

theorem rotateGroups_of_nonpos (rhythm : EuclideanRhythm) {turns : Int} (hturns : turns ≤ 0) :
    rhythm.rotateGroups turns = rhythm := by
  rw [rotateGroups, Int.toNat_of_nonpos hturns, Nat.repeat, ite_self]

/-- However a rhythm was made and turned, turns by steps add up, whole rounds of them change nothing, and those with a minus go to the left. Turned by groups once or more, a rhythm with pulses is read from one of its onsets on, which is told by the remainder of the turns by the number of pulses; so it starts on a pulse, and if it did so before, as many turns more as it has pulses make no difference. Without pulses, and for no turns, nothing changes. -/
theorem turns_told_by_onsets {pulses steps : Int} {given : Option String} {made : EuclideanRhythm × List Report}
    (hmade : makeAs pulses steps given = .ok made) (turns : List Turn) :
    let rhythm := made.1.afterTurns turns
    let onsets := rhythm.onsets
    (∀ first second : Int, (rhythm.rotateSteps first).rotateSteps second = rhythm.rotateSteps (first + second)) ∧
    (∀ rounds : Int, rhythm.rotateSteps (rounds * rhythm.pattern.length) = rhythm) ∧
    (∀ count : Nat, rhythm.rotateSteps (-count) = { rhythm with pattern := rhythm.pattern.rotate count }) ∧
    (onsets.Pairwise (· < ·) ∧ ∀ onset, onset ∈ onsets ↔ rhythm.pattern[onset]? = some true) ∧
    (∀ count : Int, 1 ≤ count → onsets ≠ [] →
      ∃ onset, onsets[(-count % onsets.length).toNat]? = some onset ∧
        rhythm.rotateGroups count = { rhythm with pattern := rhythm.pattern.rotate onset } ∧
        (rhythm.rotateGroups count).pattern.head? = some true) ∧
    (∀ count : Int, 0 ≤ count → rhythm.pattern.head? = some true →
      rhythm.rotateGroups (count + onsets.length) = rhythm.rotateGroups count) ∧
    (∀ count : Int, onsets = [] ∨ count ≤ 0 → rhythm.rotateGroups count = rhythm) := by
  intro rhythm onsets
  have hfilled : rhythm.Filled := (makeAs_filled hmade).turn (afterTurns_isTurnOf _ _)
  have hlength : onsets.length = rhythm.pulses := hfilled.length_onsets
  refine ⟨fun first second => ?_, fun rounds => ?_, fun count => ?_, ⟨pairwise_onsetsFrom 0 _, fun onset => mem_onsets⟩,
    fun count hcount hsome => ?_, fun count hcount hhead => ?_, fun count hnone => ?_⟩
  · rw [rotateSteps, rotateSteps, rotateSteps, turnedSteps_add]
  · rw [rotateSteps, turnedSteps_rounds]
  · have hround : (rhythm.pattern.length : Int) ∣ count + -count := by
      rw [Int.add_right_neg]
      exact Int.dvd_zero _
    rw [rotateSteps, turnedSteps_eq_rotate hround]
  · rw [hlength]
    exact hfilled.rotateGroups_eq (hlength ▸ List.length_pos_iff.2 hsome) hcount
  · rw [hlength]
    exact hfilled.rotateGroups_add_pulses hhead hcount
  · rcases hnone with hnone | hcount
    · rw [rotateGroups, if_pos (by rw [← hlength, hnone, List.length_nil])]
    · exact rhythm.rotateGroups_of_nonpos hcount

/-- A rhythm that starts on a pause, led by its last pulse after one turn and by its second after five. -/
theorem turns_told_by_onsets_tresillo :
    makeAs 3 8 none = .ok (make 3 8, []) ∧
      let rhythm := (make 3 8).afterTurns [.bySteps 1]
      rhythm.onsets = [1, 4, 7] ∧ rhythm.rotateGroups 1 = { rhythm with pattern := rhythm.pattern.rotate 7 } ∧
        rhythm.rotateGroups 5 = { rhythm with pattern := rhythm.pattern.rotate 4 } := by
  have hmade : makeAs 3 8 none = .ok (make 3 8, []) := rfl
  refine ⟨hmade, ?_⟩
  intro rhythm
  have honsets : rhythm.onsets = [1, 4, 7] := by cbv
  obtain ⟨_, _, _, _, hturned, _⟩ := turns_told_by_onsets hmade [.bySteps 1]
  have hsome : rhythm.onsets ≠ [] := by simp [honsets]
  refine ⟨honsets, ?_, ?_⟩
  · obtain ⟨onset, honset, hfirst, _⟩ := hturned 1 (by decide) hsome
    rw [honsets] at honset
    cases honset
    exact hfirst
  · obtain ⟨onset, honset, hfifth, _⟩ := hturned 5 (by decide) hsome
    rw [honsets] at honset
    cases honset
    exact hfifth

end EuclideanRhythm

end TurtleMusic
