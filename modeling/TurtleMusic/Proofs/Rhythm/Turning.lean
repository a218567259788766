import TurtleMusic.Proofs.Outcome
import TurtleMusic.Proofs.Rhythm.Filling

/-!
# Rhythms however they are turned

Every call on a rhythm turns its pattern and leaves the number of its pulses alone, whether the call finds what it looks for, fails to find it or refuses what it is given. So a rhythm keeps all its life what its filling has: the number of its pulses, and gaps that differ by at most one.
-/

namespace TurtleMusic.EuclideanRhythm

/-! ### Calls -/

/-- What can be called on a rhythm. -/
inductive Turn where
  | bySteps (count : Int)
  | byGroups (count : Int)
  | toward (expected : String)
  deriving DecidableEq, Repr

/-- What the call does to a rhythm, step by step. -/
def Turn.act : Turn → Act EuclideanRhythm Unit
  | bySteps count => modify (·.rotateSteps count)
  | byGroups count => modify (·.rotateGroups count)
  | toward expected => do let _ ← seekText expected

/-- The rhythm that a call leaves behind. -/
def turn (rhythm : EuclideanRhythm) (call : Turn) : EuclideanRhythm := (call.act.outcome rhythm).state

/-- The rhythm after some calls, the first one first. -/
def afterTurns (rhythm : EuclideanRhythm) (turns : List Turn) : EuclideanRhythm := turns.foldl turn rhythm

/-- One rhythm is a turn of the other: the same grid and pulses, and a pattern that is read from another step on. -/
structure IsTurnOf (turned rhythm : EuclideanRhythm) : Prop where
  steps : turned.steps = rhythm.steps
  pulses : turned.pulses = rhythm.pulses
  pattern : rhythm.pattern ~r turned.pattern

theorem IsTurnOf.refl (rhythm : EuclideanRhythm) : IsTurnOf rhythm rhythm := ⟨rfl, rfl, List.IsRotated.refl _⟩

theorem IsTurnOf.trans {first second third : EuclideanRhythm} (hlater : IsTurnOf third second)
    (hearlier : IsTurnOf second first) : IsTurnOf third first :=
  ⟨hlater.steps.trans hearlier.steps, hlater.pulses.trans hearlier.pulses, hearlier.pattern.trans hlater.pattern⟩

/-! ### What a call does to the pattern -/

theorem turnedSteps_isRotated (pattern : Pattern) (count : Int) : pattern ~r turnedSteps pattern count :=
  ⟨_, List.rotate_eq_drop_append_take (Nat.sub_le _ _)⟩

theorem turnTo_isTurnOf (rhythm : EuclideanRhythm) (target : String) : IsTurnOf (rhythm.turnTo target).2 rhythm :=
  ⟨rfl, rfl, seek_isRotated _ _ _⟩

theorem turn_of_match {rhythm turned : EuclideanRhythm} {expected : String} {found : Bool} {told : List Report}
    (hmatch : rhythm.matchText expected = .ok (found, turned, told)) : rhythm.turn (.toward expected) = turned := by
  obtain ⟨ended, hresult, hsame⟩ := Except.map_eq_ok_iff.1 hmatch
  cases hsame
  rw [turn, Turn.act, Act.outcome_discard_of_ok hresult]

/-- The text is read before the first turn is tried. -/
theorem careful_seekText (expected : String) : (seekText expected).Careful :=
  (Act.looks_check _).bind fun _ => Act.Sure.careful <| (Act.sure_modifyGet _).bind fun _ =>
    Act.sure_get.bind fun _ => Act.sure_pure _

theorem turn_of_no_match {rhythm : EuclideanRhythm} {expected : String} {fault : Fault}
    (hmatch : rhythm.matchText expected = .error fault) : rhythm.turn (.toward expected) = rhythm := by
  rw [turn, Turn.act, (careful_seekText expected).outcome_discard_of_error (Except.map_eq_error_iff.1 hmatch)]

theorem turn_isTurnOf (rhythm : EuclideanRhythm) (call : Turn) : IsTurnOf (rhythm.turn call) rhythm := by
  cases call with
  | bySteps count => exact ⟨rfl, rfl, turnedSteps_isRotated _ _⟩
  | byGroups count =>
    have hsteps : (rhythm.rotateGroups count).steps = rhythm.steps := by
      rw [rotateGroups]
      split <;> rfl
    exact ⟨hsteps, rotateGroups_pulses _ _, rotateGroups_isRotated _ _⟩
  | toward expected =>
    cases hmatch : rhythm.matchText expected with
    | error fault =>
      rw [turn_of_no_match hmatch]
      exact IsTurnOf.refl rhythm
    | ok matched =>
      rw [turn_of_match hmatch]
      rw [matchText_eq] at hmatch
      obtain ⟨target, _, rfl⟩ := Except.map_eq_ok_iff.1 hmatch
      exact turnTo_isTurnOf rhythm target

theorem afterTurns_isTurnOf (rhythm : EuclideanRhythm) (turns : List Turn) : IsTurnOf (rhythm.afterTurns turns) rhythm := by
  induction turns generalizing rhythm with
  | nil => exact IsTurnOf.refl rhythm
  | cons call rest ih => exact (ih (rhythm.turn call)).trans (turn_isTurnOf rhythm call)

/-! ### What a filling has -/

/-- The pattern is a turn of the filling for the grid and the pulses of the rhythm. -/
structure Filled (rhythm : EuclideanRhythm) : Prop where
  pulses_le : rhythm.pulses ≤ rhythm.steps
  pattern : Bucket.spread rhythm.pulses rhythm.steps ~r rhythm.pattern

theorem make_filled (pulses steps : Int) : (make pulses steps).Filled :=
  ⟨clampedPulses_le pulses steps, make_isRotated pulses steps⟩

theorem Filled.turn {turned rhythm : EuclideanRhythm} (hfilled : rhythm.Filled) (hturned : IsTurnOf turned rhythm) :
    turned.Filled where
  pulses_le := by rw [hturned.pulses, hturned.steps]; exact hfilled.pulses_le
  pattern := by rw [hturned.pulses, hturned.steps]; exact hfilled.pattern.trans hturned.pattern

section Filled

variable {rhythm : EuclideanRhythm} (hfilled : rhythm.Filled)
include hfilled

theorem Filled.length_eq : rhythm.pattern.length = rhythm.steps := by
  rw [← hfilled.pattern.perm.length_eq, Bucket.length_spread hfilled.pulses_le]

theorem Filled.count_eq : rhythm.pattern.count true = rhythm.pulses := by
  rw [← hfilled.pattern.perm.count_eq, Bucket.count_spread hfilled.pulses_le]

theorem Filled.true_mem (hpulses : 0 < rhythm.pulses) : true ∈ rhythm.pattern := by
  rw [← List.count_pos_iff, hfilled.count_eq]
  exact hpulses

theorem Filled.pattern_eq_pauses (hnone : rhythm.pulses = 0) :
    rhythm.pattern = List.replicate rhythm.pattern.length false :=
  List.eq_replicate_of_mem fun step hstep => by
    cases step with
    | false => rfl
    | true => exact absurd (hfilled.count_eq.trans hnone) (Nat.ne_of_gt (List.count_pos_iff.2 hstep))

/-- The groups of a rhythm with pulses: as many as it has pulses, none longer than another by more than one pause. -/
theorem Filled.exists_round (hpulses : 0 < rhythm.pulses) :
    ∃ (least : Nat) (groups : List Nat), rhythm.pattern.Round groups ∧ groups.length = rhythm.pulses ∧
      ∀ group ∈ groups, least ≤ group ∧ group ≤ least + 1 := by
  obtain ⟨least, filled, hturned, hsome, heven⟩ := Bucket.spread_even hpulses hfilled.pulses_le
  obtain ⟨groups, hround, hturns⟩ := (Pattern.round_ofGroups hsome).of_isRotated (hturned.trans hfilled.pattern)
  have hperm : groups.Perm filled := hturns.symm.perm
  have hcount : (Pattern.ofGroups filled).count true = rhythm.pulses := by
    rw [(hturned.trans hfilled.pattern).perm.count_eq, hfilled.count_eq]
  rw [Pattern.count_ofGroups] at hcount
  exact ⟨least, groups, hround, hperm.length_eq.trans hcount, fun group hgroup => heven group (hperm.mem_iff.1 hgroup)⟩

end Filled

/-- A rhythm without pulses has neither gaps nor lengths; in all others both count the steps of each pulse group. -/
theorem Filled.gaps_eq {rhythm : EuclideanRhythm} (hfilled : rhythm.Filled) :
    ∃ (least : Nat) (groups : List Nat), rhythm.gaps = groups.map (· + 1) ∧ rhythm.durations = groups.map (· + 1) ∧
      groups.length = rhythm.pulses ∧ ∀ group ∈ groups, least ≤ group ∧ group ≤ least + 1 := by
  by_cases hnone : rhythm.pulses = 0
  · refine ⟨0, [], ?_, by rw [durations, if_pos hnone]; rfl, hnone.symm, fun _ hgroup => absurd hgroup List.not_mem_nil⟩
    have honsets := Pattern.onsetsFrom_pauses 0 rhythm.pattern.length []
    rw [List.append_nil, ← hfilled.pattern_eq_pauses hnone] at honsets
    rw [gaps, Pattern.gaps, Pattern.onsets, honsets]
    rfl
  · obtain ⟨least, groups, hround, hlength, heven⟩ := hfilled.exists_round (Nat.pos_of_ne_zero hnone)
    exact ⟨least, groups, hround.gaps_eq, by rw [durations, if_neg hnone, hround.filter_legato_eq], hlength, heven⟩

theorem Filled.gap_le {rhythm : EuclideanRhythm} (hfilled : rhythm.Filled) {gap other : Nat} (hgap : gap ∈ rhythm.gaps)
    (hother : other ∈ rhythm.gaps) : gap ≤ other + 1 := by
  obtain ⟨least, groups, hgaps, _, _, heven⟩ := hfilled.gaps_eq
  rw [hgaps] at hgap hother
  obtain ⟨group, hgroup, rfl⟩ := List.mem_map.1 hgap
  obtain ⟨another, hanother, rfl⟩ := List.mem_map.1 hother
  have hmost := (heven group hgroup).2
  have hleast := (heven another hanother).1
  omega

theorem Filled.durations_eq {rhythm : EuclideanRhythm} (hfilled : rhythm.Filled) :
    rhythm.durations = rhythm.gaps ∧ rhythm.durations.length = rhythm.pulses ∧ ∀ duration ∈ rhythm.durations, 0 < duration := by
  obtain ⟨least, groups, hgaps, hdurations, hlength, _⟩ := hfilled.gaps_eq
  rw [hgaps, hdurations]
  refine ⟨rfl, by rw [List.length_map, hlength], fun duration hduration => ?_⟩
  obtain ⟨group, _, rfl⟩ := List.mem_map.1 hduration
  exact Nat.succ_pos group

theorem Filled.sum_durations_eq {rhythm : EuclideanRhythm} (hfilled : rhythm.Filled) :
    rhythm.durations.sum = if rhythm.pulses = 0 then 0 else rhythm.steps := by
  split
  · next hnone =>
    rw [durations, if_pos hnone]
    rfl
  · next hsome =>
    have hpos := Nat.pos_of_ne_zero hsome
    rw [sum_durations hpos (hfilled.true_mem hpos), hfilled.length_eq]

/-- A rhythm made for any numbers is well formed after any calls: it fills its grid, has the pulses that were asked for as far as they fit, and its gaps, which are also the lengths of its pulse groups, are positive, differ by at most one and add up to the grid. -/
theorem even_after_turns (pulses steps : Int) (turns : List Turn) :
    let rhythm := (make pulses steps).afterTurns turns
    let grid := max 0 steps
    let struck := max 0 (min pulses grid)
    (rhythm.pattern.length : Int) = grid ∧ (rhythm.pattern.count true : Int) = struck ∧
      (∀ gap ∈ rhythm.gaps, ∀ other ∈ rhythm.gaps, gap ≤ other + 1) ∧ rhythm.durations = rhythm.gaps ∧
      (rhythm.durations.length : Int) = struck ∧ (∀ duration ∈ rhythm.durations, 0 < duration) ∧
      (rhythm.durations.sum : Int) = if struck = 0 then 0 else grid := by
  intro rhythm grid struck
  have hturned := afterTurns_isTurnOf (make pulses steps) turns
  have hfilled : rhythm.Filled := (make_filled pulses steps).turn hturned
  have hsteps : (rhythm.steps : Int) = grid := by
    rw [hturned.steps]
    exact (Int.toNat_eq_max steps).trans (Int.max_comm _ _)
  have hpulses : (rhythm.pulses : Int) = struck := by
    rw [hturned.pulses]
    exact Int.toNat_of_nonneg (Int.le_max_left _ _)
  obtain ⟨hgaps, hlength, hpositive⟩ := hfilled.durations_eq
  refine ⟨by rw [hfilled.length_eq, hsteps], by rw [hfilled.count_eq, hpulses], ?_, hgaps, by rw [hlength, hpulses],
    hpositive, ?_⟩
  · exact fun gap hgap other hother => hfilled.gap_le hgap hother
  · rw [hfilled.sum_durations_eq, ← hpulses, ← hsteps]
    split <;> split <;> omega

end TurtleMusic.EuclideanRhythm
