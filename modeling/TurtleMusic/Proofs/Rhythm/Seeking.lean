import Mathlib
import TurtleMusic.Proofs.Outcome
import TurtleMusic.Proofs.Rhythm.Listing
import TurtleMusic.Proofs.Rhythm.Spelling
import TurtleMusic.Proofs.Rhythm.Turning

/-!
# Turning to a pattern

A rhythm is turned to a pattern by trying it and its turns by one group after the other, as many as it has pulses. Each of these turns the round of the pattern by one group, so the last of them brings the whole round back, led by its first pulse; and between the first and the last every turn that starts on a pulse has come up once. So a pattern is found just if it is the one tried first or one of those.
-/

namespace TurtleMusic

open Pattern

namespace EuclideanRhythm

/-! ### Group after group -/

theorem turnedGroup_append (before : Pattern) (pauses : Nat) :
    turnedGroup (before ++ true :: List.replicate pauses false) = true :: List.replicate pauses false ++ before := by
  have hreverse : (before ++ true :: List.replicate pauses false).reverse =
      List.replicate pauses false ++ true :: before.reverse := by simp
  have hlast : lastPulse (before ++ true :: List.replicate pauses false) = before.length := by
    have hpauses : true ∉ List.replicate pauses false := by simp
    rw [lastPulse, hreverse, List.idxOf_append_of_notMem hpauses, List.idxOf_cons_self]
    simp
  rw [turnedGroup, hlast, List.drop_left, List.take_left]

/-- A turn by one group puts the last group of the round first and leads it with its pulse. -/
theorem turnedGroup_of_round {pattern : Pattern} {groups : List Nat} (hround : Round pattern groups) :
    turnedGroup pattern = ofGroups (groups.rotate (groups.length - 1)) := by
  obtain ⟨lead, front, last, rfl, rfl⟩ := hround
  have hgroup : ofGroups (front ++ [last]) = ofGroups front ++ true :: List.replicate last false := by
    rw [ofGroups_append, ofGroups_cons]
    simp [ofGroups]
  rw [hgroup, ← List.append_assoc, turnedGroup_append, List.length_append, List.length_singleton, Nat.add_sub_cancel,
    List.rotate_append_length_eq, List.singleton_append, ofGroups_cons, List.replicate_add, List.cons_append,
    List.append_assoc]

theorem rotate_eq_of_modEq {α : Type} {items : List α} {first second : Nat} (hsame : first ≡ second [MOD items.length]) :
    items.rotate first = items.rotate second := by
  rw [← List.rotate_mod, show first % items.length = second % items.length from hsame, List.rotate_mod]

/-- A number of turns by one group bring so many groups of the round to its front, which is a turn the other way by what is missing to whole rounds. -/
theorem repeat_turnedGroup_of_round {pattern : Pattern} {groups : List Nat} (hround : Round pattern groups) {turns left : Nat}
    (hpos : 0 < turns) (hturns : groups.length ∣ left + turns) :
    Nat.repeat turnedGroup turns pattern = ofGroups (groups.rotate left) := by
  have hsome := List.length_pos_iff.2 hround.ne_nil
  obtain ⟨before, rfl⟩ := Nat.exists_eq_succ_of_ne_zero (Nat.ne_of_gt hpos)
  induction before generalizing left with
  | zero =>
    rw [Nat.repeat, Nat.repeat, turnedGroup_of_round hround]
    congr 1
    apply rotate_eq_of_modEq
    apply Nat.ModEq.add_right_cancel' 1
    rw [Nat.sub_add_cancel hsome, Nat.modEq_iff_dvd]
    exact Int.dvd_sub (Int.natCast_dvd_natCast.2 hturns) (Int.dvd_refl _)
  | succ before ih =>
    have hrotated : groups.rotate (left + 1) ≠ [] := by
      rw [Ne, List.rotate_eq_nil_iff]
      exact hround.ne_nil
    have hmissing : groups.length ∣ left + 1 + (before + 1) := by rwa [Nat.add_right_comm, Nat.add_assoc]
    have hwhole : left + 1 + (groups.length - 1) = left + groups.length := by omega
    rw [Nat.repeat, ih (Nat.succ_pos before) hmissing, turnedGroup_of_round (round_ofGroups hrotated), List.length_rotate,
      List.rotate_rotate, hwhole, rotate_eq_of_modEq Nat.add_modEq_right]

/-- As many turns as there are groups bring the round back, led by its first pulse. -/
theorem repeat_turnedGroup_length {pattern : Pattern} {groups : List Nat} (hround : Round pattern groups) :
    Nat.repeat turnedGroup groups.length pattern = ofGroups groups := by
  have hwhole : groups.length ∣ 0 + groups.length := by rw [Nat.zero_add]
  rw [repeat_turnedGroup_of_round hround (List.length_pos_iff.2 hround.ne_nil) hwhole, List.rotate_zero]

/-- As many turns as there are groups meet the pattern itself and every turn of it that starts on a pulse, and nothing else. -/
theorem exists_turn_iff {pattern : Pattern} {groups : List Nat} (hround : Round pattern groups) {target : Pattern} :
    (∃ count ≤ groups.length, Nat.repeat turnedGroup count pattern = target) ↔
      target = pattern ∨ pattern ~r target ∧ target.head? = some true := by
  constructor
  · rintro ⟨count, hcount, rfl⟩
    cases count with
    | zero => exact .inl rfl
    | succ count =>
      refine .inr ⟨repeat_turnedGroup_isRotated _ _, ?_⟩
      have hmissing : groups.length ∣ groups.length - (count + 1) + (count + 1) := by rw [Nat.sub_add_cancel hcount]
      rw [repeat_turnedGroup_of_round hround (Nat.succ_pos count) hmissing]
      exact head_ofGroups fun hnil => hround.ne_nil (List.rotate_eq_nil_iff.1 hnil)
  · rintro (rfl | ⟨hturned, hhead⟩)
    · exact ⟨0, Nat.zero_le _, rfl⟩
    · obtain ⟨turned, hafter, hgroups⟩ := hround.of_isRotated hturned
      obtain ⟨front, hfront, rfl⟩ := List.isRotated_iff_mod.1 hgroups
      rw [hafter.eq_ofGroups hhead]
      rcases Nat.eq_or_lt_of_le hfront with rfl | hless
      · -- the round as it is comes up last
        exact ⟨_, Nat.le_refl _, by rw [repeat_turnedGroup_length hround, List.rotate_length]⟩
      · refine ⟨groups.length - front, Nat.sub_le _ _, repeat_turnedGroup_of_round hround (Nat.sub_pos_of_lt hless) ?_⟩
        rw [Nat.add_sub_cancel' hfront]

/-! ### The search -/

theorem repeat_turnedGroup_turned (count : Nat) (pattern : Pattern) :
    Nat.repeat turnedGroup count (turnedGroup pattern) = turnedGroup (Nat.repeat turnedGroup count pattern) := by
  induction count with
  | zero => rfl
  | succ count ih => rw [Nat.repeat, ih, Nat.repeat]

/-- What comes up among the turns is found. -/
theorem seek_of_met {target pattern : Pattern} {turns : Nat}
    (hmet : ∃ count ≤ turns, Nat.repeat turnedGroup count pattern = target) : seek target.render turns pattern = (true, target) := by
  induction turns generalizing pattern with
  | zero =>
    obtain ⟨count, hcount, hturned⟩ := hmet
    obtain rfl := Nat.le_zero.1 hcount
    rw [seek, show pattern = target from hturned, beq_self_eq_true]
  | succ turns ih =>
    rw [seek, render_beq_render]
    split
    · next hfound => rw [eq_of_beq hfound]
    · next hother =>
      obtain ⟨count, hcount, hturned⟩ := hmet
      cases count with
      | zero => exact absurd (beq_iff_eq.2 hturned) hother
      | succ count =>
        refine ih ⟨count, Nat.le_of_succ_le_succ hcount, ?_⟩
        rw [repeat_turnedGroup_turned]
        exact hturned

/-- What does not come up is missed, and the pattern is left on the last turn. -/
theorem seek_of_unmet {target pattern : Pattern} {turns : Nat}
    (hunmet : ¬∃ count ≤ turns, Nat.repeat turnedGroup count pattern = target) :
    seek target.render turns pattern = (false, Nat.repeat turnedGroup turns pattern) := by
  have hother : (pattern == target) = false :=
    beq_false_of_ne fun heq => hunmet ⟨0, Nat.zero_le _, heq⟩
  induction turns generalizing pattern with
  | zero => rw [seek, render_beq_render, hother, Nat.repeat]
  | succ turns ih =>
    have hlater : ¬∃ count ≤ turns, Nat.repeat turnedGroup count (turnedGroup pattern) = target := by
      rintro ⟨count, hcount, hturned⟩
      rw [repeat_turnedGroup_turned] at hturned
      exact hunmet ⟨count + 1, Nat.succ_le_succ hcount, hturned⟩
    rw [seek, render_beq_render, hother, if_neg Bool.false_ne_true, ih hlater (beq_false_of_ne fun heq => hlater ⟨0, Nat.zero_le _, heq⟩),
      repeat_turnedGroup_turned, Nat.repeat]

/-! ### Rhythms -/

section Filled

variable {rhythm : EuclideanRhythm} (hfilled : rhythm.Filled)
include hfilled

theorem Filled.exists_turn_iff {target : Pattern} :
    (∃ count ≤ rhythm.pulses, Nat.repeat turnedGroup count rhythm.pattern = target) ↔
      target = rhythm.pattern ∨ rhythm.pattern ~r target ∧ target.head? = some true := by
  by_cases hnone : rhythm.pulses = 0
  · -- No turn of pauses starts on a pulse.
    have hpause : ¬(rhythm.pattern ~r target ∧ target.head? = some true) := by
      rintro ⟨hturned, hhead⟩
      have hmem : true ∈ rhythm.pattern := hturned.mem_iff.2 (List.mem_of_mem_head? hhead)
      rw [hfilled.pattern_eq_pauses hnone] at hmem
      exact absurd (List.eq_of_mem_replicate hmem) (by decide)
    rw [hnone, or_iff_left hpause]
    constructor
    · rintro ⟨count, hcount, rfl⟩
      rw [Nat.le_zero.1 hcount, Nat.repeat]
    · rintro rfl
      exact ⟨0, Nat.le_refl 0, rfl⟩
  · obtain ⟨_, groups, hround, hlength, _⟩ := hfilled.exists_round (Nat.pos_of_ne_zero hnone)
    rw [← hlength]
    exact EuclideanRhythm.exists_turn_iff hround

theorem Filled.repeat_pulses : Nat.repeat turnedGroup rhythm.pulses rhythm.pattern = rhythm.pattern.fromFirstPulse := by
  by_cases hnone : rhythm.pulses = 0
  · rw [hnone, Nat.repeat, hfilled.pattern_eq_pauses hnone]
    simp [fromFirstPulse]
  · obtain ⟨_, groups, hround, hlength, _⟩ := hfilled.exists_round (Nat.pos_of_ne_zero hnone)
    rw [← hlength, repeat_turnedGroup_length hround, hround.fromFirstPulse_eq]

theorem Filled.turnTo_of_turn {target : Pattern}
    (hturn : target = rhythm.pattern ∨ rhythm.pattern ~r target ∧ target.head? = some true) :
    rhythm.turnTo target.render = (true, { rhythm with pattern := target }) := by
  rw [turnTo, seek_of_met (hfilled.exists_turn_iff.2 hturn)]

theorem Filled.turnTo_of_no_turn {target : Pattern}
    (hturn : ¬(target = rhythm.pattern ∨ rhythm.pattern ~r target ∧ target.head? = some true)) :
    rhythm.turnTo target.render = (false, { rhythm with pattern := rhythm.pattern.fromFirstPulse }) := by
  rw [turnTo, seek_of_unmet (mt hfilled.exists_turn_iff.1 hturn), hfilled.repeat_pulses]

end Filled

/-- Making a rhythm for an expected pattern is making it and turning it there. -/
theorem makeAs_eq_turn {pulses steps : Int} {given : Option String} {made : EuclideanRhythm × List Report}
    (hmade : makeAs pulses steps given = .ok made) : made.1 = (make pulses steps).afterTurns (given.toList.map .toward) := by
  cases given with
  | none =>
    cases hmade
    rfl
  | some expected =>
    obtain ⟨⟨found, turned, told⟩, hmatch, rfl⟩ := Except.map_eq_ok_iff.1 hmade
    simp only [Option.toList_some, List.map_cons, List.map_nil, afterTurns, List.foldl_cons, List.foldl_nil, turn_of_match hmatch]

theorem makeAs_filled {pulses steps : Int} {given : Option String} {made : EuclideanRhythm × List Report}
    (hmade : makeAs pulses steps given = .ok made) : made.1.Filled := by
  rw [makeAs_eq_turn hmade]
  exact (make_filled pulses steps).turn (afterTurns_isTurnOf _ _)

/-- Made without an expectation, a rhythm is the classic listing if its filling can be turned there. -/
theorem make_eq_bjorklund {pulses steps : Int} (hturn : bucketFill pulses steps ~r bjorklund steps pulses) :
    (make pulses steps).pattern = bjorklund steps pulses := by
  let filled : EuclideanRhythm := ⟨steps.toNat, clampedPulses pulses (max 0 steps), bucketFill pulses steps⟩
  have hfilled : filled.Filled := ⟨clampedPulses_le pulses steps, List.IsRotated.refl _⟩
  have hlisting : bjorklund steps pulses = filled.pattern ∨
      filled.pattern ~r bjorklund steps pulses ∧ (bjorklund steps pulses).head? = some true := by
    rcases Nat.eq_zero_or_pos filled.pulses with hnone | hsome
    · left
      have hclamped : clampedPulses pulses (max 0 steps) = 0 := hnone
      rw [bjorklund, Bjorklund.listing, dif_pos hclamped]
      change _ = Bucket.spread (clampedPulses pulses (max 0 steps)) steps.toNat
      rw [Bucket.spread, if_pos hclamped]
    · exact .inr ⟨hturn, Bjorklund.listing_head hsome hfilled.pulses_le⟩
  rw [make, hfilled.turnTo_of_turn hlisting]

theorem fromFirstPulse_of_head {pattern : Pattern} (hhead : pattern.head? = some true) : pattern.fromFirstPulse = pattern := by
  obtain ⟨rest, rfl⟩ := List.head?_eq_some_iff.1 hhead
  simp [fromFirstPulse]

/-- However a rhythm was made and turned, a text of letters and blanks is found just if its pattern is the rhythm's own or a turn of it that starts on a pulse, and the rhythm then has that pattern. Not finding it leaves a rhythm that starts on a pulse as it is and turns any other to its first pulse. Any other text is refused and turns nothing. Made without an expectation, a rhythm is the classic listing whenever its filling can be turned there. -/
theorem matchText_finds_turns {pulses steps : Int} {given : Option String} {made : EuclideanRhythm × List Report}
    (hmade : makeAs pulses steps given = .ok made) (turns : List Turn) (expected : String) :
    let rhythm := made.1.afterTurns turns
    let target := letters expected.toList
    ((∀ c ∈ expected.toList, IsSymbol c) →
      ∃ found turned told, rhythm.matchText expected = .ok (found, turned, told) ∧
        (found = true ↔ target = rhythm.pattern ∨ rhythm.pattern ~r target ∧ target.head? = some true) ∧
        (found = true → turned = { rhythm with pattern := target }) ∧
        (found = false → rhythm.pattern.head? = some true → turned = rhythm) ∧
        (found = false → turned = { rhythm with pattern := rhythm.pattern.fromFirstPulse })) ∧
    ((∃ c ∈ expected.toList, ¬IsSymbol c) →
      (∃ fault, rhythm.matchText expected = .error fault ∧ fault.kind = .value) ∧ rhythm.turn (.toward expected) = rhythm) ∧
    (given = none → bucketFill pulses steps ~r bjorklund steps pulses → made.1.pattern = bjorklund steps pulses) := by
  intro rhythm target
  have hfilled : rhythm.Filled := (makeAs_filled hmade).turn (afterTurns_isTurnOf _ _)
  refine ⟨fun hsymbols => ?_, fun hother => ?_, fun hgiven hturn => ?_⟩
  · rw [matchText_eq, normalize_of_read (read_of_symbols hsymbols)]
    by_cases hturn : target = rhythm.pattern ∨ rhythm.pattern ~r target ∧ target.head? = some true
    · have hfound := hfilled.turnTo_of_turn hturn
      refine ⟨_, _, _, rfl, ?_⟩
      rw [hfound]
      have hnever : true ≠ false := by decide
      exact ⟨iff_of_true rfl hturn, fun _ => rfl, fun hmiss => absurd hmiss hnever, fun hmiss => absurd hmiss hnever⟩
    · have hmissed := hfilled.turnTo_of_no_turn hturn
      refine ⟨_, _, _, rfl, ?_⟩
      rw [hmissed]
      refine ⟨iff_of_false Bool.false_ne_true hturn, fun hfind => absurd hfind Bool.false_ne_true, fun _ hhead => ?_,
        fun _ => rfl⟩
      rw [fromFirstPulse_of_head hhead]
  · obtain ⟨c, _, _, hrefused⟩ := read_of_other hother
    have hmatch : rhythm.matchText expected = .error (.unexpectedStep c expected) := by
      rw [matchText_eq, Pattern.normalize, hrefused]
      rfl
    exact ⟨⟨_, hmatch, rfl⟩, turn_of_no_match hmatch⟩
  · subst hgiven
    cases hmade
    exact make_eq_bjorklund hturn

/-- A rhythm that starts on a pause is turned to its own pattern from another pulse on, and to its first pulse by a pattern of another rhythm. -/
theorem matchText_finds_turns_tresillo :
    makeAs 3 8 none = .ok (make 3 8, []) ∧
      let rhythm := (make 3 8).afterTurns [.bySteps 1]
      rhythm.pattern = [false, true, false, false, true, false, false, true] ∧
        (∃ turned told, rhythm.matchText "X . x..X. ." = .ok (true, turned, told) ∧
          turned.pattern = [true, false, true, false, false, true, false, false]) ∧
        (∃ turned told, rhythm.matchText "xxx....." = .ok (false, turned, told) ∧
          turned.pattern = [true, false, false, true, false, false, true, false]) ∧
        rhythm.turn (.toward "x-x") = rhythm := by
  have hmade : makeAs 3 8 none = .ok (make 3 8, []) := rfl
  refine ⟨hmade, ?_⟩
  intro rhythm
  have hpattern : rhythm.pattern = [false, true, false, false, true, false, false, true] := by decide +kernel
  refine ⟨hpattern, ?_, ?_, ?_⟩
  · obtain ⟨found, turned, told, hmatch, hfound, hturned, _⟩ :=
      (matchText_finds_turns hmade [.bySteps 1] "X . x..X. .").1 (List.all_iff_forall_prop.1 (by decide +kernel))
    have hturn : found = true := by
      rw [hfound, hpattern]
      exact .inr ⟨⟨7, by decide +kernel⟩, by decide +kernel⟩
    subst hturn
    refine ⟨turned, told, hmatch, ?_⟩
    rw [hturned rfl]
    decide +kernel
  · obtain ⟨found, turned, told, hmatch, hfound, _, _, hmissed⟩ :=
      (matchText_finds_turns hmade [.bySteps 1] "xxx.....").1 (List.all_iff_forall_prop.1 (by decide +kernel))
    have hother : found = false := by
      rw [← Bool.not_eq_true, hfound, hpattern]
      decide +kernel
    subst hother
    refine ⟨turned, told, hmatch, ?_⟩
    rw [hmissed rfl]
    exact (congrArg Pattern.fromFirstPulse hpattern).trans rfl
  · exact ((matchText_finds_turns hmade [.bySteps 1] "x-x").2.1 ⟨'-', by decide +kernel, by decide +kernel⟩).2

end EuclideanRhythm

end TurtleMusic
