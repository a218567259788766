import TurtleMusic.Proofs.Rhythm.Rounds

/-!
# Fillings are even

A filling is made of as many pulse groups as it has pulses, and no group is longer than another by more than one pause. What carries this is that the pauses left over are placed before the groups run out: the groups still to come have room for them and for the groups passed over between them.
-/

namespace TurtleMusic

open Pattern

namespace Bucket

/-- The groups to come have room for the pauses left over and for the groups that are passed over meanwhile. -/
def Countdown.FitsIn (countdown : Countdown) (rule : Rule) (groups : Nat) : Prop :=
  countdown.leftOver = 0 ∨
    0 ≤ countdown.wait ∧ countdown.leftOver + countdown.wait + rule.skipLength * max 0 countdown.skips ≤ groups

variable {rule : Rule} {countdown : Countdown} {groups : Nat}

/-- A new group keeps the room, and the pauses that it gets beyond the quotient are taken from those left over. -/
theorem openGroup_fitsIn (hfits : countdown.FitsIn rule (groups + 1)) :
    (openGroup rule countdown).FitsIn rule groups ∧
      (openGroup rule countdown).pauses + (openGroup rule countdown).leftOver = rule.perPulse + countdown.leftOver ∧
      (openGroup rule countdown).pauses ≤ rule.perPulse + 1 ∧ rule.perPulse ≤ (openGroup rule countdown).pauses := by
  obtain ⟨pauses, leftOver, wait, skips⟩ := countdown
  simp only [openGroup, Countdown.FitsIn] at hfits ⊢
  split
  · next hextra =>
    dsimp only
    refine ⟨?_, by omega, by omega, by omega⟩
    right
    obtain ⟨_, hroom⟩ := hfits.resolve_left (by omega)
    split
    · next hskips =>
      -- the skip that is made now was among those there was room for
      rw [show max 0 skips = 1 + max 0 (skips - 1) by omega, Int.mul_add, Int.mul_one] at hroom
      omega
    · next hskips =>
      rw [show max 0 skips = 0 by omega, Int.mul_zero] at hroom
      rw [show max 0 (skips - 1) = 0 by omega, Int.mul_zero]
      omega
  · next hplain =>
    dsimp only
    exact ⟨by omega, by omega, by omega, by omega⟩

theorem fill_pauses (rule : Rule) (steps pauses leftOver : Nat) (wait skips : Int) :
    fill rule (steps + pauses) ⟨pauses, leftOver, wait, skips⟩ =
      List.replicate pauses false ++ fill rule steps ⟨0, leftOver, wait, skips⟩ := by
  induction pauses with
  | zero => rfl
  | succ pauses ih =>
    rw [← Nat.add_assoc, fill]
    exact congrArg (false :: ·) ih

/-- With room for the pauses left over, a filling consists of whole groups, all of them as long as the quotient says or by one longer. -/
theorem fill_groups (rule : Rule) (groups leftOver : Nat) (wait skips : Int)
    (hfits : Countdown.FitsIn ⟨0, leftOver, wait, skips⟩ rule groups) :
    ∃ filled, fill rule (groups * (rule.perPulse + 1) + leftOver) ⟨0, leftOver, wait, skips⟩ = ofGroups filled ∧
      filled.length = groups ∧ ∀ pauses ∈ filled, rule.perPulse ≤ pauses ∧ pauses ≤ rule.perPulse + 1 := by
  induction groups generalizing leftOver wait skips with
  | zero =>
    have hnone : leftOver = 0 := by
      simp only [Countdown.FitsIn] at hfits
      have hskips : 0 ≤ (rule.skipLength : Int) * max 0 skips := Int.mul_nonneg (by omega) (by omega)
      omega
    exact ⟨[], by rw [hnone, Nat.zero_mul]; rfl, rfl, fun _ hpauses => absurd hpauses List.not_mem_nil⟩
  | succ groups ih =>
    obtain ⟨hnext, hsum, hmost, hleast⟩ := openGroup_fitsIn hfits
    generalize hopened : openGroup rule ⟨0, leftOver, wait, skips⟩ = opened at hnext hsum hmost hleast
    obtain ⟨pauses, left, newWait, newSkips⟩ := opened
    obtain ⟨filled, hfill, hlength, hpauses⟩ := ih left newWait newSkips hnext
    refine ⟨pauses :: filled, ?_, by rw [List.length_cons, hlength], List.forall_mem_cons.2 ⟨⟨hleast, hmost⟩, hpauses⟩⟩
    have hsteps : (groups + 1) * (rule.perPulse + 1) + leftOver = groups * (rule.perPulse + 1) + left + pauses + 1 := by
      rw [Nat.succ_mul]
      simp only at hsum
      omega
    rw [hsteps, fill]
    dsimp only
    rw [hopened, fill_pauses, hfill, ofGroups_cons]

/-- A filling with fewer pulses than pauses is even. -/
theorem sparse_groups (pulses pauses : Nat) (hpos : 0 < pulses) :
    ∃ filled, sparse pulses pauses = ofGroups filled ∧ filled.length = pulses ∧
      ∀ group ∈ filled, pauses / pulses ≤ group ∧ group ≤ pauses / pulses + 1 := by
  have hleft : pauses % pulses < pulses := Nat.mod_lt _ hpos
  have hsteps : pulses + pauses = pulses * (pauses / pulses + 1) + pauses % pulses := by
    have hwhole := Nat.div_add_mod pauses pulses
    rw [Nat.mul_succ]
    omega
  rw [sparse, hsteps]
  refine fill_groups ⟨pauses / pulses, pulses / (pauses % pulses)⟩ pulses _ 0 _ ?_
  simp only [Countdown.FitsIn]
  have hskips : (pulses / (pauses % pulses)) * ((pulses - pauses % pulses) / (pulses / (pauses % pulses))) ≤
      pulses - pauses % pulses := Nat.mul_div_le _ _
  rw [Int.max_eq_right (Int.natCast_nonneg _)]
  rw [← Int.natCast_mul]
  omega

/-! ### When pulses and pauses change places -/

/-- The round of a pattern whose pulses and pauses have changed places: a group of pauses becomes as many pulses, all but the last without a pause. -/
def exchanged (groups : List Nat) : List Nat := groups.flatMap fun pauses => List.replicate (pauses - 1) 0 ++ [1]

theorem exchanged_cons (pauses : Nat) (groups : List Nat) :
    exchanged (pauses :: groups) = List.replicate (pauses - 1) 0 ++ [1] ++ exchanged groups := rfl

theorem not_ofGroups_concat {groups : List Nat} (hgroups : ∀ pauses ∈ groups, 0 < pauses) :
    (ofGroups groups).map (!·) ++ [false] = false :: ofGroups (exchanged groups) := by
  induction groups with
  | nil => rfl
  | cons pauses rest ih =>
    rw [List.forall_mem_cons] at hgroups
    obtain ⟨more, rfl⟩ := Nat.exists_eq_succ_of_ne_zero (Nat.ne_of_gt hgroups.1)
    have hlast : ofGroups [1] = [true, false] := rfl
    rw [ofGroups_cons, List.map_cons, List.map_append, List.cons_append, List.append_assoc, ih hgroups.2,
      exchanged_cons, ofGroups_append, ofGroups_append, Nat.succ_sub_one, ofGroups_replicate_zero, hlast,
      List.map_replicate, List.replicate_succ']
    simp

/-- What comes of an exchange is a turn of groups with one pause or none. -/
theorem not_ofGroups_isRotated {groups : List Nat} (hsome : groups ≠ []) (hgroups : ∀ pauses ∈ groups, 0 < pauses) :
    ofGroups (exchanged groups) ~r (ofGroups groups).map (!·) := by
  obtain ⟨first, rest, rfl⟩ := List.exists_cons_of_ne_nil hsome
  have hconcat := not_ofGroups_concat hgroups
  rw [ofGroups_cons, List.map_cons, List.cons_append, Bool.not_true] at hconcat
  refine List.IsRotated.symm ⟨1, ?_⟩
  rw [ofGroups_cons, List.map_cons, List.rotate_cons_succ, List.rotate_zero]
  exact (List.cons.inj hconcat).2

theorem mem_exchanged {groups : List Nat} {pauses : Nat} (hmem : pauses ∈ exchanged groups) : pauses ≤ 1 := by
  obtain ⟨group, _, hgroup⟩ := List.mem_flatMap.1 hmem
  rcases List.mem_append.1 hgroup with hzero | hone
  · rw [List.eq_of_mem_replicate hzero]
    exact Nat.zero_le 1
  · exact Nat.le_of_eq (List.mem_singleton.1 hone)

theorem count_not (pattern : Pattern) : (pattern.map (!·)).count true + pattern.count true = pattern.length := by
  induction pattern with
  | nil => rfl
  | cons step rest ih =>
    cases step with
    | true =>
      rw [List.map_cons, List.count_cons_self, Bool.not_true, List.count_cons_of_ne (by decide), List.length_cons]
      omega
    | false =>
      rw [List.map_cons, Bool.not_false, List.count_cons_self, List.count_cons_of_ne (by decide), List.length_cons]
      omega

/-! ### All fillings -/

/-- A filling has the pulses that were asked for. -/
theorem count_spread {pulses steps : Nat} (hle : pulses ≤ steps) : (spread pulses steps).count true = pulses := by
  rw [spread]
  split
  · next hnone => rw [hnone, List.count_replicate, if_neg (by decide)]
  · split
    · next hfull => rw [List.count_replicate_self, hfull]
    · next hsome hrest =>
      split
      · obtain ⟨filled, hfilled, hlength, _⟩ := sparse_groups (steps - pulses) pulses (by omega)
        have hcount := count_not (sparse (steps - pulses) pulses)
        have hpulses : (sparse (steps - pulses) pulses).count true = steps - pulses := by
          rw [hfilled, count_ofGroups, hlength]
        rw [hpulses, length_sparse] at hcount
        omega
      · obtain ⟨filled, hfilled, hlength, _⟩ := sparse_groups pulses (steps - pulses) (by omega)
        rw [hfilled, count_ofGroups, hlength]

/-- A filling with pulses in it is a turn of groups that differ by at most one pause. -/
theorem spread_even {pulses steps : Nat} (hpos : 0 < pulses) (hle : pulses ≤ steps) :
    ∃ (least : Nat) (filled : List Nat), ofGroups filled ~r spread pulses steps ∧ filled ≠ [] ∧
      ∀ group ∈ filled, least ≤ group ∧ group ≤ least + 1 := by
  rw [spread, if_neg (Nat.ne_of_gt hpos)]
  split
  · refine ⟨0, List.replicate steps 0, ?_, by simp; omega, fun group hgroup => ?_⟩
    · rw [ofGroups_replicate_zero]
    · rw [List.eq_of_mem_replicate hgroup]
      omega
  · split
    · obtain ⟨filled, hfilled, hlength, hgroups⟩ :=
        sparse_groups (steps - pulses) pulses (by omega)
      have hper : 0 < pulses / (steps - pulses) := Nat.div_pos (by omega) (by omega)
      have hsome : filled ≠ [] := List.ne_nil_of_length_pos (by omega)
      have hturned := not_ofGroups_isRotated hsome fun group hgroup => Nat.lt_of_lt_of_le hper (hgroups group hgroup).1
      rw [hfilled]
      refine ⟨0, exchanged filled, hturned, ?_, fun group hgroup => ⟨Nat.zero_le _, mem_exchanged hgroup⟩⟩
      obtain ⟨first, rest, rfl⟩ := List.exists_cons_of_ne_nil hsome
      simp [exchanged]
    · obtain ⟨filled, hfilled, hlength, hgroups⟩ :=
        sparse_groups pulses (steps - pulses) hpos
      exact ⟨_, filled, by rw [hfilled], List.ne_nil_of_length_pos (by omega), hgroups⟩

end Bucket

end TurtleMusic
