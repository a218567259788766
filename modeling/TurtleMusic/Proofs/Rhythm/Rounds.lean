import TurtleMusic.Proofs.Rhythm.Groups

/-!
# Patterns as rounds of pulse groups

A pattern that repeats is a round: pulses, each with the pauses up to the next one, where the pauses before the first pulse belong to the last. Turning a pattern turns its round, and both measures of distance, the gaps between pulses and the lengths of pulse groups, are read off the round.
-/

namespace TurtleMusic.Pattern

/-- Pulse groups one after the other, each given by the number of pauses behind its pulse. -/
def ofGroups (groups : List Nat) : Pattern := groups.flatMap fun pauses => true :: List.replicate pauses false

/-- The pulse groups of a pattern that repeats; the pauses that lead it belong to the last group. -/
def Round (pattern : Pattern) (groups : List Nat) : Prop :=
  ∃ lead front last, pattern = List.replicate lead false ++ ofGroups (front ++ [last]) ∧ groups = front ++ [last + lead]

theorem ofGroups_cons (pauses : Nat) (groups : List Nat) :
    ofGroups (pauses :: groups) = true :: (List.replicate pauses false ++ ofGroups groups) := rfl

theorem ofGroups_append (left right : List Nat) : ofGroups (left ++ right) = ofGroups left ++ ofGroups right :=
  List.flatMap_append

/-- Pauses behind the last group make it longer. -/
theorem ofGroups_concat_pauses (front : List Nat) (last more : Nat) :
    ofGroups (front ++ [last]) ++ List.replicate more false = ofGroups (front ++ [last + more]) := by
  rw [ofGroups_append, ofGroups_append, List.append_assoc, ofGroups_cons, ofGroups_cons, List.replicate_add]
  simp [ofGroups]

theorem ofGroups_replicate_zero (count : Nat) : ofGroups (List.replicate count 0) = List.replicate count true := by
  induction count with
  | zero => rfl
  | succ count ih => rw [List.replicate_succ, ofGroups_cons, ih, List.replicate_zero, List.nil_append, List.replicate_succ]

theorem length_ofGroups (groups : List Nat) : (ofGroups groups).length = groups.sum + groups.length := by
  induction groups with
  | nil => rfl
  | cons pauses rest ih =>
    rw [ofGroups_cons, List.length_cons, List.length_append, List.length_replicate, ih, List.sum_cons, List.length_cons]
    omega

theorem count_ofGroups (groups : List Nat) : (ofGroups groups).count true = groups.length := by
  induction groups with
  | nil => rfl
  | cons pauses rest ih =>
    rw [ofGroups_cons, List.count_cons_self, List.count_append, ih, List.count_replicate]
    simp

theorem round_ofGroups {groups : List Nat} (hgroups : groups ≠ []) : Round (ofGroups groups) groups := by
  refine ⟨0, groups.dropLast, groups.getLast hgroups, ?_, ?_⟩
  · rw [List.dropLast_append_getLast, List.replicate_zero, List.nil_append]
  · rw [Nat.add_zero, List.dropLast_append_getLast]

/-- A round that starts on a pulse is made of its groups and nothing else. -/
theorem Round.eq_ofGroups {pattern : Pattern} {groups : List Nat} (hround : Round pattern groups)
    (hhead : pattern.head? = some true) : pattern = ofGroups groups := by
  obtain ⟨lead, front, last, rfl, rfl⟩ := hround
  cases lead with
  | zero => simp
  | succ lead => simp [List.replicate_succ] at hhead

theorem head_ofGroups {groups : List Nat} (hgroups : groups ≠ []) : (ofGroups groups).head? = some true := by
  obtain ⟨first, rest, rfl⟩ := List.exists_cons_of_ne_nil hgroups
  rfl

theorem Round.ne_nil {pattern : Pattern} {groups : List Nat} (hround : Round pattern groups) : groups ≠ [] := by
  obtain ⟨lead, front, last, _, rfl⟩ := hround
  exact List.append_ne_nil_of_right_ne_nil front (List.cons_ne_nil _ _)

/-! ### Turning -/

/-- Turning left by one step leaves the round as it is or moves its first group to the end. -/
theorem Round.rotate_one {pattern : Pattern} {groups : List Nat} (hround : Round pattern groups) :
    ∃ after, Round (pattern.rotate 1) after ∧ groups ~r after := by
  obtain ⟨lead, front, last, rfl, rfl⟩ := hround
  cases lead with
  | succ lead =>
    refine ⟨_, ⟨lead, front, last + 1, ?_, rfl⟩, ?_⟩
    · rw [List.replicate_succ, List.cons_append, List.rotate_cons_succ, List.rotate_zero, List.append_assoc,
        ← ofGroups_concat_pauses]
      rfl
    · rw [Nat.add_right_comm, Nat.add_assoc]
  | zero =>
    rw [List.replicate_zero, List.nil_append, Nat.add_zero]
    cases front with
    | nil =>
      refine ⟨_, ⟨last, [], 0, ?_, rfl⟩, by simp⟩
      simp [ofGroups, List.rotate_cons_succ]
    | cons first middle =>
      refine ⟨_, ⟨first, middle ++ [last], 0, ?_, rfl⟩, ⟨1, ?_⟩⟩
      · rw [List.cons_append, ofGroups_cons, List.rotate_cons_succ, List.rotate_zero, ofGroups_append _ [0],
          List.append_assoc]
        rfl
      · rw [Nat.zero_add, List.cons_append, List.rotate_cons_succ, List.rotate_zero]

/-- Patterns that are turns of each other have the same groups, turned as well. -/
theorem Round.of_isRotated {before after : Pattern} {groups : List Nat} (hturned : before ~r after)
    (hround : Round before groups) : ∃ turned, Round after turned ∧ groups ~r turned := by
  obtain ⟨count, rfl⟩ := hturned
  induction count with
  | zero => exact ⟨groups, by rwa [List.rotate_zero], List.IsRotated.refl groups⟩
  | succ count ih =>
    obtain ⟨middle, hmiddle, hearlier⟩ := ih
    obtain ⟨turned, hturned, hlater⟩ := hmiddle.rotate_one
    rw [List.rotate_rotate] at hturned
    exact ⟨turned, hturned, hearlier.trans hlater⟩

/-! ### Distances -/

/-- A group ends where the next one begins. -/
theorem takeWhile_pauses (pauses : Nat) (groups : List Nat) :
    (List.replicate pauses false ++ ofGroups groups).takeWhile (!·) = List.replicate pauses false := by
  rw [List.takeWhile_append_of_pos fun step hstep => by rw [List.eq_of_mem_replicate hstep]; rfl]
  cases groups with
  | nil => exact List.append_nil _
  | cons first rest => rw [ofGroups_cons, List.takeWhile_cons_of_neg (by decide), List.append_nil]

theorem dropWhile_pauses (pauses : Nat) (groups : List Nat) :
    (List.replicate pauses false ++ ofGroups groups).dropWhile (!·) = ofGroups groups := by
  rw [List.dropWhile_append_of_pos fun step hstep => by rw [List.eq_of_mem_replicate hstep]; rfl]
  cases groups with
  | nil => rfl
  | cons first rest => rw [ofGroups_cons, List.dropWhile_cons_of_neg (by decide)]

theorem fromFirstPulse_of_round {lead last : Nat} {front : List Nat} :
    fromFirstPulse (List.replicate lead false ++ ofGroups (front ++ [last])) = ofGroups (front ++ [last + lead]) := by
  rw [fromFirstPulse, takeWhile_pauses, dropWhile_pauses, ofGroups_concat_pauses]

/-- Led by its first pulse, a round is made of its groups. -/
theorem Round.fromFirstPulse_eq {pattern : Pattern} {groups : List Nat} (hround : Round pattern groups) :
    pattern.fromFirstPulse = ofGroups groups := by
  obtain ⟨lead, front, last, rfl, rfl⟩ := hround
  exact fromFirstPulse_of_round

theorem legato_pauses (pauses : Nat) (rest : Pattern) :
    legato (List.replicate pauses false ++ rest) = List.replicate pauses 0 ++ legato rest := by
  induction pauses with
  | zero => rfl
  | succ pauses ih => rw [List.replicate_succ, List.cons_append, legato, ih, List.replicate_succ, List.cons_append]

theorem filter_legato_ofGroups (groups : List Nat) :
    (legato (ofGroups groups)).filter (· ≠ 0) = groups.map (· + 1) := by
  induction groups with
  | nil => rfl
  | cons pauses rest ih =>
    rw [ofGroups_cons, legato, takeWhile_pauses, legato_pauses, List.length_replicate, List.filter_cons_of_pos (by simp),
      List.filter_append, ih, List.filter_replicate_of_neg (by simp)]
    rfl

theorem onsetsFrom_pauses (position pauses : Nat) (rest : Pattern) :
    onsetsFrom position (List.replicate pauses false ++ rest) = onsetsFrom (position + pauses) rest := by
  induction pauses generalizing position with
  | zero => rfl
  | succ pauses ih => rw [List.replicate_succ, List.cons_append, onsetsFrom, ih, Nat.add_assoc, Nat.add_comm 1]

theorem onsetsFrom_ofGroups_cons (position pauses : Nat) (groups : List Nat) :
    onsetsFrom position (ofGroups (pauses :: groups)) = position :: onsetsFrom (position + 1 + pauses) (ofGroups groups) := by
  rw [ofGroups_cons, onsetsFrom, onsetsFrom_pauses]

/-- The distances between the pulses of groups, the last of which is followed by a pulse after some more pauses. -/
theorem distances_ofGroups (position lead last : Nat) (front : List Nat) :
    ∃ rest, onsetsFrom position (ofGroups (front ++ [last])) = position :: rest ∧
      List.zipWith (· - ·) (rest ++ [position + ((ofGroups (front ++ [last])).length + lead)]) (position :: rest) =
        (front ++ [last + lead]).map (· + 1) := by
  induction front generalizing position with
  | nil =>
    refine ⟨[], onsetsFrom_ofGroups_cons position last [], ?_⟩
    rw [List.nil_append, List.nil_append, length_ofGroups]
    simp
    omega
  | cons first middle ih =>
    obtain ⟨rest, honsets, hdistances⟩ := ih (position + 1 + first)
    refine ⟨_, onsetsFrom_ofGroups_cons position first (middle ++ [last]), ?_⟩
    have hend : position + ((ofGroups (first :: middle ++ [last])).length + lead) =
        position + 1 + first + ((ofGroups (middle ++ [last])).length + lead) := by
      rw [length_ofGroups, length_ofGroups, List.cons_append, List.sum_cons, List.length_cons]
      omega
    rw [hend, honsets, List.cons_append, List.zipWith_cons_cons, hdistances, List.cons_append, List.map_cons]
    congr 1
    omega

/-- The gaps of a round: each pulse is one step and its pauses from the next. -/
theorem Round.gaps_eq {pattern : Pattern} {groups : List Nat} (hround : Round pattern groups) :
    pattern.gaps = groups.map (· + 1) := by
  obtain ⟨lead, front, last, rfl, rfl⟩ := hround
  obtain ⟨rest, honsets, hdistances⟩ := distances_ofGroups (0 + lead) lead last front
  rw [gaps, onsets, onsetsFrom_pauses, honsets, List.length_append, List.length_replicate,
    Nat.add_comm lead (ofGroups (front ++ [last])).length]
  exact hdistances

theorem Round.filter_legato_eq {pattern : Pattern} {groups : List Nat} (hround : Round pattern groups) :
    (pattern.fromFirstPulse.legato).filter (· ≠ 0) = groups.map (· + 1) := by
  rw [hround.fromFirstPulse_eq, filter_legato_ofGroups]

end TurtleMusic.Pattern
