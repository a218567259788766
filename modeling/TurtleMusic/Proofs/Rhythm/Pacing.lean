import TurtleMusic.Proofs.Rhythm.Groups

/-!
# Paced patterns

A pattern can be paced by a level that rises by the number of pulses with every pause and falls by the number of pauses with every pulse, where a pulse falls as soon as the level allows it. The level tells how far the pulses are behind their even share, and it never leaves a range as wide as one round of the pattern; so windows of one size cannot differ by more than one pulse, wherever they start. A turn of a paced round is the same round started at another level.
-/

namespace TurtleMusic.Pattern

/-- Any two windows of a size, with the pattern taken as a circle, differ by at most one pulse. -/
def Balanced (pattern : Pattern) : Prop :=
  ∀ size ≤ pattern.length, ∀ first second,
    ((pattern.rotate first).take size).count true ≤ ((pattern.rotate second).take size).count true + 1

/-- Steps of a pattern with this ratio of pulses to pauses, from a level on. -/
def paced (pulses pauses : Nat) : (steps level : Nat) → Pattern
  | 0, _ => []
  | steps + 1, level =>
    if pauses ≤ level then true :: paced pulses pauses steps (level - pauses)
    else false :: paced pulses pauses steps (level + pulses)

/-- The level after some steps. -/
def levelAfter (pulses pauses : Nat) : (steps level : Nat) → Nat
  | 0, level => level
  | steps + 1, level => levelAfter pulses pauses steps (if pauses ≤ level then level - pauses else level + pulses)

variable {pulses pauses : Nat}

/-! ### One step after the other -/

theorem length_paced (steps level : Nat) : (paced pulses pauses steps level).length = steps := by
  induction steps generalizing level with
  | zero => rfl
  | succ steps ih =>
    rw [paced]
    split <;> rw [List.length_cons, ih]

theorem levelAfter_lt {steps level : Nat} (hlevel : level < pulses + pauses) :
    levelAfter pulses pauses steps level < pulses + pauses := by
  induction steps generalizing level with
  | zero => exact hlevel
  | succ steps ih =>
    apply ih
    split <;> omega

theorem paced_add (first second level : Nat) :
    paced pulses pauses (first + second) level =
      paced pulses pauses first level ++ paced pulses pauses second (levelAfter pulses pauses first level) := by
  induction first generalizing level with
  | zero => rw [Nat.zero_add]; rfl
  | succ first ih =>
    rw [Nat.add_right_comm, paced, paced, levelAfter]
    split <;> rw [ih, List.cons_append]

theorem levelAfter_add (first second level : Nat) :
    levelAfter pulses pauses (first + second) level =
      levelAfter pulses pauses second (levelAfter pulses pauses first level) := by
  induction first generalizing level with
  | zero => rw [Nat.zero_add]; rfl
  | succ first ih => rw [Nat.add_right_comm, levelAfter, levelAfter, ih]

/-- What the level has gained and the pulses have cost adds up to what the steps have brought. -/
theorem count_paced (pulses pauses steps level : Nat) :
    (paced pulses pauses steps level).count true * (pulses + pauses) + levelAfter pulses pauses steps level =
      level + steps * pulses := by
  induction steps generalizing level with
  | zero => simp [paced, levelAfter]
  | succ steps ih =>
    rw [paced, levelAfter, Nat.succ_mul]
    split
    · have hrest := ih (level - pauses)
      rw [List.count_cons_self, Nat.succ_mul]
      omega
    · have hrest := ih (level + pulses)
      rw [List.count_cons_of_ne (by decide)]
      omega

/-- Windows of one size differ by at most one pulse, whatever levels they start at. -/
theorem count_paced_le {level other : Nat} (hlevel : level < pulses + pauses) (hother : other < pulses + pauses) (steps : Nat) :
    (paced pulses pauses steps level).count true ≤ (paced pulses pauses steps other).count true + 1 := by
  have hcount := count_paced pulses pauses steps level
  have hcountOther := count_paced pulses pauses steps other
  have hafter : levelAfter pulses pauses steps other < pulses + pauses := levelAfter_lt hother
  -- The counts could differ by two only if the levels gave way by two whole rounds.
  apply Nat.le_of_lt_succ
  apply Nat.lt_of_mul_lt_mul_right (a := pulses + pauses)
  rw [Nat.succ_mul, Nat.succ_mul]
  omega

/-! ### Runs of pauses and of pulses -/

/-- As long as the level stays below the pauses, only pauses fall. -/
theorem paced_pauses {count level : Nat} (hbelow : level + count * pulses < pauses + pulses) :
    paced pulses pauses count level = List.replicate count false ∧
      levelAfter pulses pauses count level = level + count * pulses := by
  induction count generalizing level with
  | zero => exact ⟨rfl, by rw [Nat.zero_mul]; rfl⟩
  | succ count ih =>
    rw [Nat.succ_mul] at hbelow ⊢
    have hrest : level + pulses + count * pulses < pauses + pulses := by omega
    obtain ⟨hpaced, hafter⟩ := ih hrest
    have hnone : ¬pauses ≤ level := by omega
    rw [paced, levelAfter, if_neg hnone, if_neg hnone, hpaced, hafter]
    exact ⟨rfl, by omega⟩

theorem paced_full (count level : Nat) : paced pulses 0 count level = List.replicate count true := by
  induction count generalizing level with
  | zero => rfl
  | succ count ih =>
    rw [paced, if_pos (Nat.zero_le level), ih]
    rfl

/-! ### Rounds -/

/-- A round brings the level back to where it was, and its pulses are all there. -/
theorem round_paced {level : Nat} (hlevel : level < pulses + pauses) :
    levelAfter pulses pauses (pulses + pauses) level = level ∧
      (paced pulses pauses (pulses + pauses) level).count true = pulses := by
  have hcount := count_paced pulses pauses (pulses + pauses) level
  have hafter : levelAfter pulses pauses (pulses + pauses) level < pulses + pauses := levelAfter_lt hlevel
  have hback : levelAfter pulses pauses (pulses + pauses) level = level := by
    have hmod := congrArg (· % (pulses + pauses)) hcount
    simpa [Nat.mod_eq_of_lt hafter, Nat.mod_eq_of_lt hlevel] using hmod
  refine ⟨hback, Nat.eq_of_mul_eq_mul_right (show 0 < pulses + pauses by omega) ?_⟩
  rw [hback, Nat.mul_comm (pulses + pauses) pulses] at hcount
  omega

/-- A turn of a paced round is paced from the level that the turn has come to. -/
theorem rotate_paced {level : Nat} (hlevel : level < pulses + pauses) (turn : Nat) :
    ∃ start < pulses + pauses,
      (paced pulses pauses (pulses + pauses) level).rotate turn = paced pulses pauses (pulses + pauses) start := by
  obtain ⟨part, hpart, hturn⟩ : ∃ part ≤ pulses + pauses,
      (paced pulses pauses (pulses + pauses) level).rotate turn =
        (paced pulses pauses (pulses + pauses) level).rotate part := by
    refine ⟨turn % (pulses + pauses), Nat.le_of_lt (Nat.mod_lt _ (by omega)), ?_⟩
    rw [← List.rotate_mod, length_paced]
  obtain ⟨left, hleft⟩ := Nat.exists_eq_add_of_le hpart
  have hround := (round_paced hlevel).1
  refine ⟨levelAfter pulses pauses part level, levelAfter_lt hlevel, ?_⟩
  have hback : levelAfter pulses pauses left (levelAfter pulses pauses part level) = level := by
    rw [← levelAfter_add, ← hleft, hround]
  have hcut := List.rotate_append_length_eq (paced pulses pauses part level)
    (paced pulses pauses left (levelAfter pulses pauses part level))
  rw [length_paced, ← paced_add, ← hleft] at hcut
  rw [hturn, hcut, hleft, Nat.add_comm part left, paced_add, hback]

theorem take_paced {size steps : Nat} (hsize : size ≤ steps) (level : Nat) :
    (paced pulses pauses steps level).take size = paced pulses pauses size level := by
  obtain ⟨rest, rfl⟩ := Nat.exists_eq_add_of_le hsize
  rw [paced_add, List.take_left' (length_paced size level)]

theorem balanced_paced {level : Nat} (hlevel : level < pulses + pauses) :
    (paced pulses pauses (pulses + pauses) level).Balanced := by
  intro size hsize first second
  rw [length_paced] at hsize
  obtain ⟨start, hstart, hfirst⟩ := rotate_paced hlevel first
  obtain ⟨other, hother, hsecond⟩ := rotate_paced hlevel second
  rw [hfirst, hsecond, take_paced hsize, take_paced hsize]
  exact count_paced_le hstart hother size

end TurtleMusic.Pattern
