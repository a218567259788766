import TurtleMusic.Proofs.Rhythm.Pacing
import Mathlib.Data.Bool.Count

/-!
# The listing is maximally even

The division scheme spells the pattern of the next level in two words, a pause in the word it has just made and a pulse in the word before that. A paced pattern spelled so is paced again, from the level that mirrors the one it had. The last level is paced, and so is therefore every level up to the listing itself, whatever numbers it is made for.
-/

namespace TurtleMusic

open Pattern

/-! ### Led by a pulse -/

namespace Pattern

theorem isRotated_fromFirstPulse (pattern : Pattern) : pattern ~r pattern.fromFirstPulse := by
  refine ⟨(pattern.takeWhile (!·)).length, ?_⟩
  have hcut := List.rotate_append_length_eq (pattern.takeWhile (!·)) (pattern.dropWhile (!·))
  rwa [List.takeWhile_append_dropWhile] at hcut

theorem head_fromFirstPulse {pattern : Pattern} (hpulse : true ∈ pattern) : pattern.fromFirstPulse.head? = some true := by
  have hlead := takeWhile_fromFirstPulse hpulse
  have hmem : true ∈ pattern.fromFirstPulse := (isRotated_fromFirstPulse pattern).perm.mem_iff.1 hpulse
  cases hpattern : pattern.fromFirstPulse with
  | nil =>
    rw [hpattern] at hmem
    exact absurd hmem List.not_mem_nil
  | cons first rest =>
    rw [hpattern] at hlead
    cases first with
    | true => rfl
    | false => simp at hlead

end Pattern

namespace Bjorklund

/-! ### The divisions -/

/-- The scheme as it runs, with the divisors it meets. It goes on until a remainder is at most one, be a divisor nought or not. -/
inductive Lays : (older newer : Pattern) → (dividend divisor : Nat) → (divisors : List Nat) → (laid : Pattern) → Prop
  | last {older newer : Pattern} {dividend divisor : Nat} (hlast : dividend % divisor ≤ 1) :
      Lays older newer dividend divisor [divisor]
        (copies divisor (copies (dividend / divisor) newer ++ older) ++ if dividend % divisor = 0 then [] else newer)
  | next {older newer laid : Pattern} {dividend divisor : Nat} {divisors : List Nat} (hmore : 1 < dividend % divisor)
      (hrest : Lays newer (copies (dividend / divisor) newer ++ older) divisor (dividend % divisor) divisors laid) :
      Lays older newer dividend divisor (divisor :: divisors) laid

/-- The scheme comes to its end and divides by nothing but positive numbers. -/
theorem levels_lays (older newer : Pattern) (dividend divisor : Nat) (hdivisor : 0 < divisor) :
    ∃ divisors, Lays older newer dividend divisor divisors (levels older newer dividend divisor hdivisor) ∧
      ∀ used ∈ divisors, 0 < used := by
  fun_induction levels older newer dividend divisor hdivisor with
  | case1 older newer dividend divisor hdivisor word remainder hlast =>
    exact ⟨[divisor], Lays.last hlast, fun used hused => List.mem_singleton.1 hused ▸ hdivisor⟩
  | case2 older newer dividend divisor hdivisor word remainder hmore ih =>
    obtain ⟨divisors, hrest, hpositive⟩ := ih
    exact ⟨divisor :: divisors, Lays.next (Nat.lt_of_not_le hmore) hrest, List.forall_mem_cons.2 ⟨hdivisor, hpositive⟩⟩

/-! ### Spelling -/

/-- A pattern spelled in two words, one for its pulses and one for its pauses. -/
def spell (pulse pause pattern : Pattern) : Pattern := pattern.flatMap fun step => if step then pulse else pause

variable (pulse pause : Pattern)

theorem spell_pulse (rest : Pattern) : spell pulse pause (true :: rest) = pulse ++ spell pulse pause rest := rfl

theorem spell_pause (rest : Pattern) : spell pulse pause (false :: rest) = pause ++ spell pulse pause rest := rfl

theorem spell_append (left right : Pattern) :
    spell pulse pause (left ++ right) = spell pulse pause left ++ spell pulse pause right :=
  List.flatMap_append

theorem spell_copies (count : Nat) (word : Pattern) :
    spell pulse pause (copies count word) = copies count (spell pulse pause word) := by
  induction count with
  | zero => rfl
  | succ count ih =>
    rw [copies, copies, List.replicate_succ, List.replicate_succ, List.flatten_cons, List.flatten_cons, spell_append]
    exact congrArg (spell pulse pause word ++ ·) ih

theorem spell_single_pulse : spell pulse pause [true] = pulse := List.append_nil pulse

theorem spell_single_pause : spell pulse pause [false] = pause := List.append_nil pause

theorem spell_replicate_pulse (count : Nat) : spell pulse pause (List.replicate count true) = copies count pulse :=
  List.flatMap_replicate

theorem spell_replicate_pause (count : Nat) : spell pulse pause (List.replicate count false) = copies count pause :=
  List.flatMap_replicate

theorem copies_singleton (count : Nat) (step : Bool) : copies count [step] = List.replicate count step :=
  List.flatten_replicate_singleton

theorem length_spell (pattern : Pattern) :
    (spell pulse pause pattern).length = pattern.count true * pulse.length + pattern.count false * pause.length := by
  induction pattern with
  | nil => simp [spell]
  | cons step rest ih =>
    rw [spell, List.flatMap_cons, List.length_append, ← spell, ih]
    cases step with
    | true =>
      rw [List.count_cons_self, List.count_cons_of_ne (by decide), Nat.succ_mul, if_pos rfl]
      omega
    | false =>
      rw [List.count_cons_self, List.count_cons_of_ne (by decide), Nat.succ_mul, if_neg Bool.false_ne_true]
      omega

/-- The scheme treats words as it treats single steps. -/
theorem levels_spell (older newer : Pattern) (dividend divisor : Nat) (hdivisor : 0 < divisor) :
    levels (spell pulse pause older) (spell pulse pause newer) dividend divisor hdivisor =
      spell pulse pause (levels older newer dividend divisor hdivisor) := by
  fun_induction levels older newer dividend divisor hdivisor with
  | case1 older newer dividend divisor hdivisor word remainder hlast =>
    have hlastSame : dividend % divisor ≤ 1 := hlast
    rw [levels, dif_pos hlastSame, spell_append, spell_copies, spell_append, spell_copies]
    by_cases hzero : dividend % divisor = 0
    · rw [if_pos hzero, if_pos hzero]
      rfl
    · rw [if_neg hzero, if_neg hzero]
  | case2 older newer dividend divisor hdivisor word remainder hmore ih =>
    have hmoreSame : ¬dividend % divisor ≤ 1 := hmore
    rw [spell_append, spell_copies] at ih
    rw [levels, dif_neg hmoreSame, ih]

/-! ### Levels -/

variable {pulses pauses quotient : Nat}

/-- A paced pattern spelled with a run of pauses and a pulse for every pause, and a single pause for every pulse, is paced again. -/
theorem spell_paced {level : Nat} (hlevel : level < pulses + pauses) (steps : Nat) :
    spell [false] (List.replicate quotient false ++ [true]) (paced pulses pauses steps level) =
      paced pauses (quotient * pauses + pulses)
        (spell [false] (List.replicate quotient false ++ [true]) (paced pulses pauses steps level)).length
        (pulses + pauses - 1 - level) := by
  induction steps generalizing level with
  | zero => rfl
  | succ steps ih =>
    rw [paced]
    split
    · next hpulse =>
      have hbelow : level - pauses < pulses + pauses := by omega
      have hrest := ih hbelow
      have hlow : ¬quotient * pauses + pulses ≤ pulses + pauses - 1 - level := by omega
      have hnext : pulses + pauses - 1 - (level - pauses) = pulses + pauses - 1 - level + pauses := by omega
      rw [spell_pulse, List.singleton_append, List.length_cons, paced, if_neg hlow, ← hnext, ← hrest]
    · next hpause =>
      have hbelow : level + pulses < pulses + pauses := by omega
      have hrest := ih hbelow
      have hrun : pulses + pauses - 1 - level + quotient * pauses < quotient * pauses + pulses + pauses := by omega
      obtain ⟨hpaced, hafter⟩ := paced_pauses hrun
      have hhigh : quotient * pauses + pulses ≤ pulses + pauses - 1 - level + quotient * pauses := by omega
      have hnext : pulses + pauses - 1 - (level + pulses) =
          pulses + pauses - 1 - level + quotient * pauses - (quotient * pauses + pulses) := by omega
      rw [spell_pause, List.length_append, List.length_append, List.length_replicate, List.length_singleton,
        Nat.add_assoc, paced_add, hpaced, hafter, Nat.add_comm 1, paced, if_pos hhigh, ← hnext, ← hrest, List.append_assoc,
        List.singleton_append]

/-- A level with nothing or one left over is paced. -/
theorem paced_last {rest count : Nat} (hrest : rest ≤ 1) (hcount : 0 < count) :
    paced rest count (rest + count) 0 = List.replicate count false ++ List.replicate rest true := by
  rcases Nat.le_one_iff_eq_zero_or_eq_one.1 hrest with rfl | rfl
  · rw [Nat.zero_add, (paced_pauses (by omega)).1]
    exact (List.append_nil _).symm
  · have hbelow : 0 + count * 1 < count + 1 := by omega
    obtain ⟨hpaced, hafter⟩ := paced_pauses hbelow
    rw [Nat.add_comm 1 count, paced_add, hpaced, hafter, paced, if_pos (by omega)]
    rfl

/-- A spelled round lasts one step for each of its pulses, and one more than the quotient for each of its pauses. -/
theorem length_spell_round {level : Nat} (hlevel : level < pulses + pauses) :
    (spell [false] (List.replicate quotient false ++ [true]) (paced pulses pauses (pulses + pauses) level)).length =
      pauses + (quotient * pauses + pulses) := by
  have hpulses := (round_paced hlevel).2
  have hpauses : (paced pulses pauses (pulses + pauses) level).count false = pauses := by
    have hlength := List.count_false_add_count_true (paced pulses pauses (pulses + pauses) level)
    rw [length_paced, hpulses] at hlength
    omega
  rw [length_spell, hpulses, hpauses, List.length_append, List.length_replicate, List.length_singleton,
    List.length_singleton, Nat.mul_comm pauses, Nat.succ_mul]
  omega

variable {dividend divisor : Nat} (hdivisor : 0 < divisor)

/-- Where the scheme ends, it spells what is left to lay. -/
theorem levels_last (hlast : dividend % divisor ≤ 1) :
    levels [true] [false] dividend divisor hdivisor = spell [false] (List.replicate (dividend / divisor) false ++ [true])
      (paced (dividend % divisor) divisor (dividend % divisor + divisor) 0) := by
  rw [levels, dif_pos hlast, copies_singleton, paced_last hlast hdivisor, spell_append, spell_replicate_pause,
    spell_replicate_pulse]
  rcases Nat.le_one_iff_eq_zero_or_eq_one.1 hlast with hzero | hone
  · rw [if_pos hzero, hzero]
    rfl
  · rw [if_neg (by omega), hone]
    rfl

/-- Elsewhere it spells the next level. -/
theorem levels_next (hmore : ¬dividend % divisor ≤ 1) :
    levels [true] [false] dividend divisor hdivisor = spell [false] (List.replicate (dividend / divisor) false ++ [true])
      (levels [true] [false] divisor (dividend % divisor) (Nat.lt_trans Nat.zero_lt_one (Nat.lt_of_not_le hmore))) := by
  rw [levels, dif_neg hmore, copies_singleton, ← levels_spell, spell_single_pulse, spell_single_pause]

/-- Whatever is divided, the scheme lays a paced round with a pulse for each unit of the divisor and a pause for each of the dividend. -/
theorem levels_paced (dividend : Nat) : ∃ level < divisor + dividend,
    levels [true] [false] dividend divisor hdivisor = paced divisor dividend (divisor + dividend) level := by
  induction divisor using Nat.strongRecOn generalizing dividend with
  | ind divisor ih =>
    have hdivision : dividend / divisor * divisor + dividend % divisor = dividend := Nat.div_add_mod' dividend divisor
    obtain ⟨level, hlevel, hspelled⟩ : ∃ level < dividend % divisor + divisor,
        levels [true] [false] dividend divisor hdivisor =
          spell [false] (List.replicate (dividend / divisor) false ++ [true])
            (paced (dividend % divisor) divisor (dividend % divisor + divisor) level) := by
      by_cases hlast : dividend % divisor ≤ 1
      · exact ⟨0, by omega, levels_last hdivisor hlast⟩
      · have hmore : 0 < dividend % divisor := by omega
        obtain ⟨level, hlevel, hpaced⟩ := ih (dividend % divisor) (Nat.mod_lt _ hdivisor) hmore divisor
        exact ⟨level, hlevel, by rw [levels_next hdivisor hlast, hpaced]⟩
    refine ⟨dividend % divisor + divisor - 1 - level, by omega, ?_⟩
    rw [hspelled, spell_paced hlevel, length_spell_round hlevel, hdivision]

/-- There is a pulse for each unit of the divisor, so there is one to start from. -/
theorem true_mem_levels : true ∈ levels [true] [false] dividend divisor hdivisor := by
  obtain ⟨level, hlevel, hlaid⟩ := levels_paced hdivisor dividend
  rw [hlaid, ← List.count_pos_iff, (round_paced hlevel).2]
  exact hdivisor

/-! ### The listing -/

/-- The listing of at least one step is paced. -/
theorem listing_paced {pulses steps : Nat} (hle : pulses ≤ steps) (hsteps : 0 < steps) :
    ∃ level < pulses + (steps - pulses),
      listing pulses steps = paced pulses (steps - pulses) (pulses + (steps - pulses)) level := by
  rw [listing]
  split
  · next hnone =>
    subst hnone
    refine ⟨0, by omega, ?_⟩
    rw [Nat.zero_add, Nat.sub_zero, (paced_pauses (by omega)).1]
  · next hsome =>
    split
    · next hfull =>
      subst hfull
      refine ⟨0, by omega, ?_⟩
      rw [Nat.sub_self, paced_full]
      rfl
    · have hpulses : 0 < pulses := by omega
      obtain ⟨level, hlevel, hlaid⟩ := levels_paced hpulses (steps - pulses)
      obtain ⟨turn, hturn⟩ := isRotated_fromFirstPulse (levels [true] [false] (steps - pulses) pulses hpulses)
      rw [← hturn, hlaid]
      exact rotate_paced hlevel turn

theorem listing_even {pulses steps : Nat} (hle : pulses ≤ steps) :
    (listing pulses steps).length = steps ∧ (listing pulses steps).count true = pulses ∧ (listing pulses steps).Balanced := by
  rcases Nat.eq_zero_or_pos steps with rfl | hsteps
  · obtain rfl := Nat.le_zero.1 hle
    exact ⟨rfl, rfl, fun _ _ _ _ => by simp [listing]⟩
  · obtain ⟨level, hlevel, hpaced⟩ := listing_paced hle hsteps
    rw [hpaced]
    exact ⟨(length_paced _ _).trans (by omega), (round_paced hlevel).2, balanced_paced hlevel⟩

theorem listing_lays {pulses steps : Nat} (hpulses : 0 < pulses) (hless : pulses < steps) :
    ∃ divisors laid, Lays [true] [false] (steps - pulses) pulses divisors laid ∧ (∀ divisor ∈ divisors, 0 < divisor) ∧
      true ∈ laid ∧ listing pulses steps = laid.fromFirstPulse := by
  obtain ⟨divisors, hlays, hpositive⟩ := levels_lays [true] [false] (steps - pulses) pulses hpulses
  refine ⟨divisors, _, hlays, hpositive, true_mem_levels hpulses, ?_⟩
  rw [listing, dif_neg (Nat.ne_of_gt hpulses), if_neg (Nat.ne_of_lt hless)]

theorem listing_head {pulses steps : Nat} (hpulses : 0 < pulses) (hle : pulses ≤ steps) :
    (listing pulses steps).head? = some true := by
  rcases Nat.eq_or_lt_of_le hle with rfl | hless
  · rw [listing, dif_neg (Nat.ne_of_gt hpulses), if_pos rfl, List.head?_replicate, if_neg (Nat.ne_of_gt hpulses)]
  · obtain ⟨_, laid, _, _, hpulse, hlisting⟩ := listing_lays hpulses hless
    rw [hlisting, head_fromFirstPulse hpulse]

end Bjorklund

/-- The listing for any numbers fills its grid, has the pulses that were asked for as far as they fit, starts with one if it has any, and is balanced. Where it is not all pulses or all pauses, the division scheme lays it in finitely many divisions, all of them by positive numbers. -/
theorem bjorklund_even (steps pulses : Int) :
    let pattern : Pattern := bjorklund steps pulses
    let grid := max 0 steps
    let struck := max 0 (min pulses grid)
    (pattern.length : Int) = grid ∧ (pattern.count true : Int) = struck ∧
      (0 < struck → pattern.head? = some true) ∧ pattern.Balanced ∧
      (0 < struck → struck < grid → ∃ divisors laid,
        Bjorklund.Lays [true] [false] (grid - struck).toNat struck.toNat divisors laid ∧ (∀ divisor ∈ divisors, 0 < divisor) ∧
          true ∈ laid ∧ pattern = laid.fromFirstPulse) := by
  intro pattern grid struck
  have hgrid : (steps.toNat : Int) = grid := (Int.toNat_eq_max steps).trans (Int.max_comm _ _)
  have hstruck : (clampedPulses pulses grid : Int) = struck := Int.toNat_of_nonneg (Int.le_max_left _ _)
  have hle : clampedPulses pulses grid ≤ steps.toNat := EuclideanRhythm.clampedPulses_le pulses steps
  have hpattern : pattern = Bjorklund.listing (clampedPulses pulses grid) steps.toNat := rfl
  generalize clampedPulses pulses grid = given at hstruck hle hpattern
  generalize steps.toNat = whole at hgrid hle hpattern
  clear_value pattern grid struck
  subst hgrid hstruck
  obtain ⟨hlength, hcount, hbalanced⟩ := Bjorklund.listing_even hle
  rw [hpattern]
  refine ⟨by rw [hlength], by rw [hcount], fun hpos => ?_, hbalanced, fun hpos hless => ?_⟩
  · exact Bjorklund.listing_head (by omega) hle
  · have hsome : 0 < given := by omega
    have hroom : given < whole := by omega
    have hlays := Bjorklund.listing_lays hsome hroom
    rwa [Int.toNat_natCast, Int.toNat_sub]

end TurtleMusic
