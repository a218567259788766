import TurtleMusic.Proofs.Midi.Tracks

/-!
# What can be exported

A token stands in the way of export if it names a number that has no place in a message. Of the tempos that reading accepts, those below four beats per minute make a beat too long for its three bytes, and those beyond the range of doubles cannot be divided by.
-/

namespace TurtleMusic.Midi

open TurtleMusic.Number

theorem le_shiftRight_iff (least n places : Nat) : least ≤ n >>> places ↔ least * 2 ^ places ≤ n := by
  rw [Nat.shiftRight_eq_div_pow]
  exact Nat.le_div_iff_mul_le (Nat.two_pow_pos places)

theorem exceedsDouble_iff (n : Nat) : exceedsDouble n = true ↔ 0x3fffffffffffff * 2 ^ 970 ≤ n := by
  rw [exceedsDouble, decide_eq_true_eq]
  exact le_shiftRight_iff _ n 970

theorem roundDiv_bounds (dividend divisor : Nat) :
    dividend / divisor ≤ roundDiv dividend divisor ∧ roundDiv dividend divisor ≤ dividend / divisor + 1 := by
  rw [roundDiv]
  split <;> omega

/-- The beat of a tempo fits into its place from four beats per minute on. -/
theorem roundDiv_le_iff {beats : Nat} (hbeats : 0 < beats) : roundDiv 60000000 beats ≤ 16777215 ↔ 4 ≤ beats := by
  obtain ⟨hlow, hhigh⟩ := roundDiv_bounds 60000000 beats
  constructor
  · intro hfits
    by_contra hslow
    have hquotient : 60000000 / 3 ≤ 60000000 / beats := Nat.div_le_div_left (by omega) hbeats
    omega
  · intro hfast
    have hquotient : 60000000 / beats ≤ 60000000 / 4 := Nat.div_le_div_left hfast (by decide)
    omega

theorem microsecondsPerBeat_isOk_iff {beats : Int} :
    (∃ length, microsecondsPerBeat beats = .ok length) ↔ 4 ≤ beats ∧ exceedsDouble beats.toNat = false := by
  by_cases hpos : beats ≤ 0
  · rw [microsecondsPerBeat, if_pos hpos]
    exact iff_of_false (fun ⟨_, hlength⟩ => by cases hlength) fun hbounds => by omega
  · have hfits := roundDiv_le_iff (show 0 < beats.toNat by omega)
    rw [microsecondsPerBeat, if_neg hpos]
    cases exceedsDouble beats.toNat with
    | true => exact iff_of_false (fun ⟨_, hlength⟩ => by cases hlength) fun hbounds => by cases hbounds.2
    | false =>
      rw [if_neg Bool.false_ne_true]
      dsimp only
      split
      · exact iff_of_false (fun ⟨_, hlength⟩ => by cases hlength) fun hbounds => by omega
      · exact iff_of_true ⟨_, rfl⟩ ⟨by omega, rfl⟩

theorem dataByte_isOk {value : Int} (hlow : 0 ≤ value) (hhigh : value ≤ 127) : ∃ byte, dataByte value = .ok byte :=
  ⟨_, if_pos ⟨hlow, hhigh⟩⟩

/-- Every number of the token has a place in a message or in the name of a track. -/
def Exportable : Token → Prop
  | .tempo beats => 4 ≤ beats ∧ exceedsDouble beats.toNat = false
  | .voice number | .layer number => number.natAbs < 10 ^ Fault.digitLimit
  | .control controller value => (0 ≤ controller ∧ controller ≤ 127) ∧ 0 ≤ value
  | .notes first others => ∀ note ∈ first :: others, 0 ≤ note.pitch ∧ note.pitch ≤ 127
  | _ => True

theorem entries_isOk_of_step {token : Token} (htoken : Exportable token) {reading : Reading} {event : Event}
    (hevent : event ∈ (reading.step token).1) : ∃ found, entries event = .ok found := by
  cases token with
  | tempo beats =>
    rw [List.mem_singleton.1 hevent]
    exact Except.map_isOk _ (microsecondsPerBeat_isOk_iff.2 htoken)
  | instrument number =>
    rw [List.mem_singleton.1 hevent]
    exact ⟨_, rfl⟩
  | control controller value =>
    rw [List.mem_singleton.1 hevent]
    obtain ⟨hcontroller, hvalue⟩ := htoken
    have hleast : 0 ≤ min value 127 := by omega
    exact Except.bind_isOk (dataByte_isOk hcontroller.1 hcontroller.2) fun _ _ =>
      Except.bind_isOk (dataByte_isOk hleast (Int.min_le_right value 127)) fun _ _ => ⟨_, rfl⟩
  | notes first others =>
    obtain ⟨note, hnote, rfl⟩ := List.mem_map.1 hevent
    obtain ⟨hlow, hhigh⟩ := htoken note hnote
    exact Except.map_isOk _ (dataByte_isOk hlow hhigh)
  | _ => exact absurd hevent List.not_mem_nil

/-- Tokens without a number that is out of place are exported. -/
theorem ofTokens_isOk {tokens : List Token} (htokens : ∀ token ∈ tokens, Exportable token) :
    ∃ file, File.ofEvents (Event.ofTokens tokens) = .ok file := by
  have hchooses : ∀ token ∈ tokens, token.Chooses fun number => number.natAbs < 10 ^ Fault.digitLimit := by
    intro token htoken
    have hexportable := htokens token htoken
    cases token with
    | voice | layer => exact hexportable
    | _ => trivial
  refine ofEvents_isOk (fun event hevent => ?_) fun event hevent => ?_
  · obtain ⟨before, token, after, rfl, hown⟩ := Reading.exists_step_of_mem_run hevent
    exact entries_isOk_of_step (htokens token (List.mem_append_right _ List.mem_cons_self)) hown
  · obtain ⟨hvoice, hlayer⟩ := Reading.slot_of_mem_ofTokens (Nat.pow_pos (by decide)) hchooses hevent
    exact pairName_isOk hvoice hlayer

/-- A tempo among exported tokens can be exported by itself. -/
theorem tempo_of_ofEvents {tokens : List Token} {file : File} (hfile : File.ofEvents (Event.ofTokens tokens) = .ok file)
    {beats : Int} (hbeats : .tempo beats ∈ tokens) : 4 ≤ beats ∧ exceedsDouble beats.toNat = false := by
  obtain ⟨before, after, rfl⟩ := List.append_of_mem hbeats
  have hevent : (Reading.past {} before).event (.tempo beats) ∈ Event.ofTokens (before ++ .tempo beats :: after) := by
    rw [Event.ofTokens, Reading.run_append, Reading.run]
    exact List.mem_append_right _ (List.mem_append_left _ List.mem_cons_self)
  obtain ⟨found, hfound⟩ := (ofEvents_eq_ok_iff.1 hfile).1 _ hevent
  obtain ⟨length, hlength, _⟩ := Except.map_eq_ok_iff.1 hfound
  exact microsecondsPerBeat_isOk_iff.1 ⟨length, hlength⟩

end TurtleMusic.Midi
