import TurtleMusic.Proofs.Outcome
import TurtleMusic.Proofs.Score.Length
import TurtleMusic.Score.Basic

/-!
# Lengths that are refused

Notes, rests and harmonies are written by three calls, each with a length. A call is refused when the length that would be encoded is not positive, and leaves no trace then. For a rest that joins the one before it this is the sum of both: a length that is not positive by itself passes where the rest before outweighs it, and makes that rest shorter.
-/

namespace TurtleMusic.Score

/-- A call that writes something of some length. -/
inductive Call where
  | note (pitch length : Int) (extend : Bool)
  | rest (length : Int) (merge : Bool)
  | harmony (pitches : List Int) (length : Int)
  deriving DecidableEq

namespace Call

def length : Call → Int
  | note _ length _ | rest length _ | harmony _ length => length

/-- What the call does to a score, step by step. -/
def act : Call → Act Score Unit
  | note pitch length extend => writeNote pitch length extend
  | rest length merge => writeRest length merge
  | harmony pitches length => writeHarmony pitches length

/-- What the call makes of a score. -/
def on (score : Score) (call : Call) : Except Fault Score := call.act.after score

/-- Whether the call writes a rest that joins one before it; a harmony without pitches does. -/
def merges : Call → Bool
  | rest _ merge => merge
  | harmony pitches _ => pitches.isEmpty
  | note _ _ _ => false

end Call

/-- The score that a call leaves behind, and how the call ended. -/
def attempt (score : Score) (call : Call) : Outcome Score Unit := call.act.outcome score

/-- The length of the rest that the call would join, nought if there is none. -/
def joined (score : Score) (call : Call) : Nat :=
  if call.merges then (score.written.head?.bind Token.restUnits?).getD 0 else 0

variable {score : Score} {call : Call}

/-! ### Checks before writes -/

theorem careful_writeNote (pitch length : Int) (extend : Bool) : (writeNote pitch length extend).Careful := by
  refine (Act.looks_check _).bind fun codes => Act.looks_get.bind fun score => Act.Sure.careful ?_
  split <;> exact (Act.sure_modify _).bind fun _ => Act.sure_modify _

theorem careful_writeRest (length : Int) (merge : Bool) : (writeRest length merge).Careful := by
  refine Act.looks_get.bind fun score => ?_
  split <;> exact (Act.looks_check _).careful.bind fun codes => Act.sure_modify _

theorem careful_writeHarmony (pitches : List Int) (length : Int) : (writeHarmony pitches length).Careful := by
  cases pitches with
  | nil => exact careful_writeRest length true
  | cons first others => exact (Act.looks_check _).careful.bind fun codes => (Act.sure_modify _).bind fun _ => Act.sure_modify _

/-- Every length is encoded before the first token is written. -/
theorem Call.careful (call : Call) : call.act.Careful := by
  cases call with
  | note pitch length extend => exact careful_writeNote pitch length extend
  | rest length merge => exact careful_writeRest length merge
  | harmony pitches length => exact careful_writeHarmony pitches length

theorem attempt_error {fault : Fault} (hrefused : call.on score = .error fault) :
    score.attempt call = ⟨score, .quiet (.error fault)⟩ :=
  call.careful.outcome_of_after hrefused

theorem attempt_ok {after : Score} (hdone : call.on score = .ok after) : score.attempt call = ⟨after, .quiet (.ok ())⟩ :=
  Act.outcome_of_after hdone

/-! ### Lengths that are not positive -/

theorem on_apart (score : Score) (hlength : call.length ≤ 0) (happart : call.merges = false) :
    call.on score = .error (.lengthNotPositive call.length) := by
  have hrefused : Codes.ofLength call.length = .error (.lengthNotPositive call.length) := if_pos hlength
  cases call with
  | note pitch length extend => exact (score.addNote_eq pitch length extend).trans (congrArg (Except.map _) hrefused)
  | rest length merge =>
    rw [Call.merges] at happart
    rw [happart]
    exact (score.addRest_eq length false).trans (congrArg (Except.map _) hrefused)
  | harmony pitches length =>
    cases pitches with
    | nil => cases happart
    | cons first others => exact (score.addHarmony_cons first others length).trans (congrArg (Except.map _) hrefused)

theorem addRest_short {length : Int} (hlength : length ≤ 0) : score.addRest length true =
    (Codes.ofLength (length + (score.written.head?.bind Token.restUnits?).getD 0 : Int)).map fun codes =>
      score.replaceNewest (.pause codes) := by
  rw [addRest_eq, if_pos rfl]
  cases score.written.head?.bind Token.restUnits? with
  | some before => rfl
  | none =>
    dsimp only [Option.getD_none]
    rw [Int.natCast_zero, Int.add_zero, Codes.ofLength, if_pos hlength]
    rfl

/-- A rest that may join the one before it is written in its place, with both lengths. -/
theorem on_merging (score : Score) (hlength : call.length ≤ 0) (hmerges : call.merges = true) : call.on score =
    (Codes.ofLength (call.length + score.joined call)).map fun codes => score.replaceNewest (.pause codes) := by
  rw [joined, if_pos hmerges]
  cases call with
  | note => cases hmerges
  | rest length merge =>
    rw [Call.merges] at hmerges
    rw [hmerges]
    exact addRest_short hlength
  | harmony pitches length =>
    cases pitches with
    | nil => exact addRest_short hlength
    | cons => cases hmerges

/-- A call with a length that is not positive is refused, and leaves everything as it was, unless it writes a rest that joins one before it and both have a positive length together; then the rest before is made shorter or stays as long as it is. -/
theorem attempt_short (score : Score) {call : Call} (hlength : call.length ≤ 0) :
    (call.length + score.joined call ≤ 0 →
      ∃ fault, fault.kind = .value ∧ score.attempt call = ⟨score, .quiet (.error fault)⟩) ∧
    (0 < call.length + score.joined call →
      score.attempt call =
        ⟨score.replaceNewest (.pause (.ofUnits (call.length + score.joined call).toNat)), .quiet (.ok ())⟩) := by
  cases hmerges : call.merges with
  | false =>
    have hnone : score.joined call = 0 := if_neg (by simp [hmerges])
    rw [hnone, Int.natCast_zero, Int.add_zero]
    exact ⟨fun _ => ⟨_, rfl, attempt_error (on_apart score hlength hmerges)⟩, fun hpos => absurd hlength (Int.not_le.2 hpos)⟩
  | true =>
    have hon := on_merging score hlength hmerges
    constructor
    · intro hshort
      rw [Codes.ofLength, if_pos hshort] at hon
      exact ⟨_, rfl, attempt_error hon⟩
    · intro hpos
      rw [Codes.ofLength_eq_ok hpos] at hon
      exact attempt_ok hon

/-- After a rest of sixteen, one of minus sixteen is refused and one of minus eight is not. -/
theorem attempt_short_rests :
    ∃ score : Score, score.tokens = [.pause [.i]] ∧
      (∃ fault, fault.kind = .value ∧ score.attempt (.rest (-16) true) = ⟨score, .quiet (.error fault)⟩) ∧
      score.attempt (.rest (-8) true) = ⟨score.replaceNewest (.pause [.s]), .quiet (.ok ())⟩ := by
  let score : Score := { key := 1, tempo := 120, instrument := 80, written := [.pause [.i]] }
  have hrefused := (attempt_short score (show (Call.rest (-16) true).length ≤ 0 by decide)).1 (by decide)
  have hjoined := (attempt_short score (show (Call.rest (-8) true).length ≤ 0 by decide)).2 (by decide)
  rw [show Codes.ofUnits ((Call.rest (-8) true).length + score.joined (.rest (-8) true)).toNat = [.s] by decide] at hjoined
  exact ⟨score, rfl, hrefused, hjoined⟩

/-- A rest of minus eight is not refused after one of sixteen, and leaves a rest of eight. -/
theorem rest_shortened :
    ∃ made rested shorter, Score.make (.number 1) 120 80 = .ok made ∧
      made.attempt (.rest 16 true) = ⟨rested, .quiet (.ok ())⟩ ∧ rested.tokens = [.pause [.i]] ∧
      rested.attempt (.rest (-8) true) = ⟨shorter, .quiet (.ok ())⟩ ∧ shorter.tokens = [.pause [.s]] :=
  ⟨_, _, _, rfl, rfl, rfl, rfl, rfl⟩

end TurtleMusic.Score
