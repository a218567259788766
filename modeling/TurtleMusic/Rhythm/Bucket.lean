import TurtleMusic.Rhythm.Bjorklund

/-!
# Filling buckets

The other way to spread pulses: every pulse is followed by the whole quotient of pauses, and the pauses left over go to single groups that a second pass spreads out. When pulses outnumber pauses the two change places.
-/

namespace TurtleMusic

namespace Bucket

/-- The numbers the filling counts down: pauses to come in this group, pauses left over, groups until the next one that gets one of them, and skips that are still to be made. -/
structure Countdown where
  pauses : Nat
  leftOver : Nat
  wait : Int
  skips : Int

/-- What the filling keeps fixed: pauses for each pulse, and the length of a skip. -/
structure Rule where
  perPulse : Nat
  skipLength : Nat

/-- A new group starts with its pulse and may get one of the pauses left over. -/
def openGroup (rule : Rule) (countdown : Countdown) : Countdown :=
  if countdown.leftOver > 0 ∧ countdown.wait = 0 then
    ⟨rule.perPulse + 1, countdown.leftOver - 1, if countdown.skips > 0 then rule.skipLength else 0, countdown.skips - 1⟩
  else ⟨rule.perPulse, countdown.leftOver, countdown.wait - 1, countdown.skips⟩

def fill (rule : Rule) : (steps : Nat) → Countdown → Pattern
  | 0, _ => []
  | steps + 1, countdown =>
    match countdown.pauses with
    | 0 => true :: fill rule steps (openGroup rule countdown)
    | pauses + 1 => false :: fill rule steps ⟨pauses, countdown.leftOver, countdown.wait, countdown.skips⟩

/-- The filling for pulses that pauses equal or outnumber. -/
def sparse (pulses pauses : Nat) : Pattern :=
  let leftOver := pauses % pulses
  let skipLength := pulses / leftOver
  fill ⟨pauses / pulses, skipLength⟩ (pulses + pauses) ⟨0, leftOver, 0, ((pulses - leftOver) / skipLength : Nat)⟩

def spread (pulses steps : Nat) : Pattern :=
  if pulses = 0 then List.replicate steps false
  else if pulses = steps then List.replicate steps true
  else if pulses > steps - pulses then (sparse (steps - pulses) pulses).map (!·)
  else sparse pulses (steps - pulses)

end Bucket

/-- The filling for any numbers; pulses beyond the steps fall away. -/
def bucketFill (pulses steps : Int) : Pattern :=
  Bucket.spread (clampedPulses pulses (max 0 steps)) steps.toNat

end TurtleMusic
