import TurtleMusic.Account
import TurtleMusic.Rhythm.Bucket

/-!
# Euclidean rhythms

A rhythm that spreads its pulses as evenly as possible and can be turned. It is filled by buckets and then turned to the Bjorklund listing if that is one of its turns. A pulse group is a pulse with the pauses after it; turning by groups moves the last group to the front, so what comes out starts on a pulse.
-/

namespace TurtleMusic

structure EuclideanRhythm where
  steps : Nat
  pulses : Nat
  pattern : Pattern
  deriving DecidableEq, Repr

namespace EuclideanRhythm

/-! ### Turning -/

/-- The pattern turned right by a number of steps, which may be negative. -/
def turnedSteps (pattern : Pattern) (count : Int) : Pattern :=
  let kept := pattern.length - (count % pattern.length).toNat
  pattern.drop kept ++ pattern.take kept

def lastPulse (pattern : Pattern) : Nat :=
  pattern.length - 1 - pattern.reverse.idxOf true

/-- The last pulse group moved to the front. -/
def turnedGroup (pattern : Pattern) : Pattern :=
  pattern.drop (lastPulse pattern) ++ pattern.take (lastPulse pattern)

/-- The first of the pattern and its next `turns` group turns that is written as the target, or else the last of them, with whether it was found. -/
def seek (target : String) : (turns : Nat) → Pattern → Bool × Pattern
  | 0, pattern => (pattern.render == target, pattern)
  | turns + 1, pattern => if pattern.render == target then (true, pattern) else seek target turns (turnedGroup pattern)

def rotateSteps (rhythm : EuclideanRhythm) (count : Int) : EuclideanRhythm :=
  ⟨rhythm.steps, rhythm.pulses, turnedSteps rhythm.pattern count⟩

/-- Turns by whole groups; a rhythm without pulses has none, and a count below one turns nothing. -/
def rotateGroups (rhythm : EuclideanRhythm) (count : Int) : EuclideanRhythm :=
  if rhythm.pulses = 0 then rhythm
  else ⟨rhythm.steps, rhythm.pulses, Nat.repeat turnedGroup count.toNat rhythm.pattern⟩

/-- Turns by groups until the rhythm is written as the target, trying each turn once. -/
def turnTo (rhythm : EuclideanRhythm) (target : String) : Bool × EuclideanRhythm :=
  let sought := seek target rhythm.pulses rhythm.pattern
  (sought.1, ⟨rhythm.steps, rhythm.pulses, sought.2⟩)

/-- Turns to a pattern given as text; the answer says whether it was found and what there is to say about it. A pattern that is no turn of the rhythm leaves it on the last turn tried and is reported. -/
def seekText (expected : String) : Act EuclideanRhythm (Bool × List Report) := do
  let target ← Act.check (Pattern.normalize expected)
  let found ← modifyGet (·.turnTo target)
  let rhythm ← get
  return (found, if found then [] else [.unreachableRhythm target rhythm.pulses rhythm.steps])

def matchText (rhythm : EuclideanRhythm) (expected : String) : Except Fault (Bool × EuclideanRhythm × List Report) :=
  ((seekText expected).result rhythm).map fun ended => (ended.1.1, ended.2, ended.1.2)

theorem matchText_eq (rhythm : EuclideanRhythm) (expected : String) : rhythm.matchText expected =
    (Pattern.normalize expected).map fun target =>
      let turned := rhythm.turnTo target
      (turned.1, turned.2, if turned.1 then [] else [.unreachableRhythm target rhythm.pulses rhythm.steps]) := by
  rw [matchText, seekText, Act.result_bind, Act.result_check]
  cases Pattern.normalize expected <;> rfl

/-! ### Making -/

/-- The rhythm for any numbers, turned to the classic listing if it can be. -/
def make (pulses steps : Int) : EuclideanRhythm :=
  let filled : EuclideanRhythm := ⟨steps.toNat, clampedPulses pulses (max 0 steps), bucketFill pulses steps⟩
  (filled.turnTo (bjorklund steps pulses).render).2

/-- The rhythm turned to an expected pattern, if one is given. -/
def makeAs (pulses steps : Int) (expected : Option String) : Except Fault (EuclideanRhythm × List Report) :=
  match expected with
  | none => .ok (make pulses steps, [])
  | some expected => ((make pulses steps).matchText expected).map fun turned => turned.2

/-! ### Views -/

def text (rhythm : EuclideanRhythm) : String := rhythm.pattern.render

def onsets (rhythm : EuclideanRhythm) : List Nat := rhythm.pattern.onsets

def gaps (rhythm : EuclideanRhythm) : List Nat := rhythm.pattern.gaps

/-- The lengths of the pulse groups; pauses before the first pulse belong to the last group. -/
def durations (rhythm : EuclideanRhythm) : List Nat :=
  if rhythm.pulses = 0 then [] else rhythm.pattern.fromFirstPulse.legato.filter (· ≠ 0)

def describe (rhythm : EuclideanRhythm) : String :=
  s!"EuclideanRhythm(pulses={rhythm.pulses}, steps={rhythm.steps}, rhythm={Text.quote rhythm.text})"

end EuclideanRhythm

end TurtleMusic
