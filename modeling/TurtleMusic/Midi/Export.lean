import TurtleMusic.Midi.File
import TurtleMusic.Number.Nearest
import TurtleMusic.Score.Event

/-!
# From scores to MIDI

The events of a score become messages at absolute times, those of each voice and layer in a track of their own behind one track for the tempo. At one time the ends of notes come before their beginnings, so a note struck again is not cut off; otherwise messages keep the order of the score.
-/

namespace TurtleMusic.Midi

def resolution : Nat := 480

/-- A 128th note. -/
def ticksPerUnit : Nat := 15

def velocity : Nat := 100

def channels : Int := 16

/-- Whether an integer is too large for a double, which has an exponent of at most 1023 after rounding to 53 bits. -/
def exceedsDouble (n : Nat) : Bool := 0x3fffffffffffff ≤ n >>> 970

/-- The length of a beat, which has to fit into three bytes. It is divided as a double. -/
def microsecondsPerBeat (beatsPerMinute : Int) : Except Fault Nat :=
  if beatsPerMinute ≤ 0 then .error .tempoOfNothing
  else if exceedsDouble beatsPerMinute.toNat then .error .integerTooLarge
  else
    let length := Number.roundDiv 60000000 beatsPerMinute.toNat
    if length > 16777215 then .error (.attributeRange 0 16777215) else .ok length

def dataByte (value : Int) : Except Fault Nat :=
  if 0 ≤ value ∧ value ≤ 127 then .ok value.toNat else .error .dataByteRange

/-- A message at a time in 128th notes. At one time, lower ranks come first. -/
structure Entry where
  time : Nat
  rank : Nat
  message : Message
  deriving DecidableEq, Repr

def Entry.le (left right : Entry) : Bool :=
  left.time < right.time || (left.time == right.time && left.rank ≤ right.rank)

def entries (event : Event) : Except Fault (List Entry) :=
  let channel := (event.voice % channels).toNat
  match event.kind with
  | .note pitch length => (dataByte pitch).map fun note =>
    [⟨event.start, 1, .noteOn channel note velocity⟩, ⟨event.start + length, 0, .noteOff channel note 0⟩]
  | .program number => .ok [⟨event.start, 0, .programChange channel (number % 128).toNat⟩]
  | .control controller value => do
    let controller ← dataByte controller
    return [⟨event.start, 0, .controlChange channel controller (← dataByte (min value 127))⟩]
  | .tempo beatsPerMinute => (microsecondsPerBeat beatsPerMinute).map fun length =>
    [⟨event.start, 0, .setTempo length⟩]

/-- Messages at absolute times, told by the time since the one before. -/
def deltas (last : Nat) : List Entry → Track
  | [] => []
  | entry :: rest => ((entry.time - last) * ticksPerUnit, entry.message) :: deltas entry.time rest

def track (name : String) (entries : List Entry) : Track :=
  (0, .trackName name) :: deltas 0 (entries.mergeSort Entry.le)

structure Voiced where
  event : Event
  entries : List Entry

def Voiced.isTempo (voiced : Voiced) : Bool :=
  match voiced.event.kind with
  | .tempo _ => true
  | _ => false

def Voiced.pair (voiced : Voiced) : Int × Int := (voiced.event.voice, voiced.event.layer)

/-- Pairs are ordered by voice, then by layer. -/
def pairLE (left right : Int × Int) : Bool :=
  left.1 < right.1 || (left.1 == right.1 && left.2 ≤ right.2)

/-- The pairs of voice and layer in use, in order, each once. -/
def pairsOf (voiced : List Voiced) : List (Int × Int) :=
  ((voiced.map Voiced.pair).eraseDups).mergeSort pairLE

/-- The text of a number in the name of a track. One with too many digits has none. -/
def numberText (number : Int) : Except Fault String :=
  let digits := (toString number.natAbs).length
  if Fault.digitLimit < digits then .error (.tooManyDigits digits) else .ok (toString number)

def pairName (pair : Int × Int) : Except Fault String := do
  let voice ← numberText pair.1
  let layer ← numberText pair.2
  return "V" ++ voice ++ " L" ++ layer

/-- The track of a voice and a layer. -/
def pairTrack (others : List Voiced) (pair : Int × Int) : Except Fault Track :=
  (pairName pair).map fun name =>
    track name ((others.filter fun voiced => voiced.pair = pair).flatMap Voiced.entries)

/-- The file of some events. The messages are made in the order of the score, so the first event that has none is the one refused. -/
def File.ofEvents (events : List Event) : Except Fault File := do
  let voiced ← events.mapM fun event => (entries event).map (Voiced.mk event)
  let (tempos, others) := voiced.partition Voiced.isTempo
  let tracks ← (pairsOf others).mapM (pairTrack others)
  return ⟨resolution, track "tempo" (tempos.flatMap Voiced.entries) :: tracks⟩

end TurtleMusic.Midi
