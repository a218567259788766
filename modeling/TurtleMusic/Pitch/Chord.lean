import TurtleMusic.Pitch.Fold
import TurtleMusic.Pitch.PitchClass

/-!
# Chords

Triads by root and quality. A quality without a known build has no tones, but a chord of it still has a name, that of its root.
-/

namespace TurtleMusic

inductive Quality where
  | major
  | minor
  | diminished
  | unknown (name : String)
  deriving DecidableEq, Repr

namespace Quality

def name : Quality → String
  | major => "major"
  | minor => "minor"
  | diminished => "diminished"
  | unknown name => name

def ofName (name : String) : Quality :=
  if name = "major" then major
  else if name = "minor" then minor
  else if name = "diminished" then diminished
  else unknown name

def intervals : Quality → Except Fault (List Int)
  | major => .ok [0, 4, 7]
  | minor => .ok [0, 3, 7]
  | diminished => .ok [0, 3, 6]
  | unknown name => .error (.unknownQuality name)

def suffix : Quality → String
  | minor => "m"
  | diminished => "dim"
  | major | unknown _ => ""

end Quality

structure Chord where
  root : PitchClass
  quality : Quality
  deriving DecidableEq, Repr

namespace Chord

def name (chord : Chord) : String :=
  chord.root.name ++ chord.quality.suffix

/-- The pitches of the chord on the root nearest to a pitch. -/
def tones (chord : Chord) (near : Int) : Except Fault (List Int) :=
  chord.quality.intervals.map fun intervals =>
    intervals.map (Pitch.nearestUnbounded near chord.root.toPitch none + ·)

end Chord

end TurtleMusic
