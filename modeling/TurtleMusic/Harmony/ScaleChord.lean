import TurtleMusic.Pitch.Chord
import TurtleMusic.Pitch.Degree

/-!
# The chords of functional harmony

Six chords of a major key take part, numbered by how they are listed here. The weights say how readily each moves to each other one.
-/

namespace TurtleMusic

inductive ScaleChord where
  | tonic
  | dominant
  | subdominant
  | submediant
  | mediant
  | supertonic
  deriving DecidableEq, Repr

namespace ScaleChord

def all : List ScaleChord := [tonic, dominant, subdominant, submediant, mediant, supertonic]

def index : ScaleChord → Nat
  | tonic => 0
  | dominant => 1
  | subdominant => 2
  | submediant => 3
  | mediant => 4
  | supertonic => 5

def ofIndex (index : Int) : Except Fault ScaleChord :=
  match (if 0 ≤ index then all[index.toNat]? else none) with
  | some chord => .ok chord
  | none => .error (.unknownChord index)

/-- The half steps from the tonic of the key to the root of the chord. -/
def rootInterval : ScaleChord → Int
  | tonic => 0
  | dominant => 7
  | subdominant => 5
  | submediant => 9
  | mediant => 4
  | supertonic => 2

def quality : ScaleChord → Quality
  | tonic | dominant | subdominant => .major
  | submediant | mediant | supertonic => .minor

def inKey (chord : ScaleChord) (tonicPitch : Int) : Chord :=
  ⟨PitchClass.ofPitch (tonicPitch + chord.rootInterval), chord.quality⟩

/-- The chances of moving to each chord, in the order of `all`; each row adds up to a hundred. -/
def chances : ScaleChord → List Nat
  | tonic => [0, 25, 30, 25, 10, 10]
  | dominant => [60, 0, 5, 25, 5, 5]
  | subdominant => [25, 40, 0, 5, 5, 25]
  | submediant => [10, 15, 35, 0, 10, 30]
  | mediant => [5, 10, 25, 50, 0, 10]
  | supertonic => [10, 65, 10, 5, 10, 0]

/-- The chance of moving from one chord to another, in hundredths. -/
def chance (chord next : ScaleChord) : Nat := (chord.chances[next.index]?).getD 0

/-- Root, third and fifth near a pitch, each clamped into a range. -/
def triad (chord : ScaleChord) (tonicPitch near low high : Int) : Except Fault (List Int) := do
  (← (chord.inKey tonicPitch).tones near).mapM fun tone => Pitch.clamp tone low high

end ScaleChord

end TurtleMusic
