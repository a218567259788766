import TurtleMusic.Fault

/-!
# Pitch classes

The twelve classes of pitches an octave apart, counted in half steps from C, and their names. A pitch is an integer, sixty being middle C.
-/

namespace TurtleMusic

abbrev PitchClass := Fin 12

namespace PitchClass

def ofPitch (pitch : Int) : PitchClass :=
  ⟨(pitch % 12).toNat, by omega⟩

/-- The class of a pitch that was heard; a negative number stands for silence. -/
def heard? (pitch : Int) : Option PitchClass :=
  if 0 ≤ pitch then some (ofPitch pitch) else none

/-- The class as the lowest pitch in it that is not negative. -/
def toPitch (pc : PitchClass) : Int := (pc.val : Int)

theorem toPitch_ofPitch (pitch : Int) : (ofPitch pitch).toPitch = pitch % 12 := by
  simp only [ofPitch, toPitch]
  omega

/-- The seven letters and the classes they name without accidentals. -/
def natural? : Char → Option PitchClass
  | 'C' => some 0
  | 'D' => some 2
  | 'E' => some 4
  | 'F' => some 5
  | 'G' => some 7
  | 'A' => some 9
  | 'B' => some 11
  | _ => none

def keyNames : List (String × PitchClass) :=
  [("C", 0), ("C#", 1), ("Db", 1), ("D", 2), ("D#", 3), ("Eb", 3), ("E", 4), ("F", 5), ("F#", 6), ("Gb", 6), ("G", 7),
    ("G#", 8), ("Ab", 8), ("A", 9), ("A#", 10), ("Bb", 10), ("B", 11)]

/-- The name of a class, with a sharp where it needs one. -/
def name (pc : PitchClass) : String :=
  #v["C", "C#", "D", "D#", "E", "F", "F#", "G", "G#", "A", "A#", "B"][pc]

def isKeyName (name : String) : Bool :=
  keyNames.any (·.1 == name)

def ofKeyName (name : String) : Except Fault PitchClass :=
  match keyNames.lookup name with
  | some pc => .ok pc
  | none => .error (.unknownKey (Text.quote name))

theorem lookup_name (pc : PitchClass) : keyNames.lookup pc.name = some pc := by
  revert pc
  decide

end PitchClass

end TurtleMusic
