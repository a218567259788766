import TurtleMusic.Pitch.PitchClass

/-!
# Keys

The twelve major keys in the order of the circle of fifths. A key is asked for by its number on the circle, counted from one, or by name; a name spelled another way stands for the key that sounds the same. Where a corpus files its melodies, a number is a pitch class instead.
-/

namespace TurtleMusic

/-- A key as its place on the circle of fifths, from C. -/
abbrev Key := Fin 12

namespace Key

def name (key : Key) : String :=
  #v["C", "G", "D", "A", "E", "B", "F#", "Db", "Ab", "Eb", "Bb", "F"][key]

/-- Each step around the circle raises the tonic by a fifth, which is seven half steps. -/
def tonicClass (key : Key) : PitchClass :=
  ⟨7 * key.val % 12, Nat.mod_lt _ (by decide)⟩

/-- The key on a tonic. Seven is its own inverse modulo twelve. -/
def ofTonicClass (pc : PitchClass) : Key :=
  ⟨7 * pc.val % 12, Nat.mod_lt _ (by decide)⟩

theorem ofTonicClass_tonicClass (key : Key) : ofTonicClass key.tonicClass = key := by
  revert key
  decide

theorem lookup_name (key : Key) : PitchClass.keyNames.lookup key.name = some key.tonicClass := by
  revert key
  decide

/-- The number of a key, counted from one. -/
def number (key : Key) : Int := (key.val : Int) + 1

/-- The tonic in the octave from the C below middle C. -/
def tonic (key : Key) : Int := 48 + key.tonicClass.toPitch

end Key

inductive KeyRef where
  | number (n : Whole)
  | name (text : String)
  deriving DecidableEq, Repr

namespace KeyRef

/-- The key asked for; a number is a place on the circle of fifths. -/
def key : KeyRef → Except Fault Key
  | number n =>
    if h : 1 ≤ n.value ∧ n.value ≤ 12 then .ok ⟨(n.value - 1).toNat, by omega⟩ else .error (.keyIndexRange n)
  | name text => (PitchClass.ofKeyName text).map Key.ofTonicClass

/-- The tonic's pitch class; a number is a pitch. -/
def pitchClass : KeyRef → Except Fault PitchClass
  | number n => .ok (PitchClass.ofPitch n.value)
  | name text => PitchClass.ofKeyName text

end KeyRef

end TurtleMusic
