import TurtleMusic.Pitch.PitchClass
import TurtleMusic.Setting.Basic

/-!
# Reference melodies

Melodies as people give them: a text of notes, or a list of notes by number or name. Only pitch classes are kept. In a text, a token is a note if it starts with a note name or with a number between brackets; every other token is passed over, and of a chord only the first note counts.
-/

namespace TurtleMusic

inductive Melody where
  | text (written : String)
  | notes (given : List Setting)

namespace Melody

/-! ### Single notes -/

/-- How many half steps a row of accidentals raises a note. -/
def accidental (marks : List Char) : Int :=
  (marks.count '#' : Int) - (marks.count 'b' : Int)

/-- Reads a note letter with any accidentals; what follows them does not matter. -/
def named? : List Char → Option PitchClass
  | [] => none
  | letter :: rest =>
    (PitchClass.natural? letter).map fun natural =>
      PitchClass.ofPitch (natural.toPitch + accidental (rest.takeWhile fun c => c = '#' || c = 'b'))

/-- Reads a number between brackets; what follows them does not matter. -/
def numbered? : List Char → Option PitchClass
  | '[' :: rest =>
    match rest.dropWhile Text.isDigit with
    | ']' :: _ => (Text.natural? (rest.takeWhile Text.isDigit)).map fun n => PitchClass.ofPitch n
    | _ => none
  | _ => none

/-- The pitch class of a note given by name, with blanks around it or not. -/
def ofName (name : String) : Except Fault PitchClass :=
  match named? (Text.trim name.toList) with
  | some pc => .ok pc
  | none => .error (.notANoteName name)

/-- The pitch class of a note given as a value. -/
def note : Setting → Except Fault PitchClass
  | .flag value => .error (.flagAsNote value)
  | .integer value => .ok (PitchClass.ofPitch value)
  | .text name => ofName name
  | _ => .error .notANote

/-! ### Whole melodies -/

/-- A melody given as a value: a text, or anything that has items. -/
def ofSetting : Setting → Except Fault Melody
  | .text written => .ok (.text written)
  | given => given.items.map notes

def readTokens (text : List Char) : List PitchClass :=
  (Text.words text).filterMap fun token => (numbered? token).or (named? token)

def read (text : String) : List PitchClass := readTokens text.toList

def pitchClasses : Melody → Except Fault (List PitchClass)
  | text written => .ok (read written)
  | notes given => given.mapM note

end Melody

end TurtleMusic
