import TurtleMusic.Score.Length
import TurtleMusic.Text.Digit

/-!
# Score tokens

The words of a score. A token is kept as what it says, and its text is derived; text that a caller wrote into the score stays as it was written. Reading goes the other way and is free in two points: digits of any script are digits, and a line feed may follow the last character.
-/

namespace TurtleMusic

/-- One note of a token: its pitch and the codes of its length. -/
structure WrittenNote where
  pitch : Int
  codes : Codes
  deriving DecidableEq, Repr

def WrittenNote.text (note : WrittenNote) : List Char :=
  '[' :: (toString note.pitch).toList ++ ']' :: note.codes.text

inductive Token where
  | tempo (beatsPerMinute : Int)
  | voice (number : Int)
  | layer (number : Int)
  | instrument (number : Int)
  /-- Notes that start together; one alone is a plain note. -/
  | notes (first : WrittenNote) (others : List WrittenNote)
  | pause (codes : Codes)
  | measure
  | control (controller value : Int)
  /-- Text put into the score by a caller. -/
  | verbatim (text : List Char)
  deriving DecidableEq, Repr

namespace Token

/-! ### Writing -/

private def numbered (letter : Char) (number : Int) : List Char := letter :: (toString number).toList

def text : Token → List Char
  | tempo beatsPerMinute => numbered 'T' beatsPerMinute
  | voice number => numbered 'V' number
  | layer number => numbered 'L' number
  | instrument number => numbered 'I' number
  | notes first others => first.text ++ others.flatMap fun note => '+' :: note.text
  | pause codes => 'R' :: codes.text
  | measure => ['|']
  | control controller value => numbered 'X' controller ++ '=' :: (toString value).toList
  | verbatim text => text

/-! ### Reading -/

def dropFinalLineFeed (text : List Char) : List Char :=
  if text.getLast? = some '\n' then text.dropLast else text

/-- Reads `[` pitch `]` codes. -/
def readNote? (text : List Char) : Option WrittenNote :=
  match dropFinalLineFeed text with
  | '[' :: rest =>
    match rest.dropWhile Text.isDigit with
    | ']' :: codes => do
      let pitch ← Text.natural? (rest.takeWhile Text.isDigit)
      return ⟨pitch, ← Codes.readSome? codes⟩
    | _ => none
  | _ => none

/-- Reads `R` codes. -/
def readRest? (text : List Char) : Option Codes :=
  match dropFinalLineFeed text with
  | 'R' :: codes => Codes.readSome? codes
  | _ => none

/-- Reads `X` controller `=` value. -/
def readControl? (text : List Char) : Option Token :=
  match dropFinalLineFeed text with
  | 'X' :: rest =>
    match rest.dropWhile Text.isDigit with
    | '=' :: value => do
      let controller ← Text.natural? (rest.takeWhile Text.isDigit)
      return control controller (← Text.natural? value)
    | _ => none
  | _ => none

def readNumbered? (text : List Char) : Option Token :=
  match dropFinalLineFeed text with
  | 'T' :: digits => (Text.natural? digits).map fun n => tempo n
  | 'V' :: digits => (Text.natural? digits).map fun n => voice n
  | 'L' :: digits => (Text.natural? digits).map fun n => layer n
  | 'I' :: digits => (Text.natural? digits).map fun n => instrument n
  | _ => none

/-- Reads notes joined by plus signs, all of which have to be notes. -/
def readNotes? (text : List Char) : Option Token := do
  match ← (text.splitOn '+').mapM readNote? with
  | [] => none
  | first :: others => return notes first others

/-- Reads a token that a score may hold. Whatever starts with a bracket has to be notes. -/
def read (text : List Char) : Except Fault Token :=
  if text = ['|'] then .ok measure
  else match readRest? text with
  | some codes => .ok (pause codes)
  | none =>
    if text.head? = some '[' then
      match readNotes? text with
      | some token => .ok token
      | none => .error (.malformedNote (String.ofList text))
    else match (readControl? text).or (readNumbered? text) with
    | some token => .ok token
    | none => .error (.unknownToken (String.ofList text))

/-! ### What a following token may join -/

/-- The pitch of a token that reads as a single note. -/
def solePitch? : Token → Option Int
  | notes first [] => if 0 ≤ first.pitch then some first.pitch else none
  | verbatim text => (readNote? text).map (·.pitch)
  | _ => none

/-- The length of a token that reads as a rest. -/
def restUnits? : Token → Option Nat
  | pause codes => if codes.isEmpty then none else some codes.units
  | verbatim text => (readRest? text).map Codes.units
  | _ => none

/-- The token with more length written at its end. -/
def lengthen (codes : Codes) : Token → Token
  | notes first [] => notes ⟨first.pitch, first.codes ++ codes⟩ []
  | verbatim text => verbatim (text ++ codes.text)
  | token => token

end Token

end TurtleMusic
