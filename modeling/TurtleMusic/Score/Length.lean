import TurtleMusic.Fault

/-!
# Note lengths

Lengths are counted in 128th notes and written with eight letters, each worth twice the one before, from the 128th to the whole note. A length that is no letter's is the sum of several; whole notes are repeated as needed.
-/

namespace TurtleMusic

/-- The letters for lengths, shortest first. -/
inductive LengthCode where
  | o
  | x
  | t
  | s
  | i
  | q
  | h
  | w
  deriving DecidableEq, Repr

namespace LengthCode

def units : LengthCode → Nat
  | o => 1
  | x => 2
  | t => 4
  | s => 8
  | i => 16
  | q => 32
  | h => 64
  | w => 128

def letter : LengthCode → Char
  | o => 'o'
  | x => 'x'
  | t => 't'
  | s => 's'
  | i => 'i'
  | q => 'q'
  | h => 'h'
  | w => 'w'

def ofLetter? : Char → Option LengthCode
  | 'o' => some o
  | 'x' => some x
  | 't' => some t
  | 's' => some s
  | 'i' => some i
  | 'q' => some q
  | 'h' => some h
  | 'w' => some w
  | _ => none

theorem ofLetter?_letter (code : LengthCode) : ofLetter? code.letter = some code := by
  cases code <;> rfl

end LengthCode

abbrev Codes := List LengthCode

namespace Codes

def units : Codes → Nat
  | [] => 0
  | code :: rest => code.units + units rest

def text (codes : Codes) : List Char := codes.map LengthCode.letter

/-- The codes below the whole note that make up a length, each used at most once, longest first. -/
def belowWhole (length : Nat) : Codes :=
  go [.h, .q, .i, .s, .t, .x, .o] length
where
  go : List LengthCode → Nat → Codes
    | [], _ => []
    | code :: rest, length => if code.units ≤ length then code :: go rest (length - code.units) else go rest length

/-- The codes of a length: its whole notes, then the rest. -/
def ofUnits (length : Nat) : Codes :=
  List.replicate (length / 128) .w ++ belowWhole (length % 128)

/-- The codes of a length that has to be positive. -/
def ofLength (length : Int) : Except Fault Codes :=
  if length ≤ 0 then .error (.lengthNotPositive length) else .ok (ofUnits length.toNat)

/-- Reads codes; the first letter that is none is refused. -/
def read : List Char → Except Fault Codes
  | [] => .ok []
  | c :: rest =>
    match LengthCode.ofLetter? c with
    | none => .error (.unknownLengthCode c)
    | some code => (read rest).map (code :: ·)

/-- Reads one code or more. -/
def readSome? (text : List Char) : Option Codes :=
  match read text with
  | .ok (code :: rest) => some (code :: rest)
  | _ => none

end Codes

end TurtleMusic
