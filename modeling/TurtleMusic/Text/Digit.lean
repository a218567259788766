import TurtleMusic.Text.Blank

/-!
# Decimal digits

The decimal digits of every script, and the reading of whole numbers written in them. A script's ten digits stand in a row, so the table lists the digit nought of each script only.
-/

namespace TurtleMusic.Text

/-- The code points of the digit nought in each script that has decimal digits. -/
def noughts : List Nat :=
  [0x30, 0x660, 0x6f0, 0x7c0, 0x966, 0x9e6, 0xa66, 0xae6, 0xb66, 0xbe6, 0xc66, 0xce6, 0xd66, 0xde6, 0xe50, 0xed0, 0xf20,
    0x1040, 0x1090, 0x17e0, 0x1810, 0x1946, 0x19d0, 0x1a80, 0x1a90, 0x1b50, 0x1bb0, 0x1c40, 0x1c50, 0xa620, 0xa8d0,
    0xa900, 0xa9d0, 0xa9f0, 0xaa50, 0xabf0, 0xff10, 0x104a0, 0x10d30, 0x11066, 0x110f0, 0x11136, 0x111d0, 0x112f0,
    0x11450, 0x114d0, 0x11650, 0x116c0, 0x11730, 0x118e0, 0x11950, 0x11c50, 0x11d50, 0x11da0, 0x16a60, 0x16ac0, 0x16b50,
    0x1d7ce, 0x1d7d8, 0x1d7e2, 0x1d7ec, 0x1d7f6, 0x1e140, 0x1e2f0, 0x1e950, 0x1fbf0]

def digitValue? (c : Char) : Option Nat :=
  (noughts.find? fun nought => nought ≤ c.toNat && c.toNat < nought + 10).map (c.toNat - ·)

def isDigit (c : Char) : Bool := (digitValue? c).isSome

/-- The number that a row of digits stands for; a character that is no digit counts as nought. -/
def digitsValue (digits : List Char) : Nat :=
  digits.foldl (fun value c => 10 * value + (digitValue? c).getD 0) 0

/-- Reads a whole number, which is one digit or more and nothing else. -/
def natural? (text : List Char) : Option Nat :=
  if !text.isEmpty && text.all isDigit then some (digitsValue text) else none

/-- Reads a whole number whose digits may be parted by single underscores. -/
def grouped? (text : List Char) : Option Nat :=
  if (text.splitOn '_').all fun group => (natural? group).isSome then natural? (text.filter (· != '_')) else none

/-- A written integer without the white space around it and the sign before it, and whether the sign is a minus. -/
def unsigned (text : List Char) : Bool × List Char :=
  match trimWhile isWhiteSpace text with
  | '-' :: rest => (true, rest)
  | '+' :: rest => (false, rest)
  | rest => (false, rest)

/-- Reads an integer as people write it: white space around it, a sign before it and single underscores between its digits are allowed. -/
def integer? (text : List Char) : Option Int :=
  let (negative, digits) := unsigned text
  (grouped? digits).map fun n => if negative then -(n : Int) else n

/-- How many digits the number has that a text begins with, after white space and a sign and with single underscores between its digits; whatever follows does not matter. -/
def leadingDigits? (text : List Char) : Option Nat :=
  let run := (unsigned text).2.takeWhile fun c => isDigit c || c = '_'
  if (run.splitOn '_').all (!·.isEmpty) then some (run.filter isDigit).length else none

end TurtleMusic.Text
