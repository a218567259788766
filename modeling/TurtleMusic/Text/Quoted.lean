import TurtleMusic.Text.Printable

/-!
# Quoted text

How messages show a text. It stands between single quotes, or between double quotes when it holds a single quote and no double one; a backslash goes before the backslash and before the quote in use, and unprintable characters are given by their code points.
-/

namespace TurtleMusic.Text

def hexDigits : (places : Nat) → Nat → List Char
  | 0, _ => []
  | places + 1, n => hexDigits places (n / 16) ++ [Nat.digitChar (n % 16)]

/-- How one character stands inside quotes of the given kind. -/
def quoteChar (quoteMark c : Char) : List Char :=
  if c = quoteMark || c = '\\' then ['\\', c]
  else if c = '\n' then ['\\', 'n']
  else if c = '\r' then ['\\', 'r']
  else if c = '\t' then ['\\', 't']
  else if isPrintable c then [c]
  else if c.toNat < 0x100 then '\\' :: 'x' :: hexDigits 2 c.toNat
  else if c.toNat < 0x10000 then '\\' :: 'u' :: hexDigits 4 c.toNat
  else '\\' :: 'U' :: hexDigits 8 c.toNat

/-- Double quotes are used only for a text that holds a single quote and no double quote. -/
def quoteMarkFor (text : List Char) : Char :=
  if text.contains '\x27' && !text.contains '"' then '"' else '\x27'

def quote (text : String) : String :=
  let mark := quoteMarkFor text.toList
  String.ofList (mark :: text.toList.flatMap (quoteChar mark) ++ [mark])

def bracketed (shown : List String) : String :=
  "[" ++ ", ".intercalate shown ++ "]"

end TurtleMusic.Text
