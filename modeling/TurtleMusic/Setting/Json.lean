import TurtleMusic.Setting.Basic

/-!
# Settings written as JSON

Reading a value from JSON text. A number is an integer if it has neither a point nor an exponent, and the nearest double otherwise. Every step takes a character, so the length of the text bounds the depth of the reading.
-/

namespace TurtleMusic.Json

/-! ### Texts -/

def hexValue? (c : Char) : Option Nat :=
  let code := c.toNat
  if c.isDigit then some (code - 48)
  else if 97 ≤ code && code ≤ 102 then some (code - 87)
  else if 65 ≤ code && code ≤ 70 then some (code - 55)
  else none

def hexUnit? (a b c d : Char) : Option Nat := do
  return 4096 * (← hexValue? a) + 256 * (← hexValue? b) + 16 * (← hexValue? c) + (← hexValue? d)

def escaped? : Char → Option Char
  | 'n' => some '\n'
  | 't' => some '\t'
  | 'r' => some '\r'
  | 'b' => some '\x08'
  | 'f' => some '\x0c'
  | '"' => some '"'
  | '\\' => some '\\'
  | '/' => some '/'
  | _ => none

/-- Two halves of a pair make one character; a half alone is replaced. -/
def joinUnits : List Nat → List Char
  | [] => []
  | high :: low :: rest =>
    if 0xd800 ≤ high && high < 0xdc00 && 0xdc00 ≤ low && low < 0xe000 then
      Char.ofNat (0x10000 + (high - 0xd800) * 0x400 + (low - 0xdc00)) :: joinUnits rest
    else (if 0xd800 ≤ high && high < 0xe000 then '\ufffd' else Char.ofNat high) :: joinUnits (low :: rest)
  | [unit] => [if 0xd800 ≤ unit && unit < 0xe000 then '\ufffd' else Char.ofNat unit]

/-- The code units of a text up to its closing quote, gathered in reverse. -/
def readUnits (units : List Nat) : List Char → Option (List Nat × List Char)
  | [] => none
  | '"' :: rest => some (units.reverse, rest)
  | '\\' :: 'u' :: a :: b :: c :: d :: rest =>
    match hexUnit? a b c d with
    | some unit => readUnits (unit :: units) rest
    | none => none
  | '\\' :: c :: rest =>
    match escaped? c with
    | some c => readUnits (c.toNat :: units) rest
    | none => none
  | c :: rest => readUnits (c.toNat :: units) rest

def readQuoted (text : List Char) : Option (String × List Char) :=
  (readUnits [] text).map fun read => (String.ofList (joinUnits read.1), read.2)

/-! ### Numbers -/

def isNumberChar (c : Char) : Bool := c.isDigit || c = '-' || c = '+' || c = '.' || c = 'e' || c = 'E'

def plainNumber? (digits : List Char) : Option Nat :=
  if !digits.isEmpty && digits.all Char.isDigit then some (Text.digitsValue digits) else none

/-- An exponent, with or without a sign. -/
def exponent? : List Char → Option Int
  | '-' :: digits => (plainNumber? digits).map fun n => -(n : Int)
  | '+' :: digits => (plainNumber? digits).map fun n => (n : Int)
  | digits => (plainNumber? digits).map fun n => (n : Int)

/-- The double nearest to a decimal. -/
def scientific (digits : Nat) (exponent : Int) : Float :=
  Float.ofScientific digits (exponent < 0) exponent.natAbs

def magnitude? (text : List Char) : Option Setting := do
  let (before, power) := text.span fun c => c != 'e' && c != 'E'
  let (whole, fraction) := before.span (· != '.')
  if power.isEmpty && fraction.isEmpty then return .integer (← plainNumber? whole)
  else
    let fraction := fraction.drop 1
    let exponent ← if power.isEmpty then some 0 else exponent? (power.drop 1)
    return .number (scientific (← plainNumber? (whole ++ fraction)) (exponent - fraction.length))

def number? : List Char → Option Setting
  | '-' :: text =>
    (magnitude? text).map fun
      | .integer n => .integer (-n)
      | .number x => .number (-x)
      | other => other
  | text => magnitude? text

/-! ### Values -/

def isSpace (c : Char) : Bool := c = ' ' || c = '\t' || c = '\n' || c = '\r'

/-- A value that is one word: a literal or a number. -/
def readWord (text : List Char) : Option (Setting × List Char) :=
  let (word, rest) := text.span fun c => isNumberChar c || c.isAlpha
  if word = ['n', 'u', 'l', 'l'] then some (.null, rest)
  else if word = ['t', 'r', 'u', 'e'] then some (.flag true, rest)
  else if word = ['f', 'a', 'l', 's', 'e'] then some (.flag false, rest)
  else (number? word).map fun number => (number, rest)

mutual

def readValue : (limit : Nat) → List Char → Option (Setting × List Char)
  | 0, _ => none
  | limit + 1, text =>
    match text.dropWhile isSpace with
    | '"' :: rest => (readQuoted rest).map fun read => (.text read.1, read.2)
    | '[' :: rest =>
      match rest.dropWhile isSpace with
      | ']' :: rest => some (.list [], rest)
      | rest => (readItems limit rest).map fun read => (.list read.1, read.2)
    | '\x7b' :: rest =>
      match rest.dropWhile isSpace with
      | '\x7d' :: rest => some (.mapping [], rest)
      | rest => (readMembers limit rest).map fun read => (.mapping read.1, read.2)
    | rest => readWord rest

def readItems : (limit : Nat) → List Char → Option (List Setting × List Char)
  | 0, _ => none
  | limit + 1, text => do
    let (item, rest) ← readValue limit text
    match rest.dropWhile isSpace with
    | ',' :: rest => (readItems limit rest).map fun read => (item :: read.1, read.2)
    | ']' :: rest => some ([item], rest)
    | _ => none

def readMembers : (limit : Nat) → List Char → Option (List (String × Setting) × List Char)
  | 0, _ => none
  | limit + 1, text => do
    let (key, rest) ← match text.dropWhile isSpace with
      | '"' :: rest => readQuoted rest
      | _ => none
    let (value, rest) ← match rest.dropWhile isSpace with
      | ':' :: rest => readValue limit rest
      | _ => none
    match rest.dropWhile isSpace with
    | ',' :: rest => (readMembers limit rest).map fun read => ((key, value) :: read.1, read.2)
    | '\x7d' :: rest => some ([(key, value)], rest)
    | _ => none

end

def read? (text : String) : Option Setting :=
  let chars := text.toList
  match readValue (chars.length + 1) chars with
  | some (value, rest) => if rest.all isSpace then some value else none
  | none => none

end TurtleMusic.Json
