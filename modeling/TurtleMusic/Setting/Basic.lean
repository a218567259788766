import TurtleMusic.Fault
import TurtleMusic.Number.Shortest
import TurtleMusic.Text.Digit

/-!
# Settings

Values as a configuration holds them, and the ways in which they are read: as a text, as an integer, as a row of items, as a mapping. An empty or null value counts as nothing.
-/

namespace TurtleMusic

inductive Setting where
  | null
  | flag (value : Bool)
  | integer (value : Int)
  | number (value : Float)
  | text (value : String)
  | list (items : List Setting)
  | mapping (entries : List (String × Setting))

namespace Setting

def isSomething : Setting → Bool
  | null => false
  | flag value => value
  | integer value => value != 0
  | number value => !(value == 0)
  | text value => !value.isEmpty
  | list items => !items.isEmpty
  | mapping entries => !entries.isEmpty

/-! ### As a text -/

/-- A double in decimal: positional from 0.0001 up to sixteen digits before the point, else with an exponent of two digits or more. -/
def numberText (x : Float) : String :=
  match Number.Binary.ofFloat? x with
  | none => if x.isNaN then "nan" else if x < 0 then "-inf" else "inf"
  | some parts =>
    let sign := if parts.negative then "-" else ""
    if parts.mantissa = 0 then sign ++ "0.0"
    else
      let decimal := Number.shortest parts
      let digits := (toString decimal.digits).toList
      let point : Int := digits.length + decimal.exponent
      sign ++ String.ofList (
        if point > 16 || point < -3 then
          let exponent := point - 1
          let fraction := if digits.length = 1 then [] else '.' :: digits.drop 1
          let places := (toString exponent.natAbs).toList
          digits.take 1 ++ fraction ++ ['e', if exponent < 0 then '-' else '+'] ++
            List.replicate (2 - places.length) '0' ++ places
        else if point ≤ 0 then '0' :: '.' :: List.replicate (-point).toNat '0' ++ digits
        else if digits.length ≤ point.toNat then digits ++ List.replicate (point.toNat - digits.length) '0' ++ ['.', '0']
        else digits.take point.toNat ++ '.' :: digits.drop point.toNat)

mutual

/-- A value as it is shown inside another one: texts are quoted. -/
def shown : Setting → String
  | null => "None"
  | flag value => Text.flagName value
  | integer value => toString value
  | number value => numberText value
  | text value => Text.quote value
  | list items => Text.bracketed (shownItems items)
  | mapping entries => "\x7b" ++ ", ".intercalate (shownEntries entries) ++ "\x7d"

def shownItems : List Setting → List String
  | [] => []
  | item :: rest => shown item :: shownItems rest

def shownEntries : List (String × Setting) → List String
  | [] => []
  | (key, value) :: rest => (Text.quote key ++ ": " ++ shown value) :: shownEntries rest

end

def display : Setting → String
  | text value => value
  | other => shown other

/-! ### As an integer -/

/-- Reads a text as an integer. A number with too many digits is refused before anything that follows it. -/
def readInteger (written : String) : Except Fault Int :=
  match (Text.leadingDigits? written.toList).filter (Fault.digitLimit < ·) with
  | some digits => .error (.tooManyDigits digits)
  | none =>
    match Text.integer? written.toList with
    | some n => .ok n
    | none => .error (.notAnInteger written)

/-- Numbers lose their fraction, flags count as nought and one, and texts are read. -/
def toInteger : Setting → Except Fault Int
  | flag value => .ok (Whole.flag value).value
  | integer value => .ok value
  | number value =>
    match Number.Binary.ofFloat? value with
    | some parts => .ok parts.truncate
    | none => .error (if value.isNaN then .undefinedInteger else .infiniteInteger)
  | text value => readInteger value
  | null | list _ | mapping _ => .error .wrongType

/-- The whole number itself, where nothing else will do. -/
def whole : Setting → Except Fault Whole
  | flag value => .ok (.flag value)
  | integer value => .ok (.number value)
  | _ => .error .wrongType

/-! ### As a row of items -/

def items : Setting → Except Fault (List Setting)
  | list items => .ok items
  | text value => .ok (value.toList.map fun c => text c.toString)
  | mapping entries => .ok (entries.map fun entry => text entry.1)
  | _ => .error .wrongType

/-! ### As a mapping -/

/-- The entries of a section. A value that counts as nothing is an empty section. -/
def entries (setting : Setting) : Except Fault (List (String × Setting)) :=
  match setting with
  | mapping entries => .ok entries
  | other => if other.isSomething then .error .notAMapping else .ok []

def get (entries : List (String × Setting)) (key : String) : Setting := (entries.lookup key).getD null

/-- A value as the key of an entry. Lists and mappings cannot be keys. -/
def asKey : Setting → Except Fault String
  | list _ | mapping _ => .error .wrongType
  | other => .ok other.display

def asTextKey : Setting → Except Fault String
  | text key => .ok key
  | _ => .error .wrongType

/-- Adds an entry. A key that is there already keeps its place and takes the new value. -/
def insert (entries : List (String × Setting)) (key : String) (value : Setting) : List (String × Setting) :=
  match entries with
  | [] => [(key, value)]
  | entry :: rest => if entry.1 = key then (key, value) :: rest else entry :: insert rest key value

def insertPairs (asKey : Setting → Except Fault String) (entries : List (String × Setting)) (index : Nat) :
    List Setting → Except Fault (List (String × Setting))
  | [] => .ok entries
  | pair :: rest => do
    match ← pair.items with
    | [key, value] => insertPairs asKey (insert entries (← asKey key) value) (index + 1) rest
    | other => .error (.mappingEntry index other.length)

/-- The entries that a value can be turned into: a mapping has its own, and a row of pairs stands for one. -/
def toEntries (asKey : Setting → Except Fault String) (setting : Setting) : Except Fault (List (String × Setting)) :=
  match setting with
  | mapping entries => .ok entries
  | other => other.items.bind (insertPairs asKey [] 0)

end Setting

end TurtleMusic
