import TurtleMusic.Grammar.Expansion
import TurtleMusic.Grammar.Brackets

/-!
# Grammars

An L-system is an alphabet, an axiom and one rule for each symbol of the alphabet. A grammar can be written down wrongly, so it is validated before it is expanded: there must be as many rules as symbols, and the symbols must be single characters and differ.
-/

namespace TurtleMusic

structure Grammar where
  alphabet : List String
  axiomText : String
  rules : List String
  deriving DecidableEq, Repr

namespace Grammar

/-- Puts a value at a key: in the key's place if it has one, at the end if not. -/
def record (key value : String) : List (String × String) → List (String × String)
  | [] => [(key, value)]
  | entry :: rest => if entry.1 = key then (key, value) :: rest else entry :: record key value rest

/-- Entries in the order their keys first appear, each with the value that its key was given last. -/
def recordAll (entries : List (String × String)) : List (String × String) :=
  entries.foldl (fun recorded entry => record entry.1 entry.2 recorded) []

def ofEntries (axiomText : String) (entries : List (String × String)) : Grammar :=
  ⟨(recordAll entries).map (·.1), axiomText, (recordAll entries).map (·.2)⟩

def ruleEntries (grammar : Grammar) : List (String × String) :=
  recordAll (grammar.alphabet.zip grammar.rules)

def rulesOf (entries : List (String × String)) : Rules := fun c =>
  (entries.lookup c.toString).map String.toList

def distinct : List String → Bool
  | [] => true
  | symbol :: rest => !rest.contains symbol && distinct rest

def validate (grammar : Grammar) : Except Fault Unit :=
  if grammar.alphabet.length ≠ grammar.rules.length then
    .error (.ruleCount grammar.alphabet.length grammar.rules.length)
  else match grammar.alphabet.find? fun symbol => symbol.length ≠ 1 with
    | some symbol => .error (.symbolLength symbol)
    | none => if distinct grammar.alphabet then .ok () else .error (.duplicateSymbols grammar.alphabet)

/-- Expands an axiom for a number of rounds, which may not be negative. -/
def expandText (axiomText : String) (rules : Rules) (generations : Int) : Except Fault (List Char) :=
  if generations < 0 then .error (.negativeGenerations generations)
  else .ok (Grammar.expand rules generations.toNat axiomText.toList)

def production (grammar : Grammar) (generations : Int) : Except Fault (List Char) :=
  grammar.validate.bind fun _ => expandText grammar.axiomText (rulesOf grammar.ruleEntries) generations

def describe (grammar : Grammar) : String :=
  "\n".intercalate
    (["Alphabet: " ++ " ".intercalate grammar.alphabet, "Axiom: " ++ grammar.axiomText, "Rules:"] ++
      List.zipWith (fun symbol rule => s!"\t{symbol}: {rule}") grammar.alphabet grammar.rules)

/-! ### Presets -/

def presets : List Grammar :=
  [⟨["A", "B"], "A", ["g+g-gB", "+g-gB"]⟩,
    ⟨["A", "B"], "A", ["-Bg+AgA+gB-", "+Ag-BgB-gA+"]⟩,
    ⟨["A", "B"], "A", ["A+g-gB-g+g+g-", "-g+gA-g+"]⟩,
    ⟨["A"], "A", ["g+gg-g+gg-g+ggg-g-ggg+g-gg+g-gg+g"]⟩,
    ⟨["A", "B", "C", "D"], "ACA", ["g-gBg+AgA+gBg-g", "+Ag-BgB-gA+", "+Cg+g-g-CgC-g-g+gC+", "-g+gA-g+"]⟩]

def preset (index : Int) : Except Fault Grammar :=
  match (if 0 ≤ index then presets[index.toNat]? else none) with
  | some grammar => .ok grammar
  | none => .error (.unknownPreset index (presets.length - 1))

end Grammar

end TurtleMusic
