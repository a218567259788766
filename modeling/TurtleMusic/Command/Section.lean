import TurtleMusic.Grammar.Basic
import TurtleMusic.Setting.Basic

/-!
# The grammar of a configuration

A configuration names a preset grammar or spells one out, with its rules in a row beside the alphabet or symbol by symbol, and says for how many generations it is to be expanded.
-/

namespace TurtleMusic.Command

def defaultGenerations : Setting := .integer 4

def spelledGrammar (entries : List (String × Setting)) (axiomText : String) : Except Fault Grammar := do
  let rules := Setting.get entries "rules"
  match (if rules.isSomething then rules else .mapping []) with
  | .mapping rules => return Grammar.ofEntries axiomText (rules.map fun rule => (rule.1, rule.2.display))
  | rules =>
    let alphabet ← ((entries.lookup "alphabet").getD (.list [])).items
    return ⟨alphabet.map Setting.display, axiomText, (← rules.items).map Setting.display⟩

def grammarOf (value : Setting) : Except Fault (Grammar × Int) := do
  let entries ← value.entries
  let generations ← ((entries.lookup "generations").getD defaultGenerations).toInteger
  match entries.lookup "axiom" with
  | none =>
    let index ← ((entries.lookup "preset").getD (.integer 0)).toInteger
    return (← Grammar.preset index, generations)
  | some axiomValue => return (← spelledGrammar entries axiomValue.display, generations)

end TurtleMusic.Command
