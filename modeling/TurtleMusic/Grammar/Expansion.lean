/-!
# Expansion

The growth of a text under the rules of an L-system. A round replaces every character of the text at once, so a round is a homomorphism of texts and the rounds add up.
-/

namespace TurtleMusic.Grammar

/-- Replacements for characters; a character without one stays as it is. -/
abbrev Rules := Char → Option (List Char)

/-- One round: every character is replaced at once. -/
def substitute (rules : Rules) (text : List Char) : List Char :=
  text.flatMap fun c => (rules c).getD [c]

/-- The text after a number of rounds. -/
def expand (rules : Rules) : (generations : Nat) → List Char → List Char
  | 0, text => text
  | generations + 1, text => expand rules generations (substitute rules text)

@[simp] theorem substitute_nil (rules : Rules) : substitute rules [] = [] := rfl

@[simp] theorem substitute_append (rules : Rules) (left right : List Char) :
    substitute rules (left ++ right) = substitute rules left ++ substitute rules right := by
  simp [substitute]

end TurtleMusic.Grammar
