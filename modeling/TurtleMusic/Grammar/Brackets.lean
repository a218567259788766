import TurtleMusic.Fault

/-!
# Brackets

The check that every opening bracket of a production has its closing one. It walks the text with the number of brackets still open and stops at a closing bracket that has none to close.
-/

namespace TurtleMusic.Grammar

/-- The number of brackets still open at the end of the text, which starts at `position` with `depth` of them open. -/
def openBrackets (position depth : Nat) : List Char → Except Fault Nat
  | [] => .ok depth
  | c :: rest =>
    if c = '[' then openBrackets (position + 1) (depth + 1) rest
    else if c = ']' then
      match depth with
      | 0 => .error (.unexpectedClose position)
      | depth + 1 => openBrackets (position + 1) depth rest
    else openBrackets (position + 1) depth rest

/-- Refuses a text whose brackets do not pair. -/
def checkBrackets (text : List Char) : Except Fault Unit :=
  match openBrackets 0 0 text with
  | .error fault => .error fault
  | .ok 0 => .ok ()
  | .ok (depth + 1) => .error (.unclosed (depth + 1))

end TurtleMusic.Grammar
