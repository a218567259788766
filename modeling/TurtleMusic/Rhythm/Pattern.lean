import TurtleMusic.Fault
import TurtleMusic.Text.Blank

/-!
# Pulse patterns

A rhythm on a grid: one truth value a step, true where a pulse falls. This module writes and reads patterns and measures the distances between their pulses.
-/

namespace TurtleMusic

/-- The steps of a rhythm, true at its pulses. -/
abbrev Pattern := List Bool

namespace Pattern

/-! ### Writing and reading -/

def symbol (pulse : Bool) : Char := if pulse then 'x' else '.'

/-- The steps as characters with single spaces between them. -/
def symbols : Pattern → List Char
  | [] => []
  | [pulse] => [symbol pulse]
  | pulse :: next :: rest => symbol pulse :: ' ' :: symbols (next :: rest)

def render (pattern : Pattern) : String := String.ofList (symbols pattern)

/-- What a character says about the next step: a pulse, a pause, or nothing if it is blank. -/
def stepOf? (c : Char) : Option (Option Bool) :=
  if Text.isBlank c then some none
  else if c = 'x' || c = 'X' then some (some true)
  else if c = '.' then some (some false)
  else none

/-- Reads the steps; `whole` is the text that a refusal shows. -/
def readSteps (whole : String) : List Char → Except Fault Pattern
  | [] => .ok []
  | c :: rest =>
    match stepOf? c with
    | none => .error (.unexpectedStep c whole)
    | some step => (readSteps whole rest).map (step.toList ++ ·)

def read (text : String) : Except Fault Pattern := readSteps text text.toList

/-- The one spaced form of a pattern's text. -/
def normalize (text : String) : Except Fault String := (read text).map render

/-! ### Distances -/

/-- The positions of the pulses, counting from `position`. -/
def onsetsFrom (position : Nat) : Pattern → List Nat
  | [] => []
  | true :: rest => position :: onsetsFrom (position + 1) rest
  | false :: rest => onsetsFrom (position + 1) rest

def onsets (pattern : Pattern) : List Nat := onsetsFrom 0 pattern

/-- For each step the length of the note that starts there: up to the next pulse or the end, and nothing at a pause. -/
def legato : Pattern → List Nat
  | [] => []
  | true :: rest => ((rest.takeWhile (!·)).length + 1) :: legato rest
  | false :: rest => 0 :: legato rest

/-- The cyclic distances from each pulse to the next. -/
def gaps (pattern : Pattern) : List Nat :=
  match pattern.onsets with
  | [] => []
  | first :: rest => List.zipWith (· - ·) (rest ++ [first + pattern.length]) (first :: rest)

/-- The pattern turned left until a pulse leads it. -/
def fromFirstPulse (pattern : Pattern) : Pattern :=
  pattern.dropWhile (!·) ++ pattern.takeWhile (!·)

end Pattern

end TurtleMusic
