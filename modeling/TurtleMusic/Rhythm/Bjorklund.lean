import TurtleMusic.Rhythm.Pattern

/-!
# The Bjorklund listing

Pulses spread over steps as evenly as possible, by the division scheme of Euclid's algorithm. Each level writes the word of the level before it as often as the quotient says and closes with the word before that; the levels end when the remainder is at most one.
-/

namespace TurtleMusic

namespace Bjorklund

/-- `count` copies of a word in a row. -/
def copies (count : Nat) (word : Pattern) : Pattern := (List.replicate count word).flatten

/-- The word of the last level, from the words of two levels in a row and the division that the next level makes. -/
def levels (older newer : Pattern) (dividend divisor : Nat) (_ : 0 < divisor) : Pattern :=
  let word := copies (dividend / divisor) newer ++ older
  let remainder := dividend % divisor
  if hlast : remainder ≤ 1 then copies divisor word ++ if remainder = 0 then [] else newer
  else levels newer word divisor remainder (by omega)
  termination_by divisor
  decreasing_by exact Nat.mod_lt _ ‹0 < divisor›

/-- The listing for a number of pulses and of steps that is not above it. -/
def listing (pulses steps : Nat) : Pattern :=
  if hnone : pulses = 0 then List.replicate steps false
  else if pulses = steps then List.replicate steps true
  else (levels [true] [false] (steps - pulses) pulses (by omega)).fromFirstPulse

end Bjorklund

/-- How many of `steps` positions get a pulse when `pulses` are asked for. -/
def clampedPulses (pulses steps : Int) : Nat := (max 0 (min pulses steps)).toNat

/-- The classic listing for any numbers; pulses beyond the steps fall away. -/
def bjorklund (steps pulses : Int) : Pattern :=
  Bjorklund.listing (clampedPulses pulses (max 0 steps)) steps.toNat

end TurtleMusic
