/-!
# Binary floating-point numbers, taken apart

A finite double is a whole number times a power of two. Everything the library needs to know about a double exactly, its floor and its decimal text, is computed from these two.
-/

namespace TurtleMusic.Number

/-- The number `(-1) ^ negative * mantissa * 2 ^ exponent`. -/
structure Binary where
  negative : Bool
  mantissa : Nat
  exponent : Int
  deriving DecidableEq, Repr

/-- The parts of a double, from its 64 bits: one for the sign, eleven for the exponent and 52 for the fraction. An infinity or a NaN has none. -/
def Binary.ofFloat? (x : Float) : Option Binary :=
  let bits := x.toBits.toNat
  let negative := bits >>> 63 == 1
  let biased : Nat := (bits >>> 52) % 2048
  let fraction := bits % 0x10000000000000
  if biased = 2047 then none
  else if biased = 0 then some ⟨negative, fraction, -1074⟩
  else some ⟨negative, 0x10000000000000 + fraction, (biased : Int) - 1075⟩

/-- The magnitude is this over the denominator. -/
def Binary.numerator (b : Binary) : Nat := b.mantissa <<< b.exponent.toNat

def Binary.denominator (b : Binary) : Nat := 1 <<< (-b.exponent).toNat

/-- The greatest integer that is not above the number. -/
def Binary.floor (b : Binary) : Int :=
  if b.negative then -((b.numerator + (b.denominator - 1)) / b.denominator : Nat) else (b.numerator / b.denominator : Nat)

/-- The integer part, found by dropping the fraction. -/
def Binary.truncate (b : Binary) : Int :=
  let whole : Nat := b.numerator / b.denominator
  if b.negative then -whole else whole

def Binary.isWhole (b : Binary) : Bool := b.numerator % b.denominator == 0

end TurtleMusic.Number
