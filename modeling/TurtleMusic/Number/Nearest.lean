import TurtleMusic.Number.Binary

/-!
# Nearest numbers

Quotients of whole numbers, rounded to a whole number or to the precision of a double. A half goes to the even neighbour.
-/

namespace TurtleMusic.Number

/-- The quotient as a whole number, a half going to the even neighbour. -/
def roundDiv (dividend divisor : Nat) : Nat :=
  let quotient := dividend / divisor
  let twice := 2 * (dividend % divisor)
  if twice < divisor || (twice == divisor && quotient % 2 == 0) then quotient else quotient + 1

namespace Binary

/-- The quotient of two whole numbers with a mantissa of 53 bits, whatever the exponent. -/
def nearest (dividend divisor : Nat) : Binary :=
  let scaled (exponent : Int) : Nat × Nat := (dividend <<< (-exponent).toNat, divisor <<< exponent.toNat)
  let low : Int := (dividend.log2 : Int) - divisor.log2 - 53
  let exponent := if (scaled low).1 / (scaled low).2 < 0x20000000000000 then low else low + 1
  ⟨false, roundDiv (scaled exponent).1 (scaled exponent).2, exponent⟩

/-- The quotient of two magnitudes, rounded to the precision of a double. -/
def quotient (dividend divisor : Binary) : Binary :=
  nearest (dividend.numerator * divisor.denominator) (dividend.denominator * divisor.numerator)

end Binary

end TurtleMusic.Number
