import TurtleMusic.Number.Nearest

/-!
# Logarithms of powers of two

The binary logarithm of a power of two as doubles find it, which is the quotient of two natural logarithms. The logarithms are rounded and so is their quotient, and for some exponents the errors do not cancel: what comes out is next to the exponent, but no whole number.
-/

namespace TurtleMusic.Number

/-- The natural logarithm of two, as a whole number of `2 ^ -128`. -/
def lnTwo : Nat := 0xb17217f7d1cf79abc9e3b39803f2f6af

/-- The natural logarithm of `2 ^ exponent` as a double. -/
def lnOfPower (exponent : Nat) : Binary := Binary.nearest (exponent * lnTwo) (1 <<< 128)

/-- The binary logarithm of `2 ^ exponent` as a quotient of doubles. -/
def logOfPower (exponent : Nat) : Binary := (lnOfPower exponent).quotient (lnOfPower 1)

/-- Whether the binary logarithm of `2 ^ exponent` comes out whole. -/
def isExactPower (exponent : Nat) : Bool := (logOfPower exponent).isWhole

end TurtleMusic.Number
