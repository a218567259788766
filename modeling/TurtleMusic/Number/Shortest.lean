import TurtleMusic.Number.Binary

/-!
# The shortest decimal that reads back

A double stands for every real that rounds to it. Its shortest decimal is the one with the fewest digits among those reals, and of these the nearest to the double. For each number of digits only the two grid points around the value need to be tried, so the search is a comparison of whole numbers.
-/

namespace TurtleMusic.Number

/-- A decimal: its digits as a whole number, and the power of ten they are multiplied by. -/
structure Decimal where
  digits : Nat
  exponent : Int
  deriving DecidableEq, Repr

/-- The value and the bounds of its rounding interval, as numerators over one denominator. -/
structure Rounding where
  low : Nat
  value : Nat
  high : Nat
  denominator : Nat
  closed : Bool

/-- The interval reaches half way to both neighbours; below a power of two the neighbour is twice as near. Its ends round to an even mantissa only. -/
def Rounding.of (b : Binary) : Rounding :=
  let scale := b.exponent - 2
  let up := scale.toNat
  let below := if b.mantissa = 0x10000000000000 && b.exponent > -1074 then 1 else 2
  ⟨(4 * b.mantissa - below) <<< up, (4 * b.mantissa) <<< up, (4 * b.mantissa + 2) <<< up, 1 <<< (-scale).toNat,
    b.mantissa % 2 == 0⟩

/-- Whether `candidate / denominator` rounds to the double; `scale` is a common factor of the comparison. -/
def Rounding.holds (r : Rounding) (candidate scale : Nat) : Bool :=
  if r.closed then r.low * scale ≤ candidate && candidate ≤ r.high * scale
  else r.low * scale < candidate && candidate < r.high * scale

def tenTo (exponent : Nat) : Nat := Nat.pow 10 exponent

/-- The grid point with the given power of ten that reads back, the nearer if both neighbours do. -/
def Rounding.gridPoint? (r : Rounding) (exponent : Int) : Option Decimal :=
  let up := tenTo exponent.toNat
  let scale := tenTo (-exponent).toNat
  let unit := up * r.denominator
  let value := r.value * scale
  let below := value / unit
  let above := below + 1
  let holdsBelow := r.holds (below * unit) scale
  let holdsAbove := r.holds (above * unit) scale
  if holdsBelow && holdsAbove then
    let toBelow := value - below * unit
    let toAbove := above * unit - value
    some ⟨if toBelow < toAbove || (toBelow == toAbove && below % 2 == 0) then below else above, exponent⟩
  else if holdsBelow then some ⟨below, exponent⟩
  else if holdsAbove then some ⟨above, exponent⟩
  else none

/-- The power of ten of the leading digit, searched downwards from the given one. -/
def leadingExponent (r : Rounding) (exponent : Int) : Nat → Int
  | 0 => exponent
  | steps + 1 =>
    if tenTo exponent.toNat * r.denominator ≤ r.value * tenTo (-exponent).toNat then exponent
    else leadingExponent r (exponent - 1) steps

/-- Takes the trailing noughts off the digits, at most `places` of them. -/
def Decimal.strip (d : Decimal) : (places : Nat) → Decimal
  | 0 => d
  | places + 1 => if d.digits % 10 = 0 && d.digits ≠ 0 then Decimal.strip ⟨d.digits / 10, d.exponent + 1⟩ places else d

/-- The shortest decimal for a nonzero magnitude. Seventeen digits always suffice. -/
def shortest (b : Binary) : Decimal :=
  let r := Rounding.of b
  let leading := leadingExponent r 308 640
  let found := (List.range 17).findSome? fun (more : Nat) => r.gridPoint? (leading - (more : Int))
  (found.getD ⟨0, 0⟩).strip 20

end TurtleMusic.Number
