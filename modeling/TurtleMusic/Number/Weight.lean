import TurtleMusic.Number.Binary

/-!
# Weights

The arithmetic that weighted draws and relative frequencies are made of. The programs compute with doubles; the same definitions over the rationals state what they compute when nothing is rounded.
-/

namespace TurtleMusic.Number

/-- Numbers that options are weighed with. -/
class Weight (W : Type) extends Zero W, Add W, Mul W, Div W, NatCast W, LE W, LT W where
  decideLE : DecidableLE W
  decideLT : DecidableLT W
  floor : W → Int

attribute [reducible, instance] Weight.decideLE Weight.decideLT

instance : Weight Float where
  zero := 0
  natCast := Float.ofNat
  decideLE := Float.decLe
  decideLT := Float.decLt
  floor x := ((Binary.ofFloat? x).map Binary.floor).getD 0

instance : Weight Rat where
  zero := 0
  natCast n := n
  decideLE := inferInstance
  decideLT := inferInstance
  floor := Rat.floor

/-! ### Counting in weights -/

variable {W : Type} [Weight W]

def more (weight : W) : W := weight + ((1 : Nat) : W)

/-- As many ones, added up one by one. -/
def tally (count : Nat) : W := Nat.repeat more count 0

/-- The sum of a row, from left to right. -/
def sum (row : List W) : W := row.foldl (· + ·) 0

end TurtleMusic.Number
