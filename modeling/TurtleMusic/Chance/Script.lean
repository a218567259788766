import TurtleMusic.Chance.Source

/-!
# Scripted draws

A source that follows a written list of draws and starts over at its end. A whole number below `n` is the draw times `n`, rounded down and kept below `n`, so a draw of one is still in range.
-/

namespace TurtleMusic.Chance

open TurtleMusic.Number

structure Script (W : Type) where
  draws : Array W
  position : Nat := 0

namespace Script

variable {W : Type} [Weight W]

/-- The next draw; an empty script draws nought for ever. -/
def next (script : Script W) : W × Script W :=
  ((script.draws[script.position]?).getD 0, ⟨script.draws, (script.position + 1) % script.draws.size⟩)

def below (bound : Nat) (hbound : 0 < bound) (script : Script W) : Fin bound × Script W :=
  let drawn := script.next
  (⟨min (bound - 1) (Weight.floor (drawn.1 * (bound : W))).toNat, by omega⟩, drawn.2)

instance : Source (Script W) W := ⟨next, below⟩

end Script

end TurtleMusic.Chance
