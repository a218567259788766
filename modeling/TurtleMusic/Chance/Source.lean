import TurtleMusic.Number.Weight

/-!
# Sources of chance

Where draws come from. A source gives a number on the unit scale, or one of the first `n` whole numbers; that the latter is below `n` is part of its type, so nothing the library proves about draws rests on a particular generator.
-/

namespace TurtleMusic.Chance

open TurtleMusic.Number

/-- A source of chance with states `σ` that draws weights in `W`. -/
class Source (σ : Type) (W : Type) where
  unit : σ → W × σ
  below : (bound : Nat) → 0 < bound → σ → Fin bound × σ

/-- A whole number from `low` to `high`, both included; `low` if there is no such number. -/
def between {σ : Type} (W : Type) [Source σ W] (low high : Nat) (source : σ) : Nat × σ :=
  let drawn := Source.below (W := W) (high - low + 1) (Nat.succ_pos _) source
  (low + drawn.1, drawn.2)

end TurtleMusic.Chance
