/-!
# Whole numbers as they are given

A flag may stand where a whole number is expected. It counts as nought or one and keeps its name where the number is shown.
-/

namespace TurtleMusic

def Text.flagName (value : Bool) : String := if value then "True" else "False"

inductive Whole where
  | number (n : Int)
  | flag (value : Bool)
  deriving DecidableEq, Repr

namespace Whole

def value : Whole → Int
  | number n => n
  | flag value => if value then 1 else 0

def text : Whole → String
  | number n => toString n
  | flag value => Text.flagName value

instance : ToString Whole := ⟨text⟩

instance : Coe Int Whole := ⟨number⟩

instance {n : Nat} : OfNat Whole n := ⟨number n⟩

end Whole

end TurtleMusic
