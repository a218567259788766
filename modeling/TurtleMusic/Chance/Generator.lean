import TurtleMusic.Chance.Script
import TurtleMusic.Chance.Twister

/-!
# Generators

The source of chance that programs are run with: a seeded generator, or a script of draws.
-/

namespace TurtleMusic.Chance

open TurtleMusic.Number

inductive Generator where
  | seeded (twister : Twister)
  | scripted (script : Script Float)

namespace Generator

def ofSeed (seed : Int) : Generator := seeded (Twister.ofSeed seed)

def ofDraws (draws : List Float) : Generator := scripted ⟨draws.toArray, 0⟩

def unit : Generator → Float × Generator
  | seeded twister => let drawn := twister.unit; (drawn.1, seeded drawn.2)
  | scripted script => let drawn := script.next; (drawn.1, scripted drawn.2)

def below (bound : Nat) (hbound : 0 < bound) : Generator → Fin bound × Generator
  | seeded twister => let drawn := twister.below bound hbound; (drawn.1, seeded drawn.2)
  | scripted script => let drawn := script.below bound hbound; (drawn.1, scripted drawn.2)

instance : Source Generator Float := ⟨unit, below⟩

end Generator

end TurtleMusic.Chance
