import TurtleMusic.Chance.Generator
import TurtleMusic.Composer.Pass

/-!
# Seeded composers

Which source of chance a composer works with. A source that is given is used as it is. Otherwise the seed of the settings decides, and every pass starts from it; without a seed the fallback serves.
-/

namespace TurtleMusic.Composer

open TurtleMusic.Chance

def makeSeeded (config : Config) (given : Option (CorpusGiven Float)) (generator : Option Generator)
    (fallback : Generator) : Except Fault (Composer Generator Float × List Report) :=
  match generator, config.seed with
  | some generator, _ => make config given generator none
  | none, some seed => make config given (Generator.ofSeed seed) (some (Generator.ofSeed seed))
  | none, none => make config given fallback none

end TurtleMusic.Composer
