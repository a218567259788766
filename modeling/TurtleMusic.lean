import TurtleMusic.Chance.Chain
import TurtleMusic.Main
import TurtleMusic.Proofs.Composer.Agreement
import TurtleMusic.Proofs.Composer.Playable
import TurtleMusic.Proofs.Composer.Scopes
import TurtleMusic.Proofs.Rhythm.Groups
import TurtleMusic.Proofs.Composer.Measuring
import TurtleMusic.Proofs.Composer.Moments
import TurtleMusic.Proofs.Composer.Clock
import TurtleMusic.Proofs.Composer.Chording
import TurtleMusic.Proofs.Composer.Repeating
import TurtleMusic.Proofs.Number.Tally
import TurtleMusic.Proofs.Corpus.Following
import TurtleMusic.Proofs.Pitch.Nearest
import TurtleMusic.Proofs.Composer.Melody
import TurtleMusic.Proofs.Rhythm.Turning
import TurtleMusic.Proofs.Rhythm.Listing
import TurtleMusic.Proofs.Harmony.Walk
import TurtleMusic.Proofs.Corpus.Frequencies
import TurtleMusic.Proofs.Composer.Silent
import TurtleMusic.Proofs.Midi.Saving
import TurtleMusic.Proofs.Composer.Exportable
import TurtleMusic.Proofs.Rhythm.Notation
import TurtleMusic.Proofs.Rhythm.Seeking
import TurtleMusic.Proofs.Chance.Rolls
import TurtleMusic.Proofs.Corpus.Sampling
import TurtleMusic.Proofs.Grammar.Growing
import TurtleMusic.Proofs.Score.Slots
import TurtleMusic.Proofs.Composer.Tidy
import TurtleMusic.Proofs.Composer.HueRuns
import TurtleMusic.Proofs.Composer.Hues
import TurtleMusic.Proofs.Score.Refusing
import TurtleMusic.Proofs.Turtle.Scopes
import TurtleMusic.Proofs.Rhythm.Onsets
import TurtleMusic.Proofs.Score.Shortest
import TurtleMusic.Proofs.Chance.Chain
import TurtleMusic.Proofs.Corpus.Scores
import TurtleMusic.Proofs.Grammar.Parts
import TurtleMusic.Proofs.Rhythm.Spelling
