import TurtleMusic.Composer.Config
import TurtleMusic.Corpus.Model
import TurtleMusic.Harmony.Progression
import TurtleMusic.Rhythm.Euclidean
import TurtleMusic.Score.Basic
import TurtleMusic.Turtle.Basic

/-!
# Composers

A composer walks over a production with a turtle and writes a score. What each character does is its handler's business; the state that handlers work on is defined here.
-/

namespace TurtleMusic

open TurtleMusic.Number TurtleMusic.Chance

/-- What a character of a production makes the composer do. -/
inductive Handler where
  /-- Turns by the angle, as often as the number says. -/
  | turn (times : Int)
  /-- A stroke with sound. -/
  | draw
  /-- A stroke without sound. -/
  | move
  /-- A rest, when the heading is horizontal. -/
  | rest
  | openBranch
  | closeBranch
  | shiftHue (times : Int)
  | write (text : String)
  /-- Writes the place of the character in the production as the value of a controller. -/
  | writeIndex (controller : Int)
  | thicken (amount : Int)
  | setHeight (height : Int)
  | setKey (key : KeyRef)
  deriving DecidableEq, Repr

/-- Where a branch was put: on a new layer, in a new voice, or nowhere of its own. -/
inductive Branch where
  | layer
  | voice
  | flat
  deriving DecidableEq, Repr

/-- A composer with its settings, its source of chance and everything that changes during a pass. -/
structure Composer (σ W : Type) where
  config : Config
  source : σ
  /-- The source as every pass starts with it, if passes are to start alike. -/
  restart : Option σ
  turtle : Turtle
  score : Score
  corpus : Option (CorpusModel W)
  progression : Option Progression
  handlers : List (Char × Handler)
  /-- The open branches, innermost first. -/
  branches : List Branch := []
  /-- The lengths that are left of the running measure, in steps. -/
  durations : List Nat := []
  measures : Nat := 0
  /-- Whether the next sound of this measure is to be a chord. -/
  chordDue : Bool := false

inductive CorpusGiven (W : Type) where
  | model (model : CorpusModel W)
  | source (source : CorpusSource)

namespace Composer

def defaultHandlers : List (Char × Handler) :=
  [('-', .turn 1), ('+', .turn (-1)), ('g', .draw), ('f', .move), ('r', .rest), ('[', .openBranch),
    (']', .closeBranch), ('#', .shiftHue 1), ('@', .shiftHue (-1))]

variable {σ W : Type} [Weight W]

/-- The corpus of a new composer: a model is taken as it is, melodies are counted in the key of the score. -/
def takeCorpus (given : Option (CorpusGiven W)) (key : PitchClass) (order : Int) :
    Except Fault (Option (CorpusModel W) × List Report) :=
  match given with
  | none => .ok (none, [])
  | some (.model model) => .ok (some model, [])
  | some (.source source) =>
    (CorpusModel.make source (.number key.toPitch) order).map fun made => (some made.1, made.2)

/-- A composer with valid settings. With `restart` every pass starts from that source. -/
def make (config : Config) (given : Option (CorpusGiven W)) (source : σ) (restart : Option σ) :
    Except Fault (Composer σ W × List Report) := do
  config.validate
  let score ← Score.make config.key config.tempo config.instrument
  let (corpus, reports) ← takeCorpus given score.keyClass config.order
  let progression ←
    if config.markov && config.chordEvery > 0 then (Progression.make Progression.defaultMaxLength).map some else .ok none
  let composer := {
    config, source, restart, score, corpus, progression,
    turtle := Turtle.make config.angle config.hueStep {},
    handlers := defaultHandlers }
  return (composer, reports ++ if config.markov && corpus.isNone then [.markovWithoutCorpus] else [])

/-! ### Handlers -/

def handler? (composer : Composer σ W) (symbol : Char) : Option Handler := composer.handlers.lookup symbol

/-- The handler of a symbol that has to have one. -/
def handlerOf (composer : Composer σ W) (symbol : String) : Except Fault Handler :=
  match symbol.toList with
  | [c] => match composer.handler? c with
    | some handler => .ok handler
    | none => .error .noHandler
  | _ => .error .noHandler

/-- Gives a character a handler, in place of the one it may have. -/
def setHandler (symbol : Char) (handler : Handler) : List (Char × Handler) → List (Char × Handler)
  | [] => [(symbol, handler)]
  | entry :: rest =>
    if entry.1 = symbol then (symbol, handler) :: rest else entry :: setHandler symbol handler rest

/-- Registers a handler for a symbol, which has to be one character. -/
def register (composer : Composer σ W) (symbol : String) (handler : Handler) : Except Fault (Composer σ W) :=
  match symbol.toList with
  | [c] => .ok { composer with handlers := setHandler c handler composer.handlers }
  | _ => .error (.handlerSymbol symbol)

def symbols (composer : Composer σ W) : List Char :=
  (composer.handlers.map (·.1)).mergeSort fun left right => left ≤ right

end Composer

end TurtleMusic
