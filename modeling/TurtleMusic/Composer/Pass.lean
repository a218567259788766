import TurtleMusic.Account
import TurtleMusic.Composer.Branch
import TurtleMusic.Composer.Stroke
import TurtleMusic.Grammar.Basic

/-!
# Passes

A pass composes one production from its first character to its last. Unpaired brackets are refused before anything changes; after that everything a former pass may have left is set back. A handler that fails ends the pass and leaves what was composed up to it.
-/

namespace TurtleMusic

open TurtleMusic.Number TurtleMusic.Chance

namespace Composer

variable {σ W : Type} [Weight W]

/-- Changes the key; the corpus follows only if it is another one. -/
def setKey (composer : Composer σ W) (key : KeyRef) : Except Fault (Composer σ W × List Report) :=
  (composer.score.setKey key).map fun changed =>
    if changed.1 then
      let moved := composer.corpus.map fun corpus => (corpus.moveTo changed.2.keyClass).2
      ({ composer with score := changed.2, corpus := moved.map (·.1) },
        .keyChanged changed.2.key.name :: (moved.map (·.2)).getD [])
    else (composer, [])

/-- What a handler does at a place in the production; `rest` is the production after it. -/
def perform [Source σ W] (composer : Composer σ W) (index : Nat) (rest : List Char) :
    Handler → Except Fault (Composer σ W × List Report)
  | .turn times => .ok ({ composer with turtle := composer.turtle.turn times }, [])
  | .draw => (composer.stroke true).map (·, [])
  | .move => (composer.stroke false).map (·, [])
  | .rest => composer.pause.map (·, [])
  | .openBranch => .ok (composer.openBranch, [])
  | .closeBranch => composer.closeBranch.map (·, [])
  | .shiftHue times => .ok (composer.shiftHue times rest, [])
  | .write text => .ok ({ composer with score := composer.score.append (.verbatim text.toList) }, [])
  | .writeIndex controller =>
    let text := s!"X{controller}={index}"
    .ok ({ composer with score := composer.score.append (.verbatim text.toList) }, [])
  | .thicken amount =>
    .ok ({ composer with turtle := composer.turtle.setThickness (composer.turtle.pose.thickness + amount) }, [])
  | .setHeight height => .ok ({ composer with turtle := composer.turtle.setY height }, [])
  | .setKey key => composer.setKey key

/-- One character of a production. A character without a handler does nothing. -/
def step [Source σ W] (composer : Composer σ W) (index : Nat) (symbol : Char) (rest : List Char) :
    Except Fault (Composer σ W × List Report) :=
  match composer.handler? symbol with
  | none => .ok (composer, [])
  | some handler => composer.perform index rest handler

def walk [Source σ W] (composer : Composer σ W) (index : Nat) (reports : List Report) :
    List Char → Outcome (Composer σ W) Unit
  | [] => ⟨composer, ⟨reports, .ok ()⟩⟩
  | symbol :: rest =>
    match composer.step index symbol rest with
    | .error fault => ⟨composer, ⟨reports, .error fault⟩⟩
    | .ok (composer, more) => walk composer (index + 1) (reports ++ more) rest

/-- Sets back everything that belongs to a single pass. The turtle starts on the tonic, brought into the range. -/
def begin (composer : Composer σ W) : Except Fault (Composer σ W × List Report) :=
  let score := composer.score.start
  (Pitch.clamp score.key.tonic composer.config.low composer.config.high).map fun tonic =>
    let moved := composer.corpus.map fun corpus => (corpus.moveTo score.keyClass).2
    ({ composer with
      source := composer.restart.getD composer.source
      turtle := (composer.turtle.reset (some composer.config.angle)).setY tonic
      score
      corpus := moved.map (·.1)
      progression := composer.progression.map Progression.reset
      branches := []
      durations := []
      measures := 0
      chordDue := false },
      (moved.map (·.2)).getD [])

def compose [Source σ W] (composer : Composer σ W) (production : List Char) : Outcome (Composer σ W) Unit :=
  match (Grammar.checkBrackets production).bind fun _ => composer.begin with
  | .error fault => ⟨composer, .quiet (.error fault)⟩
  | .ok (begun, reports) =>
    (begun.walk 0 reports production).andThen fun composer =>
      ⟨composer, .report (.composed composer.score.events composer.score.written.length)⟩

def composeGrammar [Source σ W] (composer : Composer σ W) (grammar : Grammar) (generations : Int) :
    Outcome (Composer σ W) Unit :=
  match grammar.production generations with
  | .error fault => ⟨composer, .quiet (.error fault)⟩
  | .ok production =>
    (Outcome.mk composer (.report (.expanded generations production.length))).andThen fun composer =>
      composer.compose production

end Composer

end TurtleMusic
