import TurtleMusic.Command.Section
import TurtleMusic.Composer.Seeding
import TurtleMusic.Corpus.Loading
import TurtleMusic.Midi.Export

/-!
# The command line

Composing from a configuration file: the score is printed, and written as text and as MIDI where the configuration says so. What the caller's values are to blame for is reported and ends the run with a code; every other fault ends it without one.
-/

namespace TurtleMusic.Command

open TurtleMusic.Chance TurtleMusic.Files

/-- What a run can see: the files, and how a configuration file is read. -/
structure Surroundings where
  tree : Tree
  /-- The value that a file holds, by its place and its content. -/
  document : Place → List UInt8 → Except Fault Setting
  fallback : Generator

structure Finish where
  code : Option Nat
  printed : String
  tree : Tree
  reports : List Report
  fault : Option Fault

def defaultConfigPath : String := "config.yaml"

/-! ### Files -/

/-- The value of a configuration file; a file that is missing counts as an empty one. -/
def readConfig (surroundings : Surroundings) (path : String) : Account Setting :=
  if surroundings.tree.isPresentAt path then do
    let (place, content) ← Account.quiet (surroundings.tree.read path)
    Account.quiet (surroundings.document place content)
  else do
    Account.report (.configMissing path)
    return .mapping []

/-- Why nothing can be written to a value that is no path. A number would have to be that of an open file. -/
def targetFault : Setting → Fault
  | .flag _ => .notOpen
  | .integer number =>
    if !isFileNumber number then .wrongType else if number < 0 then .negativeFileNumber else .notOpen
  | _ => .wrongType

def writeTo (tree : Tree) (target : Setting) (content : List UInt8) : Except Fault Tree :=
  match target with
  | .text path => tree.write path content
  | other => .error (targetFault other)

/-! ### The run -/

/-- A token with its number as the settings give it. A number given as a flag leaves a word that is no token of music. -/
def spellToken (given : Config.Given) : Token → Token
  | .tempo n =>
    match given.shown "tempo" n with
    | .number n => .tempo n
    | shown => .verbatim ('T' :: shown.text.toList)
  | .instrument n =>
    match given.shown "instrument" n with
    | .number n => .instrument n
    | shown => .verbatim ('I' :: shown.text.toList)
  | other => other

def composeScore (surroundings : Surroundings) (entries : List (String × Setting)) : Account Score := do
  let (grammar, generations) ← Account.quiet (grammarOf (Setting.get entries "grammar"))
  let settings ← Account.quiet (Config.ofSetting (Setting.get entries "composer"))
  let corpus ← NamedMelodies.load surroundings.tree (Setting.get entries "corpus")
  Account.report (.grammarListed grammar.describe)
  let given := if corpus.isEmpty then none else some (CorpusGiven.source corpus.source)
  let composer ← Account.told (Composer.makeSeeded settings.config given none surroundings.fallback)
  let composed := composer.composeGrammar grammar generations
  composed.account.andThen fun _ =>
    let score := composed.state.score
    pure { score with written := score.written.map (spellToken settings) }

/-- A change of the tree that may fail, with what there is to say about it if it does not. -/
def change (tree : Tree) (changed : Except Fault Tree) (account : Account Unit) : Outcome Tree Unit :=
  match changed with
  | .error fault => ⟨tree, .quiet (.error fault)⟩
  | .ok tree => ⟨tree, account⟩

def saveText (tree : Tree) (score : Score) (target : Setting) : Outcome Tree Unit :=
  change tree (writeTo tree target (score.text ++ "\n").toUTF8.toList) (.report (.saved target.display))

/-- Writes a score as MIDI. The file is there, and empty, before its bytes are made. -/
def saveMidi (tree : Tree) (sheet : Sheet) (target : Setting) : Outcome Tree Unit :=
  match sheet.events?.bind Midi.File.ofEvents with
  | .error fault => ⟨tree, .quiet (.error fault)⟩
  | .ok file =>
    (((Outcome.mk tree (.report (.savingMidi (file.tracks.length - 1) target.display))).andThen fun tree =>
      change tree (writeTo tree target []) (pure ())).andThen fun tree =>
        change tree (file.encode.bind (writeTo tree target)) (.report (.saved target.display)))

/-- Writes the score where the output section says, first as text, then as MIDI. What counts as nothing is not written to. -/
def saveScore (tree : Tree) (output : Setting) (score : Score) : Outcome Tree Unit :=
  match output.entries with
  | .error fault => ⟨tree, .quiet (.error fault)⟩
  | .ok entries =>
    let save (key : String) (write : Tree → Score → Setting → Outcome Tree Unit) (tree : Tree) : Outcome Tree Unit :=
      let target := Setting.get entries key
      if target.isSomething then write tree score target else ⟨tree, pure ()⟩
    (save "score" saveText tree).andThen (save "midi" fun tree score => saveMidi tree (.ofScore score))

/-- The faults that a run reports and ends on with a code. -/
def isForeseen (fault : Fault) : Bool :=
  fault.blamesValue || fault.kind = .missingFile

def run (surroundings : Surroundings) (arguments : List String) : Finish :=
  let tree := surroundings.tree
  let read : Account (List (String × Setting)) := do
    let value ← readConfig surroundings (arguments.headD defaultConfigPath)
    Account.quiet value.entries
  match read.result with
  | .error fault => ⟨none, "", tree, read.reports, some fault⟩
  | .ok entries =>
    let composed := composeScore surroundings entries
    let reports := read.reports ++ composed.reports
    match composed.result with
    | .error fault =>
      if isForeseen fault then ⟨some 1, "", tree, reports ++ [.cannotCompose fault.message], none⟩
      else ⟨none, "", tree, reports, some fault⟩
    | .ok score =>
      let saved := saveScore tree (Setting.get entries "output") score
      let finish (code : Option Nat) (fault : Option Fault) : Finish :=
        ⟨code, score.text ++ "\n", saved.state, reports ++ saved.account.reports, fault⟩
      match saved.account.result with
      | .error fault => finish none (some fault)
      | .ok () => finish (some 0) none

end TurtleMusic.Command
