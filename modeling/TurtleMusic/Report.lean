/-!
# Reports

What the library says about its work while it does it. A report is the fact; its level and its line of text are derived.
-/

namespace TurtleMusic

inductive ReportLevel where
  | info
  | warning
  | error
  deriving DecidableEq, Repr

inductive Report where
  | unreachableRhythm (target : String) (pulses steps : Nat)
  | silentKey (key : String)
  | corpusKeyChanged (key : String)
  | keyChanged (key : String)
  | markovWithoutCorpus
  | expanded (generations : Int) (symbols : Nat)
  | composed (events tokens : Nat)
  | skippedFolder (path shownName : String)
  | corpusLoaded (folder : String) (counts : List (String × Nat))
  | configMissing (path : String)
  | grammarListed (listing : String)
  | cannotCompose (reason : String)
  | savingMidi (tracks : Nat) (path : String)
  | saved (path : String)
  deriving DecidableEq, Repr

namespace Report

def level : Report → ReportLevel
  | unreachableRhythm .. | silentKey .. | markovWithoutCorpus | skippedFolder .. | configMissing .. => .warning
  | cannotCompose .. => .error
  | _ => .info

def message : Report → String
  | unreachableRhythm target pulses steps => s!"Rhythm '{target}' cannot be generated from E({pulses},{steps})"
  | silentKey key => s!"Corpus has no melodies in {key}"
  | corpusKeyChanged key => s!"Corpus key changed to {key}; re-analyzing"
  | keyChanged key => s!"Key changed to {key}"
  | markovWithoutCorpus => "Markov mode without a corpus: pitches will only follow the turtle"
  | expanded generations symbols => s!"Production after {generations} generation(s): {symbols} symbols"
  | composed events tokens => s!"Composed {events} note event(s) in {tokens} tokens"
  | skippedFolder path shownName => s!"Skipping corpus folder {path}: {shownName} is not a key name"
  | corpusLoaded folder counts =>
    s!"Loaded corpus from {folder}: " ++ ", ".intercalate (counts.map fun count => s!"{count.1} ({count.2})")
  | configMissing path => s!"Config file {path} not found. Using defaults."
  | grammarListed listing => s!"Grammar:\n{listing}"
  | cannotCompose reason => s!"Cannot compose: {reason}"
  | savingMidi tracks path => s!"Saving MIDI file ({tracks} tracks) to {path}..."
  | saved path => s!"Saved {path}"

def levelName : ReportLevel → String
  | .info => "INFO"
  | .warning => "WARNING"
  | .error => "ERROR"

def line (report : Report) : String :=
  levelName report.level ++ " " ++ report.message

end Report

end TurtleMusic
