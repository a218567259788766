import TurtleMusic.Pitch.Key
import TurtleMusic.Setting.Basic

/-!
# Composer settings

What can be set about a composer, with the values it has if nothing is set, the reading of settings from a mapping and the judgement of whether they can be worked with.
-/

namespace TurtleMusic

structure Config where
  angle : Int := 90
  key : KeyRef := .number 1
  tempo : Int := 120
  instrument : Int := 80
  /-- Whether rhythm, pitches and chords are left to chance. -/
  markov : Bool := false
  order : Int := 1
  low : Int := 24
  high : Int := 108
  /-- The length of a stroke when nothing is left to chance, in 128th notes. -/
  noteUnits : Int := 16
  stepsPerMeasure : Int := 16
  minPulses : Int := 3
  maxPulses : Int := 9
  /-- The number of measures from one chord to the next; nought for no chords. -/
  chordEvery : Int := 4
  /-- How many tones of a chord are written. -/
  harmonyVoices : Int := 3
  hueStep : Int := 10
  seed : Option Int := none
  deriving DecidableEq, Repr

namespace Config

/-- The length of a measure in 128th notes. -/
def measureUnits : Int := 128

/-- Refuses settings that a composer cannot work with. The first reason counts; it names the settings it is about in the way they are shown. -/
def judge (config : Config) (shown : String → Int → Whole) : Except Fault Unit := do
  let _ ← config.key.key
  if config.tempo ≤ 0 then .error (.tempoNotPositive (shown "tempo" config.tempo))
  else if ¬(0 ≤ config.low ∧ config.low < config.high ∧ config.high ≤ 127) then
    .error (.pitchBounds (shown "low" config.low) (shown "high" config.high))
  else if config.high - config.low < 11 then .error (.pitchSpan (shown "low" config.low) (shown "high" config.high))
  else if config.order ≠ 1 ∧ config.order ≠ 2 then .error (.markovOrder (shown "order" config.order))
  else if config.noteUnits ≤ 0 then .error .noteLengthNotPositive
  else if config.stepsPerMeasure ≤ 0 ∨ measureUnits % config.stepsPerMeasure ≠ 0 then
    .error (.stepsPerMeasure (shown "steps_per_measure" config.stepsPerMeasure) measureUnits)
  else if ¬(0 ≤ config.minPulses ∧ config.minPulses ≤ config.maxPulses ∧ config.maxPulses ≤ config.stepsPerMeasure) then
    .error (.pulseBounds (shown "min_pulses" config.minPulses) (shown "max_pulses" config.maxPulses)
      (shown "steps_per_measure" config.stepsPerMeasure))
  else if config.chordEvery < 0 then .error .negativeChordSpacing
  else if ¬(1 ≤ config.harmonyVoices ∧ config.harmonyVoices ≤ 3) then
    .error (.harmonyVoices (shown "harmony_voices" config.harmonyVoices))
  else .ok ()

def validate (config : Config) : Except Fault Unit := config.judge fun _ n => n

/-! ### Reading -/

def names : List String :=
  ["angle", "chord_every", "harmony_voices", "high", "hue_step", "instrument", "key", "low", "markov", "max_pulses",
    "min_pulses", "note_units", "order", "seed", "steps_per_measure", "tempo"]

def readKey : Setting → Except Fault KeyRef
  | .integer n => .ok (.number n)
  | .flag value => .ok (.number (.flag value))
  | .text name => .ok (.name name)
  | .list _ | .mapping _ => .error .wrongType
  | other => .error (.unknownKey other.shown)

def readSeed : Setting → Except Fault (Option Int)
  | .null => .ok none
  | other => other.whole.map fun n => some n.value

/-- Sets one setting by name; a name that is none changes nothing. -/
def set (config : Config) (name : String) (value : Setting) : Except Fault Config :=
  match name with
  | "angle" => value.whole.map fun n => { config with angle := n.value }
  | "chord_every" => value.whole.map fun n => { config with chordEvery := n.value }
  | "harmony_voices" => value.whole.map fun n => { config with harmonyVoices := n.value }
  | "high" => value.whole.map fun n => { config with high := n.value }
  | "hue_step" => value.whole.map fun n => { config with hueStep := n.value }
  | "instrument" => value.whole.map fun n => { config with instrument := n.value }
  | "key" => (readKey value).map fun key => { config with key := key }
  | "low" => value.whole.map fun n => { config with low := n.value }
  | "markov" => .ok { config with markov := value.isSomething }
  | "max_pulses" => value.whole.map fun n => { config with maxPulses := n.value }
  | "min_pulses" => value.whole.map fun n => { config with minPulses := n.value }
  | "note_units" => value.whole.map fun n => { config with noteUnits := n.value }
  | "order" => value.whole.map fun n => { config with order := n.value }
  | "seed" => (readSeed value).map fun seed => { config with seed := seed }
  | "steps_per_measure" => value.whole.map fun n => { config with stepsPerMeasure := n.value }
  | "tempo" => value.whole.map fun n => { config with tempo := n.value }
  | _ => .ok config

/-- Settings as they are given, with the names of those that are given as flags. -/
structure Given where
  config : Config := {}
  flags : List String := []

namespace Given

/-- A whole number among the settings, as it is given. -/
def shown (given : Given) (name : String) (n : Int) : Whole :=
  if given.flags.contains name then .flag (n != 0) else .number n

def set (given : Given) (name : String) (value : Setting) : Except Fault Given :=
  (given.config.set name value).map fun config =>
    match value with
    | .flag _ => ⟨config, name :: given.flags⟩
    | _ => ⟨config, given.flags.filter (· ≠ name)⟩

end Given

/-- The settings of some entries, not yet judged. Names that are no settings are refused, all of them at once. -/
def ofEntries (entries : List (String × Setting)) : Except Fault Given :=
  let unknown := ((entries.map (·.1)).filter fun name => !names.contains name).mergeSort fun left right => left ≤ right
  if unknown.isEmpty then entries.foldlM (fun given entry => given.set entry.1 entry.2) {}
  else .error (.unknownSettings unknown names)

/-- Settings that a composer can work with, from a mapping or from nothing. -/
def ofSetting (value : Setting) : Except Fault Given := do
  let entries ← if value.isSomething then value.toEntries Setting.asTextKey else .ok []
  let given ← ofEntries entries
  given.config.judge given.shown
  return given

end Config

end TurtleMusic
