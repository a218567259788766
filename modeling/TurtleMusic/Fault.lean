import TurtleMusic.Text.Quoted
import TurtleMusic.Text.Utf8
import TurtleMusic.Text.Whole

/-!
# Faults

Everything that can go wrong, by cause. Each cause has one message and belongs to one class; the command line gives up politely on the classes that blame the caller's values and lets the others through.
-/

namespace TurtleMusic

inductive FaultClass where
  | value
  | grammar
  | scope
  | missingFile
  | division
  | wrongType
  | wrongShape
  | endOfFile
  | device
  | folder
  | notFolder
  | encoding
  | missingItem
  | missingEntry
  | overflow
  | packing
  | keySignature
  deriving DecidableEq, Repr

inductive Fault where
  /-- A key name that names no key; the field is the value as messages show it. -/
  | unknownKey (shown : String)
  | keyIndexRange (index : Whole)
  | unknownQuality (name : String)
  | narrowRange (low high : Int)
  | unknownChord (index : Int)
  | lengthNotPositive (units : Int)
  | unknownLengthCode (code : Char)
  | unexpectedStep (symbol : Char) (text : String)
  | negativeGenerations (generations : Int)
  | unexpectedClose (position : Nat)
  | unclosed (count : Nat)
  | ruleCount (symbols rules : Nat)
  | symbolLength (symbol : String)
  | duplicateSymbols (alphabet : List String)
  | unknownPreset (index : Int) (last : Nat)
  | handlerSymbol (symbol : String)
  | hueBounds (low high : Int)
  | noOpenScope
  | noOptions
  | negativeWeight
  | noPositiveWeight
  | noTransitions
  | unknownInitialState
  | raggedRow (row entries expected : Nat)
  | progressionTooShort
  | flagAsNote (flag : Bool)
  | notANoteName (text : String)
  | notANote
  | markovOrder (order : Whole)
  | tempoNotPositive (tempo : Whole)
  | malformedNote (token : String)
  | unknownToken (token : String)
  | dataByteRange
  | attributeRange (low high : Nat)
  | tempoOfNothing
  | tooManyTracks
  | trackTooLong
  | midiTooShort
  | notMidi
  /-- Data behind a status that takes none; the field is the kind of the message. -/
  | surplusData (kind : String)
  | metaTooShort
  | unknownFrameRate
  | denominatorNoPower
  | unknownKeySignature
  | unknownSettings (names known : List String)
  | pitchBounds (low high : Whole)
  | pitchSpan (low high : Whole)
  | noteLengthNotPositive
  | stepsPerMeasure (steps : Whole) (measure : Int)
  | pulseBounds (fewest most steps : Whole)
  | negativeChordSpacing
  | harmonyVoices (voices : Whole)
  | notAnInteger (text : String)
  | tooManyDigits (digits : Nat)
  | infiniteInteger
  /-- An integer that is too large for a double. -/
  | integerTooLarge
  | undefinedInteger
  | wrongType
  | notAMapping
  | mappingEntry (index length : Nat)
  | corpusFolderMissing (path : String)
  | fileMissing (path : String)
  | isFolder
  | notFolder
  | nameTooLong
  | nullInPath
  | notOpen
  | negativeFileNumber
  | fileNumberRange
  | undecodable (fault : Text.Utf8Fault)
  | noHandler
  /-- A chord is due although no progression hands out chords. -/
  | noProgression
  deriving DecidableEq, Repr

namespace Fault

/-- A number with more digits than this is neither read from the text of a setting nor written into the name of a track, which has to fit into one block of a file. Everywhere else numbers are written and read at any length: how many digits a number in a score or a melody may have is left to the surroundings. -/
def digitLimit : Nat := 4300

/-- A text that is no integer is shown up to this length, quotes included. -/
def quotedLimit : Nat := 200

def kind : Fault → FaultClass
  | unexpectedClose _ | unclosed _ | ruleCount _ _ | symbolLength _ | duplicateSymbols _ => .grammar
  | noOpenScope => .scope
  | corpusFolderMissing _ | fileMissing _ => .missingFile
  | tempoOfNothing => .division
  | wrongType => .wrongType
  | notAMapping | notANote => .wrongShape
  | midiTooShort => .endOfFile
  | notMidi | nameTooLong | notOpen => .device
  | isFolder => .folder
  | notFolder => .notFolder
  | undecodable _ => .encoding
  | metaTooShort => .missingItem
  | unknownFrameRate | noHandler | noProgression => .missingEntry
  | infiniteInteger | integerTooLarge | fileNumberRange => .overflow
  | tooManyTracks | trackTooLong => .packing
  | unknownKeySignature => .keySignature
  | _ => .value

/-- The faults that say that a value given by the caller cannot be used. -/
def blamesValue (fault : Fault) : Bool :=
  match fault.kind with
  | .value | .grammar | .encoding => true
  | _ => false

/-- What is wrong with bytes that are no text, and where. -/
private def encodingMessage (fault : Text.Utf8Fault) : String :=
  let place :=
    if fault.length = 1 then
      s!"byte 0x{String.ofList (Text.hexDigits 2 fault.byte.toNat)} in position {fault.position}"
    else s!"bytes in position {fault.position}-{fault.position + fault.length - 1}"
  let flaw := match fault.flaw with
    | .invalidStart => "invalid start byte"
    | .invalidContinuation => "invalid continuation byte"
    | .unexpectedEnd => "unexpected end of data"
  s!"'utf-8' codec can't decode {place}: {flaw}"

def message : Fault → String
  | unknownKey shown => s!"Unknown key name: {shown}. Expected e.g. 'C', 'F#', 'Bb'."
  | keyIndexRange index => s!"Key index must be between 1 and 12, got {index}"
  | unknownQuality name => s!"Unknown chord quality: {name}"
  | narrowRange low high => s!"Range [{low}, {high}] must span at least an octave"
  | unknownChord index => s!"Unknown chord index {index}"
  | lengthNotPositive units => s!"Duration must be positive, got {units}"
  | unknownLengthCode code => s!"Unknown duration code: {Text.quote code.toString}"
  | unexpectedStep symbol text => s!"Unexpected rhythm symbol {Text.quote symbol.toString} in {Text.quote text}"
  | negativeGenerations generations => s!"Generations cannot be negative, got {generations}"
  | unexpectedClose position => s!"Unexpected closing bracket at position {position}"
  | unclosed count => s!"Missing {count} closing bracket(s)"
  | ruleCount symbols rules =>
    s!"Alphabet has {symbols} symbol(s) but there are {rules} rule(s). Make sure each symbol in the alphabet has a corresponding rule."
  | symbolLength symbol => s!"Alphabet symbols must be a single character, got {Text.quote symbol}"
  | duplicateSymbols alphabet => s!"Alphabet contains duplicate symbols: {Text.bracketed (alphabet.map Text.quote)}"
  | unknownPreset index last => s!"Unknown preset {index}. Available: 0-{last}"
  | handlerSymbol symbol => s!"Symbols must be a single character, got {Text.quote symbol}"
  | hueBounds low high => s!"low ({low}) must be <= high ({high})"
  | noOpenScope => "restore_state() called without a matching save_state()"
  | noOptions => "Options cannot be empty"
  | negativeWeight => "Weights cannot be negative"
  | noPositiveWeight => "At least one weight must be positive"
  | noTransitions => "Transitions cannot be empty"
  | unknownInitialState => "Initial state must exist in transitions"
  | raggedRow row entries expected => s!"Row {row} has {entries} entries, expected {expected}"
  | progressionTooShort => "Progressions need room for at least two chords"
  | flagAsNote flag => "Not a note: " ++ Text.flagName flag
  | notANoteName text => s!"Not a note name: {Text.quote text}"
  | notANote => "Not a note"
  | markovOrder order => s!"Markov order must be 1 or 2, got {order}"
  | tempoNotPositive tempo => s!"Tempo must be positive, got {tempo}"
  | malformedNote token => s!"Malformed note token: {Text.quote token}"
  | unknownToken token => s!"Unknown score token: {Text.quote token}"
  | dataByteRange => "data byte must be in range 0..127"
  | attributeRange low high => s!"attribute must be in range {low}..{high}"
  | tempoOfNothing => "float division by zero"
  | tooManyTracks => "A MIDI file cannot hold so many tracks"
  | trackTooLong => "A MIDI track cannot be so long"
  | midiTooShort => "The MIDI file ends too early"
  | notMidi => "Not a MIDI file"
  | surplusData kind => s!"wrong number of bytes for {kind} message"
  | metaTooShort => "A meta message lacks data"
  | unknownFrameRate => "Unknown frame rate"
  | denominatorNoPower => "denominator must be a power of 2"
  | unknownKeySignature => "Unknown key signature"
  | unknownSettings names known =>
    "Unknown composer setting(s): " ++ ", ".intercalate names ++ s!". Available: {Text.bracketed (known.map Text.quote)}"
  | pitchBounds low high => s!"Pitch range must satisfy 0 <= low < high <= 127, got [{low}, {high}]"
  | pitchSpan low high => s!"Pitch range [{low}, {high}] must span at least an octave"
  | noteLengthNotPositive => "Note length must be positive"
  | stepsPerMeasure steps measure => s!"Steps per measure must divide {measure}, got {steps}"
  | pulseBounds fewest most steps =>
    s!"Pulse bounds must satisfy 0 <= min_pulses <= max_pulses <= steps_per_measure, got {fewest}, {most}, {steps}"
  | negativeChordSpacing => "chord_every cannot be negative"
  | harmonyVoices voices => s!"harmony_voices must be between 1 and 3, got {voices}"
  | notAnInteger text =>
    "invalid literal for int() with base 10: " ++ String.ofList ((Text.quote text).toList.take quotedLimit)
  | tooManyDigits digits =>
    s!"Exceeds the limit ({digitLimit} digits) for integer string conversion: value has {digits} digits; use sys.set_int_max_str_digits() to increase the limit"
  | infiniteInteger => "cannot convert float infinity to integer"
  | integerTooLarge => "int too large to convert to float"
  | undefinedInteger => "cannot convert float NaN to integer"
  | wrongType => "A value has the wrong type"
  | notAMapping => "A section is no mapping"
  | mappingEntry index length =>
    s!"dictionary update sequence element #{index} has length {length}; 2 is required"
  | corpusFolderMissing path => s!"Corpus directory not found: {path}"
  | fileMissing path => s!"[Errno 2] No such file or directory: {Text.quote path}"
  | isFolder => "A folder stands where a file is expected"
  | notFolder => "A file stands where a folder is expected"
  | nameTooLong => "A file name is too long"
  | nullInPath => "embedded null byte"
  | notOpen => "No file is open under this number"
  | negativeFileNumber => "negative file descriptor"
  | fileNumberRange => "A file number does not fit"
  | undecodable fault => encodingMessage fault
  | noHandler => "No handler is registered for the symbol"
  | noProgression => "A chord is due but there is no progression"

end Fault

end TurtleMusic
