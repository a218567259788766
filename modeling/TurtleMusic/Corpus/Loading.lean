import TurtleMusic.Account
import TurtleMusic.Corpus.Model
import TurtleMusic.Files.Tree
import TurtleMusic.Midi.Onsets

/-!
# Loading a corpus

A corpus comes from a mapping of key names to melodies, from a folder with a sub-folder for each key, or from both together. In a sub-folder, MIDI files and text files are melodies; everything else is passed over, and so are folders that no key is named after.
-/

namespace TurtleMusic

open TurtleMusic.Files

/-- Melodies by key name, in the order the names first appear. -/
abbrev NamedMelodies := List (String × List Melody)

namespace NamedMelodies

def add (corpus : NamedMelodies) (key : String) (melodies : List Melody) : NamedMelodies :=
  match corpus with
  | [] => [(key, melodies)]
  | entry :: rest => if entry.1 = key then (key, entry.2 ++ melodies) :: rest else entry :: add rest key melodies

def source (corpus : NamedMelodies) : CorpusSource :=
  corpus.map fun entry => (.name entry.1, entry.2)

/-! ### Files -/

/-- What follows the last point of a file name, in small letters. Points in front do not count. -/
def extension (name : String) : String :=
  match ((name.toList.dropWhile (· = '.')).splitOn '.').reverse with
  | last :: _ :: _ => String.ofList (last.map Char.toLower)
  | _ => ""

/-- The notes of a MIDI file. -/
def midiNotes (tree : Tree) (path : String) : Except Fault (List Nat) := do
  let (_, bytes) ← tree.read path
  Midi.notes bytes

/-- The melody in a file, if its name promises one. -/
def melodyOf? (tree : Tree) (folder name : String) : Except Fault (Option Melody) :=
  let path := join folder name
  let extension := extension name
  if extension = "mid" ∨ extension = "midi" then do
    return some (.notes ((← midiNotes tree path).map fun note => .integer (Int.ofNat note)))
  else if extension = "txt" then do
    let (_, bytes) ← tree.read path
    match Text.decode bytes with
    | .ok text => return some (.text text)
    | .error fault => .error (.undecodable fault)
  else .ok none

def melodiesIn (tree : Tree) (folder : String) (names : List String) : Except Fault (List Melody) :=
  (names.mapM (melodyOf? tree folder)).map (·.filterMap id)

def loadKeys (tree : Tree) (folder : String) : (names : List String) → Account NamedMelodies
  | [] => pure []
  | name :: rest =>
    let keyFolder := join folder name
    match tree.folder? keyFolder with
    | none => loadKeys tree folder rest
    | some place =>
      if !PitchClass.isKeyName name then do
        Account.report (.skippedFolder keyFolder (Text.quote name))
        loadKeys tree folder rest
      else do
        let melodies ← Account.quiet (melodiesIn tree keyFolder (tree.names place))
        return (name, melodies) :: (← loadKeys tree folder rest)

def loadFolder (tree : Tree) (folder : String) : Account NamedMelodies :=
  match tree.folder? folder with
  | none => Account.quiet (.error (.corpusFolderMissing folder))
  | some place => do
    let corpus ← loadKeys tree folder (tree.names place)
    Account.report (.corpusLoaded folder (corpus.map fun entry => (entry.1, entry.2.length)))
    return corpus

/-! ### Mappings -/

/-- The melodies given for a key: none, a single text, or a row of them. -/
def melodiesOf (value : Setting) : Except Fault (List Melody) :=
  match value with
  | .null => .ok []
  | .text written => .ok [.text written]
  | other => do (← other.items).mapM Melody.ofSetting

def addEntries (corpus : NamedMelodies) : List (String × Setting) → Except Fault NamedMelodies
  | [] => .ok corpus
  | (key, value) :: rest => do
    let _ ← PitchClass.ofKeyName key
    let melodies ← melodiesOf value
    addEntries (corpus.add key melodies) rest

/-- What a value stands for where a folder is named and the value is no text: nothing, or a number under which no folder is open. -/
def noFolder (value : Setting) : Except Fault NamedMelodies :=
  if !value.isSomething then .ok []
  else match value with
  | .flag _ => .error (.corpusFolderMissing value.display)
  | .integer number =>
    .error (if isFileNumber number then .corpusFolderMissing value.display else .fileNumberRange)
  | _ => .error .wrongType

/-- The corpus that a value describes. A mapping may name a folder besides its keys. -/
def load (tree : Tree) (value : Setting) : Account NamedMelodies :=
  match value with
  | .null => pure []
  | .text folder => loadFolder tree folder
  | other => do
    let entries ← Account.quiet (other.toEntries Setting.asKey)
    let folder := Setting.get entries "path"
    let corpus ← match folder with
      | .text folder => if folder.isEmpty then pure [] else loadFolder tree folder
      | other => Account.quiet (noFolder other)
    Account.quiet (addEntries corpus (entries.filter (·.1 != "path")))

end NamedMelodies

end TurtleMusic
