import TurtleMusic.Chance.Draw
import TurtleMusic.Corpus.Melody
import TurtleMusic.Pitch.Key
import TurtleMusic.Report

/-!
# Corpus models

What a corpus of melodies says about the next note. The melodies are filed by key, and those of the active key are counted: how often each pitch class follows another, and how often it follows a pair. A row of counts divided by its sum is a row of chances; a row that was never seen is all nought and expresses no preference.
-/

namespace TurtleMusic

open TurtleMusic.Number TurtleMusic.Chance

/-- How many notes of history a model looks at. -/
inductive MarkovOrder where
  | one
  | two
  deriving DecidableEq, Repr

namespace MarkovOrder

def ofNumber (order : Int) : Except Fault MarkovOrder :=
  if order = 1 then .ok one else if order = 2 then .ok two else .error (.markovOrder order)

def number : MarkovOrder → Int
  | one => 1
  | two => 2

end MarkovOrder

/-! ### Counting -/

namespace Corpus

/-- A melody reduced to its pitch classes. -/
abbrev Line := List PitchClass

/-- A row of twelve. -/
abbrev Row (α : Type) := Vector α 12

/-- A row with one of its places changed. -/
def change {α : Type} (row : Row α) (place : PitchClass) (f : α → α) : Row α :=
  row.setIfInBounds place.val (f (row.get place))

variable {W : Type} [Weight W]

/-- A row as shares of its sum; if there is nothing to share, nought. -/
def normalize (row : Row W) : Row W :=
  let total := sum row.toList
  row.map fun count => if total ≤ 0 then 0 else count / total

/-- What has been counted: for every note the notes that directly followed it, for every two notes in a row those that followed them, and how often a note followed another at all. -/
structure Counts (W : Type) where
  afterOne : Row (Row W)
  afterTwo : Row (Row (Row W))
  observations : Nat

namespace Counts

def empty : Counts W :=
  ⟨Vector.replicate 12 (Vector.replicate 12 0), Vector.replicate 12 (Vector.replicate 12 (Vector.replicate 12 0)), 0⟩

/-- Counts a note behind those before it in its line, as far as there are any. -/
def note (counts : Counts W) (earlier previous : Option PitchClass) (current : PitchClass) : Counts W :=
  match previous with
  | none => counts
  | some previous =>
    let counts := { counts with
      afterOne := change counts.afterOne previous (change · current more)
      observations := counts.observations + 1 }
    match earlier with
    | none => counts
    | some earlier => { counts with afterTwo := change counts.afterTwo earlier (change · previous (change · current more)) }

/-- Counts note by note, with the last two notes in mind. -/
def read (counts : Counts W) (earlier previous : Option PitchClass) : Line → Counts W
  | [] => counts
  | current :: rest => (counts.note earlier previous current).read previous (some current) rest

/-- Counts a line, whose first note follows none. -/
def line (counts : Counts W) (line : Line) : Counts W := counts.read none none line

def ofLines (lines : List Line) : Counts W := lines.foldl line empty

/-- The chances of what follows each note. -/
def pairTable (counts : Counts W) : Row (Row W) := counts.afterOne.map normalize

/-- The chances of what follows each two notes in a row. -/
def tripleTable (counts : Counts W) : Row (Row (Row W)) := counts.afterTwo.map fun plane => plane.map normalize

end Counts

end Corpus

/-- The lines of a corpus, key by key. -/
abbrev FiledLines := List (PitchClass × List Corpus.Line)

namespace FiledLines

def inKey (filed : FiledLines) (key : PitchClass) : List Corpus.Line := (filed.lookup key).getD []

theorem inKey_cons (named : PitchClass) (lines : List Corpus.Line) (rest : FiledLines) (key : PitchClass) :
    inKey ((named, lines) :: rest) key = if key = named then lines else rest.inKey key := by
  by_cases hkey : key = named
  · rw [inKey, hkey, List.lookup_cons_self, if_pos rfl, Option.getD_some]
  · rw [inKey, List.lookup_cons, beq_eq_false_iff_ne.2 hkey, if_neg hkey, inKey]

/-- Files lines under a key, behind those that are there already. -/
def extend (filed : FiledLines) (key : PitchClass) (lines : List Corpus.Line) : FiledLines :=
  match filed with
  | [] => [(key, lines)]
  | entry :: rest => if entry.1 = key then (key, entry.2 ++ lines) :: rest else entry :: extend rest key lines

end FiledLines

/-- A corpus as it is given: keys with their melodies. -/
abbrev CorpusSource := List (KeyRef × List Melody)

structure CorpusModel (W : Type) where
  order : MarkovOrder
  filed : FiledLines
  key : PitchClass
  table : Corpus.Row (Corpus.Row W)
  pairTable : Corpus.Row (Corpus.Row (Corpus.Row W))
  observations : Nat

namespace CorpusModel

variable {σ W : Type} [Weight W]

/-! ### Making and keeping up to date -/

def ofFiled (order : MarkovOrder) (filed : FiledLines) (key : PitchClass) : CorpusModel W :=
  let counts := Corpus.Counts.ofLines (filed.inKey key)
  { order, filed, key, table := counts.pairTable, pairTable := counts.tripleTable, observations := counts.observations }

/-- What there is to say about counting a key: that it has no melodies. -/
def silence (filed : FiledLines) (key : PitchClass) : List Report :=
  if (filed.inKey key).isEmpty then [.silentKey key.name] else []

/-- Files the melodies under one key of a corpus. A key that is none is refused before any of its notes. -/
def fileEntry (filed : FiledLines) (entry : KeyRef × List Melody) : Except Fault FiledLines := do
  let key ← entry.1.pitchClass
  return filed.extend key (← entry.2.mapM Melody.pitchClasses)

def file (source : CorpusSource) : Except Fault FiledLines := source.foldlM fileEntry []

def make (source : CorpusSource) (key : KeyRef) (order : Int) : Except Fault (CorpusModel W × List Report) := do
  let order ← MarkovOrder.ofNumber order
  let filed ← file source
  let key ← key.pitchClass
  return (ofFiled order filed key, silence filed key)

def analyze (model : CorpusModel W) : CorpusModel W × List Report :=
  (ofFiled model.order model.filed model.key, silence model.filed model.key)

/-- Changes the active key, counting anew only if it is another one. -/
def moveTo (model : CorpusModel W) (key : PitchClass) : Bool × CorpusModel W × List Report :=
  if key = model.key then (false, model, [])
  else (true, ofFiled model.order model.filed key, .corpusKeyChanged key.name :: silence model.filed key)

def setKey (model : CorpusModel W) (key : KeyRef) : Except Fault (Bool × CorpusModel W × List Report) :=
  key.pitchClass.map model.moveTo

def isEmpty (model : CorpusModel W) : Bool := model.observations = 0

/-- The lines filed under each key that the corpus names, in rising order of keys. -/
def lines (model : CorpusModel W) : List (PitchClass × List Corpus.Line) :=
  ((List.finRange 12).filter fun key => model.filed.any fun entry => entry.1 = key).map fun key =>
    (key, model.filed.inKey key)

/-! ### Asking -/

/-- The chances of the next note. The pair of the last two notes decides if the model looks that far back and has seen the pair; else the last note does. -/
def chances (model : CorpusModel W) (current : PitchClass) (previous : Option PitchClass) : Corpus.Row W :=
  match model.order, previous with
  | .two, some previous =>
    let row := (model.pairTable.get previous).get current
    if row.toList.any fun chance => 0 < chance then row else model.table.get current
  | _, _ => model.table.get current

/-- Draws the next note. Nothing is drawn before the first note, or if the corpus has no preference. -/
def next [Source σ W] (model : CorpusModel W) (current previous : Option PitchClass) (source : σ) :
    Except Fault (Option PitchClass × σ) :=
  match current with
  | none => .ok (none, source)
  | some current =>
    (chooseColumn (model.chances current previous).toList source).map fun drawn =>
      (drawn.1.map fun column => PitchClass.ofPitch column, drawn.2)

end CorpusModel

end TurtleMusic
