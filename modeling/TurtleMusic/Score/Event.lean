import TurtleMusic.Score.Basic

/-!
# Timed events

A score read as music. Every pair of a voice and a layer has a clock of its own, which only its own notes and rests move. Choosing a voice goes back to the layer last used in it; choosing a layer stays in the voice.
-/

namespace TurtleMusic

inductive EventKind where
  | tempo (beatsPerMinute : Int)
  | program (number : Int)
  | control (controller value : Int)
  | note (pitch : Int) (length : Nat)
  deriving DecidableEq, Repr

/-- Something that happens at a time, counted in 128th notes from the beginning, in one layer of one voice. -/
structure Event where
  start : Nat
  voice : Int
  layer : Int
  kind : EventKind
  deriving DecidableEq, Repr

/-- Values kept by key, at most one for each. -/
abbrev Kept (κ ν : Type) := List (κ × ν)

namespace Kept

variable {κ ν : Type} [DecidableEq κ]

def get (kept : Kept κ ν) (key : κ) (otherwise : ν) : ν := (kept.lookup key).getD otherwise

def set (kept : Kept κ ν) (key : κ) (value : ν) : Kept κ ν :=
  match kept with
  | [] => [(key, value)]
  | entry :: rest => if entry.1 = key then (key, value) :: rest else entry :: set rest key value

theorem get_cons (own asked : κ) (value otherwise : ν) (rest : Kept κ ν) :
    get ((own, value) :: rest) asked otherwise = if asked = own then value else rest.get asked otherwise := by
  by_cases hasked : asked = own
  · simp [get, hasked]
  · simp [get, List.lookup_cons, beq_eq_false_iff_ne.2 hasked, hasked]

theorem get_set (kept : Kept κ ν) (key asked : κ) (value otherwise : ν) :
    (kept.set key value).get asked otherwise = if asked = key then value else kept.get asked otherwise := by
  induction kept with
  | nil => simp [set, get_cons]
  | cons entry rest ih =>
    obtain ⟨own, old⟩ := entry
    by_cases hown : own = key
    · subst hown
      by_cases hasked : asked = own <;> simp [set, get_cons, hasked]
    · by_cases hasked : asked = own
      · subst hasked
        simp [set, get_cons, hown]
      · simp [set, get_cons, hown, hasked, ih]

end Kept

/-- Where reading stands: the chosen voice and layer, the clocks and the layer last used in each voice. -/
structure Reading where
  voice : Int := 0
  layer : Int := 0
  clocks : Kept (Int × Int) Nat := []
  layers : Kept Int Int := []

namespace Reading

def now (reading : Reading) : Nat := reading.clocks.get (reading.voice, reading.layer) 0

/-- Moves the clock of the chosen pair. -/
def pass (reading : Reading) (length : Nat) : Reading :=
  { reading with clocks := reading.clocks.set (reading.voice, reading.layer) (reading.now + length) }

def event (reading : Reading) (kind : EventKind) : Event :=
  ⟨reading.now, reading.voice, reading.layer, kind⟩

def longest (notes : List WrittenNote) : Nat :=
  notes.foldl (fun length note => max length note.codes.units) 0

/-- Reads one token: the events it stands for and where reading stands after it. -/
def step (reading : Reading) : Token → List Event × Reading
  | .tempo beatsPerMinute => ([reading.event (.tempo beatsPerMinute)], reading)
  | .instrument number => ([reading.event (.program number)], reading)
  | .control controller value => ([reading.event (.control controller value)], reading)
  | .notes first others =>
    ((first :: others).map fun note => reading.event (.note note.pitch note.codes.units),
      reading.pass (longest (first :: others)))
  | .pause codes => ([], reading.pass codes.units)
  | .voice number =>
    let layers := reading.layers.set reading.voice reading.layer
    ([], { reading with voice := number, layer := layers.get number 0, layers := layers })
  | .layer number => ([], { reading with layer := number })
  | .measure | .verbatim _ => ([], reading)

def run (reading : Reading) : List Token → List Event
  | [] => []
  | token :: rest => (reading.step token).1 ++ run (reading.step token).2 rest

end Reading

namespace Event

def ofTokens (tokens : List Token) : List Event := Reading.run {} tokens

/-- The events of tokens given as text; the first that is no token is refused. -/
def ofTexts (texts : List (List Char)) : Except Fault (List Event) :=
  (texts.mapM Token.read).map ofTokens

def ofText (text : String) : Except Fault (List Event) :=
  ofTexts (Text.words text.toList)

end Event

def Score.events? (score : Score) : Except Fault (List Event) :=
  Event.ofTexts score.tokenTexts

/-- What can be read as music: a score, its text, or its tokens as texts. -/
inductive Sheet where
  | ofScore (score : Score)
  | ofText (text : String)
  | ofTokens (texts : List (List Char))

/-- The tokens of a sheet as texts. -/
def Sheet.texts : Sheet → List (List Char)
  | ofScore score => score.tokenTexts
  | ofText text => Text.words text.toList
  | ofTokens texts => texts

def Sheet.events? (sheet : Sheet) : Except Fault (List Event) := Event.ofTexts sheet.texts

end TurtleMusic
