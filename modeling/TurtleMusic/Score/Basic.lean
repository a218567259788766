import TurtleMusic.Account
import TurtleMusic.Pitch.Degree
import TurtleMusic.Pitch.Key
import TurtleMusic.Score.Token

/-!
# Scores

A score in the making: its tokens, and the musical context that is read and kept up to date while it is written. Tokens are kept newest first, since only the newest one ever changes: a note may be lengthened and a rest merged into the rest before it.
-/

namespace TurtleMusic

/-- Something that takes up time in a score. -/
inductive Stroke where
  /-- A note; with `extend` it may lengthen the note before it. -/
  | note (pitch length : Int) (extend : Bool)
  /-- Notes that start and end together. -/
  | harmony (pitches : List Int) (length : Int)
  | rest (length : Int)
  deriving DecidableEq, Repr

def Stroke.length : Stroke → Int
  | note _ length _ => length
  | harmony _ length => length
  | rest length => length

structure Score where
  key : Key
  tempo : Int
  instrument : Int
  /-- The tokens, newest first. -/
  written : List Token := []
  note : Option PitchClass := none
  previousNote : Option PitchClass := none
  degree : Degree := .on 1
  voices : Int := 1
  layers : Int := 1
  beat : Nat := 1
  position : Int := 0
  events : Nat := 0
  deriving DecidableEq, Repr

namespace Score

def maxVoices : Int := 16

def maxLayers : Int := 16

def beatsPerMeasure : Nat := 4

/-- An empty score. The key is judged before the tempo. -/
def make (key : KeyRef) (tempo instrument : Int) : Except Fault Score := do
  let key ← key.key
  if tempo ≤ 0 then .error (.tempoNotPositive tempo) else .ok { key, tempo, instrument }

/-! ### Views -/

def tokens (score : Score) : List Token := score.written.reverse

def tokenTexts (score : Score) : List (List Char) := score.tokens.map Token.text

/-- The tokens with single blanks between them. -/
def text (score : Score) : String :=
  " ".intercalate (score.tokens.map fun token => String.ofList token.text)

def keyClass (score : Score) : PitchClass := score.key.tonicClass

/-! ### Context -/

/-- Changes the key; the answer says whether it is another one. -/
def setKey (score : Score) (key : KeyRef) : Except Fault (Bool × Score) :=
  key.key.map fun key => (key != score.key, { score with key := key })

def setTempo (score : Score) (tempo : Int) : Except Fault Score :=
  if tempo ≤ 0 then .error (.tempoNotPositive tempo) else .ok { score with tempo := tempo }

/-- A voice count out of range is passed over. -/
def setVoices (score : Score) (voices : Int) : Score :=
  if 0 < voices ∧ voices ≤ maxVoices then { score with voices := voices } else score

/-- A layer count out of range is passed over. -/
def setLayers (score : Score) (layers : Int) : Score :=
  if 0 < layers ∧ layers ≤ maxLayers then { score with layers := layers } else score

/-- Remembers a pitch as the current note, and the current note as the one before it. -/
def setNote (score : Score) (pitch : Int) : Score :=
  { score with previousNote := score.note, note := PitchClass.heard? pitch }

def nextBeat (score : Score) : Score :=
  { score with beat := if score.beat < beatsPerMeasure then score.beat + 1 else 1 }

/-- Forgets the music and keeps key, tempo and instrument. -/
def reset (score : Score) : Score :=
  { key := score.key, tempo := score.tempo, instrument := score.instrument }

/-! ### Writing -/

def append (score : Score) (token : Token) : Score :=
  { score with written := token :: score.written }

/-- Starts anew with the tempo, the first voice and the instrument. -/
def start (score : Score) : Score :=
  ((score.reset.append (.tempo score.tempo)).append (.voice 0)).append (.instrument score.instrument)

def replaceNewest (score : Score) (token : Token) : Score :=
  { score with written := token :: score.written.tail }

/-- Notes of one length that start together. -/
def harmony (codes : Codes) (first : Int) (others : List Int) : Token :=
  .notes ⟨first, codes⟩ (others.map fun pitch => ⟨pitch, codes⟩)

def countEvent (score : Score) : Score := { score with events := score.events + 1 }

/-- Writes a note. With `extend` it lengthens the newest token if that is a note of the same pitch. -/
def writeNote (pitch length : Int) (extend : Bool) : Act Score Unit := do
  let codes ← Act.check (Codes.ofLength length)
  match (← get).written.head?.filter fun newest => extend && newest.solePitch? == some pitch with
  | some newest => modify (·.replaceNewest (newest.lengthen codes))
  | none => modify (·.append (.notes ⟨pitch, codes⟩ []))
  modify countEvent

/-- Writes a rest. With `merge` a rest just before it is written anew with both lengths. -/
def writeRest (length : Int) (merge : Bool) : Act Score Unit := do
  let score ← get
  match if merge then score.written.head?.bind Token.restUnits? else none with
  | some before =>
    let codes ← Act.check (Codes.ofLength (length + before))
    modify (·.replaceNewest (.pause codes))
  | none =>
    let codes ← Act.check (Codes.ofLength length)
    modify (·.append (.pause codes))

/-- Writes notes that start and end together; none at all are a rest. -/
def writeHarmony (pitches : List Int) (length : Int) : Act Score Unit :=
  match pitches with
  | [] => writeRest length true
  | first :: others => do
    let codes ← Act.check (Codes.ofLength length)
    modify (·.append (harmony codes first others))
    modify countEvent

def addNote (score : Score) (pitch length : Int) (extend : Bool) : Except Fault Score :=
  (writeNote pitch length extend).after score

def addRest (score : Score) (length : Int) (merge : Bool) : Except Fault Score := (writeRest length merge).after score

def addHarmony (score : Score) (pitches : List Int) (length : Int) : Except Fault Score :=
  (writeHarmony pitches length).after score

theorem addNote_eq (score : Score) (pitch length : Int) (extend : Bool) : score.addNote pitch length extend =
    (Codes.ofLength length).map fun codes =>
      let longer := score.written.head?.filter fun newest => extend && newest.solePitch? == some pitch
      let score := match longer with
        | some newest => score.replaceNewest (newest.lengthen codes)
        | none => score.append (.notes ⟨pitch, codes⟩ [])
      { score with events := score.events + 1 } := by
  simp only [addNote, Act.after, writeNote, Act.result_bind, Act.result_check, Act.result_get]
  cases Codes.ofLength length with
  | error fault => rfl
  | ok codes =>
    simp only [Except.map, Except.bind]
    cases score.written.head?.filter fun newest => extend && newest.solePitch? == some pitch <;> rfl

theorem addRest_eq (score : Score) (length : Int) (merge : Bool) : score.addRest length merge =
    match (if merge then score.written.head?.bind Token.restUnits? else none) with
    | some before => (Codes.ofLength (length + before)).map fun codes => score.replaceNewest (.pause codes)
    | none => (Codes.ofLength length).map fun codes => score.append (.pause codes) := by
  simp only [addRest, Act.after, writeRest, Act.result_bind, Act.result_get, Except.bind]
  cases (if merge then score.written.head?.bind Token.restUnits? else none) with
  | none => cases Codes.ofLength length <;> rfl
  | some before => simp only [Act.result_bind, Act.result_check]; cases Codes.ofLength (length + before) <;> rfl

theorem addHarmony_cons (score : Score) (first : Int) (others : List Int) (length : Int) :
    score.addHarmony (first :: others) length =
      (Codes.ofLength length).map fun codes =>
        { score.append (harmony codes first others) with events := score.events + 1 } := by
  simp only [addHarmony, Act.after, writeHarmony, Act.result_bind, Act.result_check]
  cases Codes.ofLength length <;> rfl

/-- Writes a stroke. A note is remembered as the current one; a rest joins the rest before it. -/
def write (score : Score) : Stroke → Except Fault Score
  | .note pitch length extend => (score.addNote pitch length extend).map fun score => score.setNote pitch
  | .harmony pitches length => score.addHarmony pitches length
  | .rest length => score.addRest length true

end Score

end TurtleMusic
