import TurtleMusic.Chance.Draw
import TurtleMusic.Harmony.ScaleChord

/-!
# Chord progressions

Progressions wander from the tonic over the chords of the key and end when they come home to it; one that has reached the length limit is closed with a tonic. The sampler hands out progression after progression, chord by chord. Two progressions in a row share the tonic between them, so the second is handed out without its first chord.
-/

namespace TurtleMusic

open TurtleMusic.Number TurtleMusic.Chance

/-- A sampler: the length limit, the running progression, how many of its chords are used up, and the chord in use. -/
structure Progression where
  maxLength : Nat
  chords : List ScaleChord := []
  position : Nat := 0
  current : ScaleChord := .tonic
  deriving DecidableEq, Repr

namespace Progression

def defaultMaxLength : Int := 10

def make (maxLength : Int) : Except Fault Progression :=
  if maxLength < 2 then .error .progressionTooShort else .ok { maxLength := maxLength.toNat }

variable {σ W : Type} [Weight W]

def options (W : Type) [Weight W] (chord : ScaleChord) : List (ScaleChord × W) :=
  (ScaleChord.all.filter fun next => 0 < chord.chance next).map fun next => (next, (chord.chance next : W))

/-- Goes on from a chord, with room for a number of chords before the closing tonic is forced. -/
def wander (W : Type) [Weight W] [Source σ W] (chord : ScaleChord) (room : Nat) (source : σ) :
    Except Fault (List ScaleChord × σ) := do
  let (next, source) ← choose (options W chord) source
  match room with
  | 0 => if next = .tonic then return ([next], source) else return ([next, .tonic], source)
  | room + 1 =>
    if next = .tonic then return ([next], source)
    else
      let (rest, source) ← wander W next room source
      return (next :: rest, source)

def sample (W : Type) [Weight W] [Source σ W] (progression : Progression) (source : σ) :
    Except Fault (List ScaleChord × σ) :=
  (wander W .tonic (progression.maxLength - 2) source).map fun drawn => (.tonic :: drawn.1, drawn.2)

/-- The next chord; a new progression is sampled when the running one is used up. -/
def next (W : Type) [Weight W] [Source σ W] (progression : Progression) (source : σ) :
    Except Fault (Progression × σ) := do
  if hleft : progression.position < progression.chords.length then
    return ({ progression with current := progression.chords[progression.position], position := progression.position + 1 },
      source)
  else
    let (chords, source) ← progression.sample W source
    let position := if progression.chords.isEmpty then 0 else 1
    return ({ progression with chords, position := position + 1, current := (chords[position]?).getD .tonic }, source)

def reset (progression : Progression) : Progression := { maxLength := progression.maxLength }

end Progression

end TurtleMusic
