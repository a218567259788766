import TurtleMusic.Composer.Basic

/-!
# Strokes

How time, pitch and sound come about. A horizontal stroke takes the next length and sounds or rests for it; a vertical stroke walks the pitch one diatonic step. Left to chance, lengths come from a fresh Euclidean rhythm for every measure, pitches from the corpus, and the first sound of every so many measures is a chord.
-/

namespace TurtleMusic.Composer

open TurtleMusic.Number TurtleMusic.Chance

variable {σ W : Type} [Weight W]

/-! ### Time -/

/-- The length of one step of the measure, in 128th notes. -/
def stepUnits (config : Config) : Int := Config.measureUnits / config.stepsPerMeasure

/-- A rhythm for a measure: a number of pulses within the bounds, turned by some of its groups. -/
def drawRhythm (W : Type) [Weight W] [Source σ W] (config : Config) (source : σ) : EuclideanRhythm × σ :=
  let (pulses, source) := between W config.minPulses.toNat config.maxPulses.toNat source
  let rhythm := EuclideanRhythm.make pulses config.stepsPerMeasure
  if hpulses : 0 < rhythm.pulses then
    let (turns, source) := Source.below (W := W) rhythm.pulses hpulses source
    (rhythm.rotateGroups turns.val, source)
  else (rhythm, source)

/-- Begins a measure. Every measure but the first is marked, and one without pulses is a single length. -/
def startMeasure [Source σ W] (composer : Composer σ W) : Composer σ W :=
  let (rhythm, source) := drawRhythm W composer.config composer.source
  { composer with
    source
    score := if composer.measures > 0 then composer.score.append .measure else composer.score
    durations := if rhythm.durations.isEmpty then [composer.config.stepsPerMeasure.toNat] else rhythm.durations
    chordDue := composer.progression.isSome && composer.measures % composer.config.chordEvery = 0
    measures := composer.measures + 1 }

/-- Takes the next length, beginning a measure if the running one is used up. -/
def takeLength [Source σ W] (composer : Composer σ W) : Int × Composer σ W :=
  if composer.config.markov then
    let composer := if composer.durations.isEmpty then composer.startMeasure else composer
    (composer.durations.headD 0 * stepUnits composer.config, { composer with durations := composer.durations.tail })
  else (composer.config.noteUnits, composer)

/-- Moves turtle and clock forward; the beat goes on with every quarter note that is passed. -/
def advance (composer : Composer σ W) (length : Int) : Composer σ W :=
  let position := composer.score.position + length
  let beats := (position / 32 - composer.score.position / 32).toNat
  { composer with
    turtle := composer.turtle.advance length
    score := Nat.repeat Score.nextBeat beats { composer.score with position := position } }

/-! ### Pitch -/

def heightDegree (composer : Composer σ W) (height : Int) : Degree :=
  Degree.ofPitch height composer.score.keyClass.toPitch

/-- Walks one diatonic step; a pitch that leaves the range comes back at its other end. -/
def stepPitch (composer : Composer σ W) (up : Bool) : Except Fault (Composer σ W) :=
  let (pitch, degree) := Degree.step composer.turtle.pose.y composer.score.degree up
  (Pitch.wrap pitch composer.config.low composer.config.high).map fun pitch =>
    { composer with turtle := composer.turtle.setY pitch, score := { composer.score with degree := degree } }

/-- Moves the turtle to the pitch that the corpus draws. Without a corpus, or if it has no preference, it stays. -/
def followCorpus [Source σ W] (composer : Composer σ W) : Except Fault (Composer σ W) := do
  let some corpus := composer.corpus | return composer
  let (drawn, source) ← corpus.next composer.score.note composer.score.previousNote composer.source
  let composer := { composer with source }
  let some pitchClass := drawn | return composer
  let pitch ← Pitch.nearest composer.turtle.pose.y pitchClass.toPitch (some composer.config.low) (some composer.config.high)
  return { composer with
    turtle := composer.turtle.setY pitch
    score := { composer.score with degree := composer.heightDegree pitch } }

/-! ### Sound -/

/-- The next chord of the progression, as it is to be written. -/
def chooseChord [Source σ W] (composer : Composer σ W) (progression : Progression) (length : Int) :
    Except Fault (Stroke × Composer σ W) := do
  let (progression, source) ← progression.next W composer.source
  let tones ← progression.current.triad composer.score.keyClass.toPitch composer.turtle.pose.y composer.config.low
    composer.config.high
  return (.harmony (tones.take composer.config.harmonyVoices.toNat) length,
    { composer with source, progression := some progression, chordDue := false })

/-- What a sound of some length is: a chord if one is due, else a note. Without chance, a note of the same pitch as the one before it makes that one longer. -/
def chooseSound [Source σ W] (composer : Composer σ W) (length : Int) : Except Fault (Stroke × Composer σ W) := do
  if composer.config.markov then
    if composer.chordDue then
      match composer.progression with
      | some progression => composer.chooseChord progression length
      | none => .error .noProgression
    else
      let composer ← composer.followCorpus
      return (.note composer.turtle.pose.y length false, composer)
  else return (.note composer.turtle.pose.y length true, composer)

def chooseStroke [Source σ W] (composer : Composer σ W) (sounding : Bool) : Except Fault (Stroke × Composer σ W) :=
  let (length, composer) := composer.takeLength
  if sounding then composer.chooseSound length else .ok (.rest length, composer)

def horizontalStroke [Source σ W] (composer : Composer σ W) (sounding : Bool) : Except Fault (Composer σ W) := do
  let (stroke, composer) ← composer.chooseStroke sounding
  let score ← composer.score.write stroke
  return ({ composer with score }).advance stroke.length

def stroke [Source σ W] (composer : Composer σ W) (sounding : Bool) : Except Fault (Composer σ W) :=
  if composer.turtle.direction.isHorizontal then composer.horizontalStroke sounding
  else if composer.turtle.direction.isVertical then composer.stepPitch (composer.turtle.direction = .up)
  else .ok composer

/-- A rest; it walks no pitch. -/
def pause [Source σ W] (composer : Composer σ W) : Except Fault (Composer σ W) :=
  if composer.turtle.direction.isHorizontal then composer.horizontalStroke false else .ok composer

end TurtleMusic.Composer
