import TurtleMusic.Harmony.ScaleChord
import TurtleMusic.Pitch.Key
import TurtleMusic.Proofs.Pitch.Fold

/-!
# Pitches and degrees

A diatonic step moves pitch and degree together: from the degree of a pitch it leads to the degree of the new pitch. Degrees and scale membership depend on the distance to the tonic within the octave only, so folding does not touch them, and the twelve distances can be gone through one by one.
-/

namespace TurtleMusic

/-- The pitch is a note of the major scale on the tonic. -/
def InScale (tonic pitch : Int) : Prop := pitch % 12 ∈ scaleClasses tonic

theorem inScale_iff (tonic pitch : Int) : InScale tonic pitch ↔ (pitch - tonic) % 12 ∈ majorScale := by
  simp only [InScale, scaleClasses, majorScale, List.map_cons, List.map_nil, List.mem_cons, List.not_mem_nil, or_false]
  omega

theorem InScale.of_emod_eq {tonic pitch folded : Int} (hscale : InScale tonic pitch) (hclass : folded % 12 = pitch % 12) :
    InScale tonic folded := by
  rw [InScale, hclass]
  exact hscale

namespace Degree

/-- The degree at a distance above the tonic. -/
def ofOffset (offset : Int) : Degree :=
  if offset ∈ majorScale then on (majorScale.countP (· ≤ offset)) else above (majorScale.countP (· ≤ offset))

theorem ofPitch_eq (pitch tonic : Int) : ofPitch pitch tonic = ofOffset ((pitch - tonic) % 12) := rfl

theorem ofPitch_of_emod_eq {pitch folded : Int} (hclass : folded % 12 = pitch % 12) (tonic : Int) :
    ofPitch folded tonic = ofPitch pitch tonic := by
  rw [ofPitch_eq, ofPitch_eq, show (folded - tonic) % 12 = (pitch - tonic) % 12 by omega]

/-- Where a step leads does not depend on the octave, only how far. -/
theorem step_eq_add (pitch : Int) (degree : Degree) (up : Bool) :
    step pitch degree up = (pitch + (step 0 degree up).1, (step 0 degree up).2) := by
  cases degree <;> cases up <;> simp [step, Int.sub_eq_add_neg]

theorem step_ofOffset : ∀ (offset : Fin 12) (up : Bool),
    (step 0 (ofOffset (offset.val : Int)) up).2 =
      ofOffset (((offset.val : Int) + (step 0 (ofOffset (offset.val : Int)) up).1) % 12) := by
  decide

theorem step_ofOffset_mem : ∀ (offset : Fin 12) (up : Bool), (offset.val : Int) ∈ majorScale →
    ((offset.val : Int) + (step 0 (ofOffset (offset.val : Int)) up).1) % 12 ∈ majorScale := by
  decide

theorem offset_eq (pitch tonic : Int) : ∃ offset : Fin 12, (pitch - tonic) % 12 = (offset.val : Int) :=
  ⟨⟨((pitch - tonic) % 12).toNat, by omega⟩, by simp only []; omega⟩

/-- Pitch and degree do not drift apart in a step. -/
theorem step_ofPitch (pitch tonic : Int) (up : Bool) :
    (step pitch (ofPitch pitch tonic) up).2 = ofPitch (step pitch (ofPitch pitch tonic) up).1 tonic := by
  obtain ⟨offset, hoffset⟩ := offset_eq pitch tonic
  rw [step_eq_add, ofPitch_eq, hoffset]
  have hmoved : (pitch + (step 0 (ofOffset (offset.val : Int)) up).1 - tonic) % 12 =
      ((offset.val : Int) + (step 0 (ofOffset (offset.val : Int)) up).1) % 12 := by omega
  rw [ofPitch_eq, hmoved]
  exact step_ofOffset offset up

/-- A step from a note of the scale leads to a note of the scale. -/
theorem step_inScale {pitch tonic : Int} (hscale : InScale tonic pitch) (up : Bool) :
    InScale tonic (step pitch (ofPitch pitch tonic) up).1 := by
  obtain ⟨offset, hoffset⟩ := offset_eq pitch tonic
  rw [inScale_iff, hoffset] at hscale
  rw [inScale_iff, step_eq_add, ofPitch_eq, hoffset]
  have hmoved : (pitch + (step 0 (ofOffset (offset.val : Int)) up).1 - tonic) % 12 =
      ((offset.val : Int) + (step 0 (ofOffset (offset.val : Int)) up).1) % 12 := by omega
  rw [hmoved]
  exact step_ofOffset_mem offset up hscale

end Degree

/-! ### Keys -/

theorem PitchClass.toPitch_emod (pc : PitchClass) : pc.toPitch % 12 = pc.toPitch := by
  have := pc.isLt
  simp only [toPitch]
  omega

/-- A pass starts on the first degree, wherever the tonic was moved to. -/
theorem Degree.ofPitch_tonic (pc : PitchClass) {pitch : Int} (hclass : pitch % 12 = pc.toPitch) :
    Degree.ofPitch pitch pc.toPitch = .on 1 := by
  rw [ofPitch_eq, show (pitch - pc.toPitch) % 12 = 0 by omega]
  rfl

theorem inScale_tonic (pc : PitchClass) {pitch : Int} (hclass : pitch % 12 = pc.toPitch) : InScale pc.toPitch pitch := by
  rw [inScale_iff, show (pitch - pc.toPitch) % 12 = 0 by omega]
  decide

theorem Key.tonic_emod (key : Key) : key.tonic % 12 = key.tonicClass.toPitch := by
  have := key.tonicClass.toPitch_emod
  rw [tonic]
  omega

/-! ### Triads -/

namespace ScaleChord

/-- The half steps of the tones of a chord above its root. -/
def toneIntervals : ScaleChord → List Int
  | tonic | dominant | subdominant => [0, 4, 7]
  | submediant | mediant | supertonic => [0, 3, 7]

theorem intervals_quality (chord : ScaleChord) : chord.quality.intervals = .ok chord.toneIntervals := by
  cases chord <;> rfl

theorem toneIntervals_mem_scale (chord : ScaleChord) :
    ∀ interval ∈ chord.toneIntervals, (chord.rootInterval + interval) % 12 ∈ majorScale := by
  cases chord <;> decide

/-- The tones of a chord before they are brought into the range. -/
def openTones (chord : ScaleChord) (tonicPitch near : Int) : List Int :=
  chord.toneIntervals.map
    (Pitch.nearestUnbounded near (PitchClass.ofPitch (tonicPitch + chord.rootInterval)).toPitch none + ·)

theorem openTones_inScale (chord : ScaleChord) (tonicPitch near : Int) :
    ∀ tone ∈ chord.openTones tonicPitch near, InScale tonicPitch tone := by
  intro tone htone
  obtain ⟨interval, hinterval, rfl⟩ := List.mem_map.1 htone
  have hroot := Pitch.nearestUnbounded_emod near (PitchClass.ofPitch (tonicPitch + chord.rootInterval)).toPitch none
  have hclass := PitchClass.toPitch_ofPitch (tonicPitch + chord.rootInterval)
  rw [inScale_iff]
  have hoffset := toneIntervals_mem_scale chord interval hinterval
  convert hoffset using 1
  omega

variable {low high : Int}

theorem triad_eq_ok (chord : ScaleChord) (tonicPitch near : Int) (hspan : 11 ≤ high - low) :
    chord.triad tonicPitch near low high = .ok ((chord.openTones tonicPitch near).map (Pitch.clampInto low high)) := by
  have htones : (chord.inKey tonicPitch).tones near = .ok (chord.openTones tonicPitch near) := by
    rw [Chord.tones, inKey, intervals_quality]
    rfl
  rw [triad, htones]
  change List.mapM (fun tone => Pitch.clamp tone low high) (chord.openTones tonicPitch near) = _
  simp only [Pitch.clamp_eq_ok hspan]
  exact List.mapM_pure

end ScaleChord

end TurtleMusic
