import TurtleMusic.Proofs.Composer.Choosing
import TurtleMusic.Proofs.Composer.Settings

/-!
# Lengths that can be written

No length a composer takes is nought: a measure without pulses is one length, one with pulses keeps only the groups that last, and the step it counts in is at least one unit. A chord is due only while there is a sampler to hand it out.
-/

namespace TurtleMusic.Composer

open TurtleMusic.Number TurtleMusic.Chance

variable {σ W : Type} [Weight W] {composer after : Composer σ W}

structure InMeasure (composer : Composer σ W) : Prop where
  durations : ∀ duration ∈ composer.durations, 0 < duration
  chord : composer.chordDue = true → composer.progression.isSome = true

variable [Source σ W]

theorem durations_pos (rhythm : EuclideanRhythm) : ∀ duration ∈ rhythm.durations, 0 < duration := by
  intro duration hduration
  rw [EuclideanRhythm.durations] at hduration
  split at hduration
  · exact absurd hduration List.not_mem_nil
  · exact Nat.pos_of_ne_zero (of_decide_eq_true (List.mem_filter.1 hduration).2)

/-- A measure that is begun has a length to take. -/
theorem startMeasure_ne_nil (composer : Composer σ W) : composer.startMeasure.durations ≠ [] := by
  simp only [startMeasure]
  split
  · exact List.cons_ne_nil _ _
  · next hempty => exact fun hnil => hempty (List.isEmpty_iff.2 hnil)

theorem startMeasure_inMeasure (hvalid : composer.config.Valid) : composer.startMeasure.InMeasure := by
  constructor
  · simp only [startMeasure]
    split
    · intro duration hduration
      rw [List.mem_singleton.1 hduration]
      have := hvalid.steps
      omega
    · exact durations_pos _
  · simp only [startMeasure, Bool.and_eq_true]
    exact fun hdue => hdue.1

theorem takeLength_pos (hvalid : composer.config.Valid) (hmeasure : composer.InMeasure) :
    0 < composer.takeLength.1 := by
  rw [takeLength]
  split
  · have hhead : ∀ running : Composer σ W, running.InMeasure → running.durations ≠ [] →
        0 < (running.durations.headD 0 : Int) := by
      intro running hrunning hne
      obtain ⟨duration, rest, hdurations⟩ := List.exists_cons_of_ne_nil hne
      have hpos := hrunning.durations duration (hdurations ▸ List.mem_cons_self)
      rw [hdurations, List.headD_cons]
      omega
    split
    · have hstarted := startMeasure_inMeasure hvalid
      have hconfig := (startMeasure_chosen composer).config
      exact Int.mul_pos (hhead _ hstarted (startMeasure_ne_nil composer)) (hconfig ▸ hvalid.stepUnits_pos)
    · next hne => exact Int.mul_pos (hhead _ hmeasure fun hnil => hne (List.isEmpty_iff.2 hnil)) hvalid.stepUnits_pos
  · exact hvalid.noteUnits

theorem takeLength_inMeasure (hvalid : composer.config.Valid) (hmeasure : composer.InMeasure) :
    composer.takeLength.2.InMeasure := by
  have htail : ∀ running : Composer σ W, running.InMeasure →
      InMeasure { running with durations := running.durations.tail } := fun running hrunning =>
    ⟨fun duration hduration => hrunning.durations duration (List.mem_of_mem_tail hduration), hrunning.chord⟩
  rw [takeLength]
  split
  · split
    · exact htail _ (startMeasure_inMeasure hvalid)
    · exact htail _ hmeasure
  · exact hmeasure

theorem chooseStroke_inMeasure {sounding : Bool} {stroke : Stroke} (hvalid : composer.config.Valid)
    (hmeasure : composer.InMeasure) (hchoose : composer.chooseStroke sounding = .ok (stroke, after)) :
    after.InMeasure := by
  have htaken := takeLength_inMeasure hvalid hmeasure
  obtain ⟨_, hsound⟩ | ⟨_, _, rfl⟩ := chooseStroke_ok hchoose
  · obtain ⟨_, _, _, hchord⟩ | ⟨_, _, hfollow, _⟩ | ⟨_, rfl, _⟩ := chooseSound_ok hsound
    · obtain ⟨_, _, _, _, _, _, rfl⟩ := chooseChord_ok hchord
      exact ⟨htaken.durations, fun _ => rfl⟩
    · obtain ⟨_, _, rfl⟩ | ⟨_, _, _, _, _, _, _, rfl⟩ := followCorpus_ok hfollow
      · exact ⟨htaken.durations, htaken.chord⟩
      · exact ⟨htaken.durations, htaken.chord⟩
    · exact htaken
  · exact htaken

theorem chooseStroke_length_pos {sounding : Bool} {stroke : Stroke} (hvalid : composer.config.Valid)
    (hmeasure : composer.InMeasure) (hchoose : composer.chooseStroke sounding = .ok (stroke, after)) :
    0 < stroke.length :=
  chooseStroke_length hchoose ▸ takeLength_pos hvalid hmeasure

end TurtleMusic.Composer
