import TurtleMusic.Proofs.Score.Reading

/-!
# Strokes laid end to end

The music that strokes mean by themselves: those of one voice and layer follow one another without a gap. A list of tokens agrees with the strokes that were written if reading it lets the same pitches sound at the same times. Writing one more stroke keeps the agreement, and so does every token that takes no time.
-/

namespace TurtleMusic

/-- The time that strokes take one after the other. -/
def duration : List Stroke → Nat
  | [] => 0
  | stroke :: rest => stroke.length.toNat + duration rest

/-- The pitches of the stroke that covers a time when strokes are laid end to end; none after the last. -/
def pitchesAt : List Stroke → (time : Nat) → List Int
  | [], _ => []
  | stroke :: rest, time =>
    if time < stroke.length.toNat then stroke.pitches else pitchesAt rest (time - stroke.length.toNat)

/-- The strokes written in one slot, in order. -/
def strokesIn (slot : Slot) (strokes : List (Slot × Stroke)) : List Stroke :=
  (strokes.filter (·.1 = slot)).map (·.2)

theorem duration_concat (strokes : List Stroke) (stroke : Stroke) :
    duration (strokes ++ [stroke]) = duration strokes + stroke.length.toNat := by
  induction strokes with
  | nil => exact Nat.add_comm _ _
  | cons first rest ih => rw [List.cons_append, duration, duration, ih, Nat.add_assoc]

theorem mem_pitchesAt_concat (strokes : List Stroke) (stroke : Stroke) (time : Nat) (pitch : Int) :
    pitch ∈ pitchesAt (strokes ++ [stroke]) time ↔
      pitch ∈ pitchesAt strokes time ∨
        pitch ∈ stroke.pitches ∧ duration strokes ≤ time ∧ time < duration strokes + stroke.length.toNat := by
  induction strokes generalizing time with
  | nil =>
    rw [List.nil_append, pitchesAt, pitchesAt, pitchesAt, duration]
    split <;> simp [*]
  | cons first rest ih =>
    rw [List.cons_append, pitchesAt, pitchesAt, duration]
    split
    · next hwithin =>
      refine (or_iff_left ?_).symm
      rintro ⟨_, hstart, _⟩
      omega
    · next hbeyond =>
      rw [ih]
      refine or_congr_right (and_congr_right fun _ => ?_)
      omega

theorem strokesIn_concat (asked slot : Slot) (strokes : List (Slot × Stroke)) (stroke : Stroke) :
    strokesIn asked (strokes ++ [(slot, stroke)]) =
      if asked = slot then strokesIn asked strokes ++ [stroke] else strokesIn asked strokes := by
  rw [strokesIn, strokesIn, List.filter_append, List.map_append]
  by_cases hasked : asked = slot
  · simp [hasked]
  · have hother : ¬slot = asked := fun heq => hasked heq.symm
    simp [hasked, hother]

/-- Reading the tokens, newest first, lets sound what the strokes of each slot laid end to end let sound. -/
structure Agrees (written : List Token) (strokes : List (Slot × Stroke)) : Prop where
  clock : ∀ slot, (Reading.through written).clock slot = duration (strokesIn slot strokes)
  sounding : ∀ slot time pitch, Event.Sounding (Reading.heard written) slot time pitch ↔
    pitch ∈ pitchesAt (strokesIn slot strokes) time

namespace Agrees

variable {written : List Token} {strokes : List (Slot × Stroke)}

theorem nil : Agrees [] [] where
  clock _ := rfl
  sounding _ _ _ := iff_of_false Reading.not_sounding_nil List.not_mem_nil

theorem of_marks (hagrees : Agrees written strokes) {marks : List Token} (hmarks : ∀ mark ∈ marks, mark.IsMark) :
    Agrees (marks ++ written) strokes where
  clock slot := by rw [Reading.clock_marks hmarks, hagrees.clock]
  sounding slot time pitch := by rw [Reading.sounding_marks hmarks, hagrees.sounding]

theorem of_writes (hagrees : Agrees written strokes) {after : List Token} {stroke : Stroke}
    (hwrites : Writes stroke written after) (hpos : 0 < stroke.length) :
    Agrees after (strokes ++ [((Reading.through written).slot, stroke)]) where
  clock asked := by
    have hclock := Reading.clock_of_writes hwrites asked
    rw [hagrees.clock] at hclock
    rw [strokesIn_concat]
    split
    · next hasked =>
      rw [if_pos hasked] at hclock
      rw [duration_concat]
      omega
    · next hasked =>
      rw [if_neg hasked] at hclock
      omega
  sounding asked time pitch := by
    rw [Reading.sounding_of_writes hwrites, hagrees.sounding, strokesIn_concat, Reading.Covers]
    split
    · next hasked => rw [mem_pitchesAt_concat, and_iff_right hasked, hagrees.clock]
    · next hasked =>
      apply or_iff_left
      rintro ⟨_, hown, _⟩
      exact hasked hown

end Agrees

end TurtleMusic
