import TurtleMusic.Harmony.Progression
import TurtleMusic.Proofs.Chance.Draw
import TurtleMusic.Proofs.Outcome

/-!
# Drawing chords

From every chord some other one can be reached, so the sampler always has a next chord to hand out.
-/

namespace TurtleMusic.Progression

open TurtleMusic.Number TurtleMusic.Chance

variable {σ W : Type} [Weight W] [LawfulWeight W]

theorem options_pos (chord : ScaleChord) : ∀ option ∈ options W chord, 0 < option.2 := by
  intro option hoption
  obtain ⟨next, hnext, rfl⟩ := List.mem_map.1 hoption
  exact LawfulWeight.natCast_pos (of_decide_eq_true (List.mem_filter.1 hnext).2)

omit [LawfulWeight W] in
theorem exists_option (chord : ScaleChord) : ∃ option, option ∈ options W chord := by
  have hchance : ∃ next ∈ ScaleChord.all, 0 < chord.chance next := by
    cases chord <;> decide
  obtain ⟨next, hnext, hpos⟩ := hchance
  exact ⟨_, List.mem_map_of_mem (List.mem_filter.2 ⟨hnext, decide_eq_true hpos⟩)⟩

theorem choose_options_isOk [Source σ W] (chord : ScaleChord) (source : σ) :
    ∃ drawn, choose (options W chord) source = .ok drawn := by
  obtain ⟨option, hoption⟩ := exists_option (W := W) chord
  exact choose_isOk (fun option hmem => LawfulWeight.not_neg_of_pos (options_pos chord option hmem))
    ⟨option, hoption, options_pos chord option hoption⟩ source

theorem wander_isOk [Source σ W] (chord : ScaleChord) (room : Nat) (source : σ) :
    ∃ drawn, wander W chord room source = .ok drawn := by
  induction room generalizing chord source with
  | zero =>
    obtain ⟨drawn, hdrawn⟩ := choose_options_isOk (W := W) chord source
    rw [wander, hdrawn]
    by_cases hhome : drawn.1 = .tonic
    · exact ⟨_, if_pos hhome⟩
    · exact ⟨_, if_neg hhome⟩
  | succ room ih =>
    obtain ⟨drawn, hdrawn⟩ := choose_options_isOk (W := W) chord source
    obtain ⟨further, hfurther⟩ := ih drawn.1 drawn.2
    rw [wander, hdrawn]
    by_cases hhome : drawn.1 = .tonic
    · exact ⟨_, if_pos hhome⟩
    · refine ⟨(drawn.1 :: further.1, further.2), (if_neg hhome).trans ?_⟩
      rw [hfurther]
      rfl

omit [LawfulWeight W] in
/-- Whatever chord is handed out, the limit stays. -/
theorem next_maxLength [Source σ W] {progression moved : Progression} {source left : σ}
    (hnext : progression.next W source = .ok (moved, left)) : moved.maxLength = progression.maxLength := by
  rw [next] at hnext
  split at hnext
  · cases hnext
    rfl
  · obtain ⟨sampled, -, hmoved⟩ := Except.bind_eq_ok_iff.1 hnext
    cases hmoved
    rfl

theorem next_isOk [Source σ W] (progression : Progression) (source : σ) :
    ∃ drawn, progression.next W source = .ok drawn := by
  rw [next]
  split
  · exact ⟨_, rfl⟩
  · obtain ⟨drawn, hdrawn⟩ := wander_isOk (W := W) .tonic (progression.maxLength - 2) source
    rw [sample, hdrawn]
    exact ⟨_, rfl⟩

end TurtleMusic.Progression
