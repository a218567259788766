import TurtleMusic.Composer.Stroke
import TurtleMusic.Proofs.Harmony.Progression
import TurtleMusic.Proofs.Outcome

/-!
# How a stroke is chosen

Time, pitch and sound are settled one after the other, and each settles its own part of the composer: the clockwork of the measures, the height of the turtle with its degree, the sampler of chords. Everything else is left alone, and at most a bar line is written.
-/

namespace TurtleMusic.Composer

open TurtleMusic.Number TurtleMusic.Chance

variable {σ W : Type} [Weight W] {composer before after later : Composer σ W}

/-- What choosing a stroke leaves alone. -/
structure Chosen (before after : Composer σ W) : Prop where
  config : after.config = before.config
  restart : after.restart = before.restart
  handlers : after.handlers = before.handlers
  corpus : after.corpus = before.corpus
  branches : after.branches = before.branches
  sampler : after.progression.map (·.maxLength) = before.progression.map (·.maxLength)
  turtle : after.turtle = before.turtle.setY after.turtle.pose.y
  score : after.score = { before.score with written := after.score.written, degree := after.score.degree }
  written : ∃ count, after.score.written = List.replicate count .measure ++ before.score.written

omit [Weight W] in
theorem Chosen.refl (composer : Composer σ W) : Chosen composer composer :=
  ⟨rfl, rfl, rfl, rfl, rfl, rfl, rfl, rfl, 0, rfl⟩

omit [Weight W] in
theorem Chosen.trans (hfirst : Chosen before after) (hsecond : Chosen after later) : Chosen before later where
  config := hsecond.config.trans hfirst.config
  restart := hsecond.restart.trans hfirst.restart
  handlers := hsecond.handlers.trans hfirst.handlers
  corpus := hsecond.corpus.trans hfirst.corpus
  branches := hsecond.branches.trans hfirst.branches
  sampler := hsecond.sampler.trans hfirst.sampler
  turtle := by
    rw [hsecond.turtle, hfirst.turtle]
    rfl
  score := by
    rw [hsecond.score, hfirst.score]
  written := by
    obtain ⟨first, hfirst⟩ := hfirst.written
    obtain ⟨second, hsecond⟩ := hsecond.written
    exact ⟨second + first, by rw [hsecond, hfirst, ← List.append_assoc, List.replicate_append_replicate]⟩

variable [Source σ W]

/-! ### Time -/

theorem startMeasure_chosen (composer : Composer σ W) : Chosen composer composer.startMeasure where
  config := rfl
  restart := rfl
  handlers := rfl
  corpus := rfl
  branches := rfl
  sampler := rfl
  turtle := rfl
  score := by
    simp only [startMeasure]
    split <;> rfl
  written := by
    simp only [startMeasure]
    split
    · exact ⟨1, rfl⟩
    · exact ⟨0, rfl⟩

theorem takeLength_chosen (composer : Composer σ W) : Chosen composer composer.takeLength.2 := by
  rw [takeLength]
  split
  · split
    · have hstarted := startMeasure_chosen composer
      exact ⟨hstarted.config, hstarted.restart, hstarted.handlers, hstarted.corpus, hstarted.branches,
        hstarted.sampler, hstarted.turtle, hstarted.score, hstarted.written⟩
    · exact ⟨rfl, rfl, rfl, rfl, rfl, rfl, rfl, rfl, 0, rfl⟩
  · exact Chosen.refl composer

/-! ### Pitch -/

/-- Following the corpus draws from it and, unless nothing is drawn, moves the turtle to the nearest pitch of what is. -/
theorem followCorpus_ok (hfollow : composer.followCorpus = .ok after) :
    (∃ source, (∀ corpus, composer.corpus = some corpus →
        corpus.next composer.score.note composer.score.previousNote composer.source = .ok (none, source)) ∧
        after = { composer with source := source }) ∨
      ∃ corpus source pitch, ∃ pitchClass : PitchClass, composer.corpus = some corpus ∧
        corpus.next composer.score.note composer.score.previousNote composer.source = .ok (some pitchClass, source) ∧
        Pitch.nearest composer.turtle.pose.y pitchClass.toPitch (some composer.config.low) (some composer.config.high) =
          .ok pitch ∧
        after = { composer with
          source := source
          turtle := composer.turtle.setY pitch
          score := { composer.score with degree := composer.heightDegree pitch } } := by
  rw [followCorpus] at hfollow
  split at hfollow
  · next corpus hcorpus =>
    obtain ⟨⟨drawn, source⟩, hnext, hdrawn⟩ := Except.bind_eq_ok_iff.1 hfollow
    cases drawn with
    | none =>
      cases hdrawn
      refine .inl ⟨source, fun own hown => ?_, rfl⟩
      cases hcorpus.symm.trans hown
      exact hnext
    | some pitchClass =>
      obtain ⟨pitch, hpitch, hafter⟩ := Except.bind_eq_ok_iff.1 hdrawn
      cases hafter
      exact .inr ⟨corpus, source, pitch, pitchClass, hcorpus, hnext, hpitch, rfl⟩
  · next hcorpus =>
    cases hfollow
    exact .inl ⟨_, fun corpus hown => absurd hown (hcorpus corpus), rfl⟩

theorem followCorpus_chosen (hfollow : composer.followCorpus = .ok after) : Chosen composer after := by
  obtain ⟨source, _, rfl⟩ | ⟨_, source, pitch, _, _, _, _, rfl⟩ := followCorpus_ok hfollow
  · exact ⟨rfl, rfl, rfl, rfl, rfl, rfl, rfl, rfl, 0, rfl⟩
  · exact ⟨rfl, rfl, rfl, rfl, rfl, rfl, rfl, rfl, 0, rfl⟩

/-! ### Sound -/

variable {length : Int} {stroke : Stroke}

/-- A chord is the triad of the next chord of the progression, and only the sampler moves on. -/
theorem chooseChord_ok {progression : Progression} (hchoose : composer.chooseChord progression length = .ok (stroke, after)) :
    ∃ (chosen : Progression) (source : σ) (tones : List Int), progression.next W composer.source = .ok (chosen, source) ∧
      chosen.current.triad composer.score.keyClass.toPitch composer.turtle.pose.y composer.config.low
          composer.config.high = .ok tones ∧
        stroke = .harmony (tones.take composer.config.harmonyVoices.toNat) length ∧
          after = { composer with source := source, progression := some chosen, chordDue := false } := by
  obtain ⟨⟨chosen, source⟩, hnext, hchosen⟩ := Except.bind_eq_ok_iff.1 hchoose
  obtain ⟨tones, htones, hresult⟩ := Except.bind_eq_ok_iff.1 hchosen
  cases hresult
  exact ⟨chosen, source, tones, hnext, htones, rfl, rfl⟩

/-- A sound is a chord if one is due, and otherwise a note at the height of the turtle. -/
theorem chooseSound_ok (hchoose : composer.chooseSound length = .ok (stroke, after)) :
    (∃ progression, composer.chordDue = true ∧ composer.progression = some progression ∧
        composer.chooseChord progression length = .ok (stroke, after)) ∨
      (composer.config.markov = true ∧ composer.chordDue = false ∧ composer.followCorpus = .ok after ∧
        stroke = .note after.turtle.pose.y length false) ∨
      (composer.config.markov = false ∧ after = composer ∧ stroke = .note composer.turtle.pose.y length true) := by
  rw [chooseSound] at hchoose
  by_cases hmarkov : composer.config.markov = true
  · rw [if_pos hmarkov] at hchoose
    by_cases hdue : composer.chordDue = true
    · rw [if_pos hdue] at hchoose
      cases hprogression : composer.progression with
      | none => simp [hprogression] at hchoose
      | some progression =>
        rw [hprogression] at hchoose
        exact .inl ⟨progression, hdue, rfl, hchoose⟩
    · rw [if_neg hdue] at hchoose
      obtain ⟨followed, hfollow, hresult⟩ := Except.bind_eq_ok_iff.1 hchoose
      cases hresult
      exact .inr (.inl ⟨hmarkov, Bool.eq_false_iff.2 hdue, hfollow, rfl⟩)
  · rw [if_neg hmarkov] at hchoose
    cases hchoose
    exact .inr (.inr ⟨Bool.eq_false_iff.2 hmarkov, rfl, rfl⟩)

theorem chooseSound_chosen (hchoose : composer.chooseSound length = .ok (stroke, after)) : Chosen composer after := by
  obtain ⟨progression, _, hprogression, hchord⟩ | ⟨_, _, hfollow, _⟩ | ⟨_, rfl, _⟩ := chooseSound_ok hchoose
  · obtain ⟨chosen, source, tones, hnext, _, _, rfl⟩ := chooseChord_ok hchord
    have hsampler := congrArg some (Progression.next_maxLength hnext)
    exact ⟨rfl, rfl, rfl, rfl, rfl, by rw [hprogression]; exact hsampler, rfl, rfl, 0, rfl⟩
  · exact followCorpus_chosen hfollow
  · exact Chosen.refl _

theorem chooseSound_length (hchoose : composer.chooseSound length = .ok (stroke, after)) : stroke.length = length := by
  obtain ⟨_, _, _, hchord⟩ | ⟨_, _, _, rfl⟩ | ⟨_, _, rfl⟩ := chooseSound_ok hchoose
  · obtain ⟨_, _, _, _, _, rfl, _⟩ := chooseChord_ok hchord
    rfl
  · rfl
  · rfl

/-- A stroke takes the next length, and sounds or rests for it. -/
theorem chooseStroke_ok {sounding : Bool} (hchoose : composer.chooseStroke sounding = .ok (stroke, after)) :
    (sounding = true ∧ composer.takeLength.2.chooseSound composer.takeLength.1 = .ok (stroke, after)) ∨
      (sounding = false ∧ stroke = .rest composer.takeLength.1 ∧ after = composer.takeLength.2) := by
  rw [chooseStroke] at hchoose
  cases sounding with
  | true => exact .inl ⟨rfl, hchoose⟩
  | false =>
    cases hchoose
    exact .inr ⟨rfl, rfl, rfl⟩

theorem chooseStroke_chosen {sounding : Bool} (hchoose : composer.chooseStroke sounding = .ok (stroke, after)) :
    Chosen composer after := by
  obtain ⟨_, hsound⟩ | ⟨_, _, rfl⟩ := chooseStroke_ok hchoose
  · exact (takeLength_chosen composer).trans (chooseSound_chosen hsound)
  · exact takeLength_chosen composer

theorem chooseStroke_length {sounding : Bool} (hchoose : composer.chooseStroke sounding = .ok (stroke, after)) :
    stroke.length = composer.takeLength.1 := by
  obtain ⟨_, hsound⟩ | ⟨_, rfl, _⟩ := chooseStroke_ok hchoose
  · exact chooseSound_length hsound
  · rfl

end TurtleMusic.Composer
