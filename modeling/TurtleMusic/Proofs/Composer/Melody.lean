import TurtleMusic.Proofs.Composer.Moments
import TurtleMusic.Proofs.Composer.Reached
import TurtleMusic.Proofs.Corpus.Following
import TurtleMusic.Proofs.Pitch.Nearest

/-!
# How melodies go on

A melody that is left to chance moves as the corpus does. The score remembers the last two notes across rests, chords, measures and branches, while a branch takes the turtle back to where it was; so what may follow is a matter of the notes that were written, and how high it is written a matter of where the turtle stands.
-/

namespace TurtleMusic.Composer

open TurtleMusic.Number TurtleMusic.Chance TurtleMusic.Grammar TurtleMusic.Corpus

variable {σ W : Type} [Weight W] {composer before after chosen : Composer σ W} {log : List (Moment σ W)}

/-- The pitches of the notes written so far, the newest first. -/
def melodyOf (log : List (Moment σ W)) : List Int := (log.filterMap (·.stroke.pitch?)).reverse

/-- How a melody, the newest pitch first, goes on while the turtle is at some height: by what may follow in the lines, as near to the height as it can be, and if nothing follows by the height itself. -/
def GoesOn (config : Config) (order : MarkovOrder) (lines : List Line) (height : Int) : List Int → Int → Prop
  | [], pitch => pitch = height
  | last :: earlier, pitch =>
    ((∃ next, Heard lines [PitchClass.ofPitch last, next]) →
        Continues order lines (earlier.head?.map PitchClass.ofPitch) (PitchClass.ofPitch last) (PitchClass.ofPitch pitch) ∧
          Pitch.IsNearest config.low config.high height pitch pitch) ∧
      ((∀ next, ¬Heard lines [PitchClass.ofPitch last, next]) → pitch = height)

omit [Weight W] in
theorem melodyOf_concat (log : List (Moment σ W)) (moment : Moment σ W) :
    melodyOf (log ++ [moment]) = moment.stroke.pitch?.toList ++ melodyOf log := by
  simp only [melodyOf, List.filterMap_append, List.reverse_append]
  cases hpitch : moment.stroke.pitch? <;> simp [hpitch]

/-- Every note of a log goes on from the notes before it, at the height the turtle had before the stroke. -/
def Moves (config : Config) (order : MarkovOrder) (lines : List Line) (log : List (Moment σ W)) : Prop :=
  ∀ earlier moment later pitch, log = earlier ++ moment :: later → moment.stroke.pitch? = some pitch →
    GoesOn config order lines moment.before.turtle.pose.y (melodyOf earlier) pitch

variable {config : Config} {order : MarkovOrder} {lines : List Line} {moment : Moment σ W}

omit [Weight W] in
theorem Moves.append (hmoves : Moves config order lines log)
    (hmoment : ∀ pitch, moment.stroke.pitch? = some pitch →
      GoesOn config order lines moment.before.turtle.pose.y (melodyOf log) pitch) :
    Moves config order lines (log ++ [moment]) := by
  intro earlier other later pitch hsplit hpitch
  -- The moment that is split off is the new one or lies in the old log.
  rcases later.eq_nil_or_concat with rfl | ⟨init, last, rfl⟩
  · obtain ⟨rfl, hsame⟩ := List.append_inj' hsplit rfl
    cases hsame
    exact hmoment pitch hpitch
  · rw [List.concat_eq_append, ← List.cons_append, ← List.append_assoc] at hsplit
    exact hmoves earlier other init pitch (List.append_inj' hsplit rfl).1 hpitch

/-! ### One note -/

section

variable [SharingWeight W] {model : CorpusModel W}

theorem goesOn_of_next [Source σ W] (hspan : 11 ≤ config.high - config.low) (hcounted : model.Counted) {melody : List Int}
    {height pitch : Int} {source later : σ} {drawn : Option PitchClass}
    (hnext : model.next (melody.head?.map PitchClass.ofPitch) (melody.tail.head?.map PitchClass.ofPitch) source =
      .ok (drawn, later))
    (hpitch : drawn.elim (pitch = height) fun pitchClass =>
      Pitch.nearest height pitchClass.toPitch (some config.low) (some config.high) = .ok pitch) :
    GoesOn config model.order model.heard height melody pitch := by
  cases melody with
  | nil =>
    cases hnext
    exact hpitch
  | cons last earlier =>
    rcases CorpusModel.next_ok hcounted hnext with ⟨rfl, hnone⟩ | ⟨next, rfl, hcontinues⟩
    · exact ⟨fun ⟨next, hheard⟩ => absurd hheard (hnone next), fun _ => hpitch⟩
    · have hnearest := Pitch.nearest_ok hspan hpitch
      have hclass : PitchClass.ofPitch pitch = next := by
        rw [PitchClass.ofPitch_of_emod_eq hnearest.emod, PitchClass.ofPitch_toPitch]
      rw [← hclass] at hcontinues
      refine ⟨fun _ => ⟨hcontinues, hnearest.of_emod_eq hnearest.emod.symm⟩, fun hnone => ?_⟩
      exact absurd hcontinues.heard (hnone _)

end

variable [Source σ W]

/-- The pitch of a note is the height of the turtle if nothing is drawn, and otherwise the nearest pitch of what is. -/
theorem chooseStroke_pitch {sounding : Bool} {stroke : Stroke} {pitch : Int} {model : CorpusModel W}
    (hmarkov : composer.config.markov = true) (hcorpus : composer.corpus = some model)
    (hchoose : composer.chooseStroke sounding = .ok (stroke, chosen)) (hpitch : stroke.pitch? = some pitch) :
    ∃ drawn source, model.next composer.score.note composer.score.previousNote composer.takeLength.2.source =
        .ok (drawn, source) ∧
      drawn.elim (pitch = composer.turtle.pose.y) fun pitchClass =>
        Pitch.nearest composer.turtle.pose.y pitchClass.toPitch (some composer.config.low) (some composer.config.high) =
          .ok pitch := by
  have htaken := takeLength_chosen composer
  have hnote : composer.takeLength.2.score.note = composer.score.note := by rw [htaken.score]
  have hprevious : composer.takeLength.2.score.previousNote = composer.score.previousNote := by rw [htaken.score]
  obtain ⟨_, hsound⟩ | ⟨_, rfl, _⟩ := chooseStroke_ok hchoose
  · obtain ⟨_, _, _, hchord⟩ | ⟨_, _, hfollow, rfl⟩ | ⟨hplain, _, _⟩ := chooseSound_ok hsound
    · obtain ⟨_, _, _, _, _, rfl, _⟩ := chooseChord_ok hchord
      cases hpitch
    · cases hpitch
      rw [← hnote, ← hprevious, ← (takeLength_height composer).1, ← htaken.config]
      rw [← htaken.corpus] at hcorpus
      obtain ⟨source, hnext, rfl⟩ | ⟨own, source, pitch, pitchClass, hown, hnext, hnearest, rfl⟩ := followCorpus_ok hfollow
      · exact ⟨none, source, hnext model hcorpus, rfl⟩
      · cases hcorpus.symm.trans hown
        exact ⟨some pitchClass, source, hnext, hnearest⟩
    · rw [htaken.config, hmarkov] at hplain
      cases hplain
  · cases hpitch

/-! ### The notes remembered -/

/-- The score remembers the last two pitches of a melody by their classes. -/
structure Remembers (melody : List Int) (score : Score) : Prop where
  note : score.note = melody.head?.map PitchClass.ofPitch
  previousNote : score.previousNote = melody.tail.head?.map PitchClass.ofPitch

theorem Remembers.of_same {melody : List Int} {score later : Score} (hremembers : Remembers melody score)
    (hnote : later.note = score.note) (hprevious : later.previousNote = score.previousNote) : Remembers melody later :=
  ⟨hnote.trans hremembers.note, hprevious.trans hremembers.previousNote⟩

theorem Remembers.write {melody : List Int} {score later : Score} {stroke : Stroke} (hremembers : Remembers melody score)
    (hnonneg : ∀ pitch ∈ stroke.pitches, 0 ≤ pitch) (hwrite : score.write stroke = .ok later) :
    Remembers (stroke.pitch?.toList ++ melody) later := by
  cases hpitch : stroke.pitch? with
  | none =>
    obtain ⟨hnote, hprevious⟩ := Score.write_other hpitch hwrite
    exact hremembers.of_same hnote hprevious
  | some pitch =>
    obtain ⟨hnote, hprevious⟩ := Score.write_note hpitch hwrite
    refine ⟨?_, hprevious.trans hremembers.note⟩
    rw [hnote, PitchClass.heard?, if_pos (hnonneg pitch (Stroke.mem_pitches_of_pitch? hpitch))]
    rfl

omit [Weight W] [Source σ W] in
theorem Chosen.remembers {melody : List Int} (hchosen : Chosen before after) (hremembers : Remembers melody before.score) :
    Remembers melody after.score :=
  hremembers.of_same (by rw [hchosen.score]) (by rw [hchosen.score])

/-! ### A pass -/

/-- The score remembers the melody so far, and every note of it went on from those before. -/
structure Melodic (model : CorpusModel W) (log : List (Moment σ W)) (composer : Composer σ W) : Prop where
  markov : composer.config.markov = true
  corpus : composer.corpus = some model
  remembers : Remembers (melodyOf log) composer.score
  moves : Moves composer.config model.order model.heard log

theorem melodic_lasts [SharingWeight W] (model : CorpusModel W) : Lasts (σ := σ) (W := W) (Melodic model) where
  quiet := by
    intro depth log before after _ hsame hquiet hmelodic
    obtain ⟨hmarkov, hcorpus, hremembers, hmoves⟩ := hmelodic
    refine ⟨?_, hsame.corpus.trans hcorpus, hremembers.of_same hquiet.note hquiet.previousNote, ?_⟩
    · rw [hsame.config]
      exact hmarkov
    · rw [hsame.config]
      exact hmoves
  stroke := by
    intro depth log before chosen after sounding stroke score hunder hstroke hchoose hwrite hafter hmelodic
    obtain ⟨hmarkov, hcorpus, hremembers, hmoves⟩ := hmelodic
    have hvalid := hunder.fit.valid
    have hsame := horizontalStroke_sameSetting hstroke
    have hchosen := chooseStroke_chosen hchoose
    obtain ⟨beat, hadvance⟩ := advance_eq { chosen with score := score } stroke.length
    have hnonneg : ∀ pitch ∈ stroke.pitches, 0 ≤ pitch := by
      intro pitch hpitch
      have hlow := ((chooseStroke_tuned hvalid hunder.tuned hchoose).2 pitch hpitch).low
      rw [hchosen.config] at hlow
      exact hvalid.low.trans hlow
    have hwritten := (hchosen.remembers hremembers).write hnonneg hwrite
    refine ⟨?_, hsame.corpus.trans hcorpus, ?_, ?_⟩
    · rw [hsame.config]
      exact hmarkov
    · rw [melodyOf_concat]
      exact hwritten.of_same (by rw [hafter, hadvance]) (by rw [hafter, hadvance])
    · rw [hsame.config]
      apply hmoves.append
      intro pitch hpitch
      obtain ⟨drawn, source, hnext, hdrawn⟩ := chooseStroke_pitch hmarkov hcorpus hchoose hpitch
      rw [hremembers.note, hremembers.previousNote] at hnext
      exact goesOn_of_next hvalid.span (hunder.fit.corpus model hcorpus) hnext hdrawn

omit [Source σ W] in
/-- At the start of a pass the corpus speaks for the key of the score. -/
theorem begun_corpus {model : CorpusModel W} (hfit : composer.Fit) (hcorpus : composer.corpus = some model) :
    composer.begun.corpus = some (.ofFiled model.order model.filed composer.score.keyClass) := by
  have hown : model = .ofFiled model.order model.filed model.key := hfit.corpus model hcorpus
  rw [begun, hcorpus]
  exact congrArg some (hown ▸ CorpusModel.moveTo_ofFiled model.order model.filed model.key composer.score.keyClass)

variable [SharingWeight W]

/-- In a pass that is left to chance and has a corpus, the melody begins where the turtle is and goes on as melodies of the active key do. -/
theorem melody_moves_as_heard {model : CorpusModel W} (hreached : Reached config composer)
    (hhandlers : composer.handlers = defaultHandlers) (hmarkov : config.markov = true)
    (hcorpus : composer.corpus = some model) {production : List Char} (hnested : Nested production) :
    ∃ after reports, composer.compose production = ⟨after, ⟨reports, .ok ()⟩⟩ ∧
      Moves config model.order (model.filed.inKey composer.score.keyClass) (composer.momentsOf production) := by
  obtain ⟨hfit, rfl⟩ := hreached.fitWith
  have hbegun : Melodic (.ofFiled model.order model.filed composer.score.keyClass) [] composer.begun := by
    refine ⟨hmarkov, begun_corpus hfit hcorpus, ⟨rfl, rfl⟩, ?_⟩
    intro earlier moment later pitch hsplit
    simp at hsplit
  obtain ⟨after, reports, hcompose, hmelodic⟩ := momentsOf_keeps (melodic_lasts _) hfit hhandlers hbegun hnested
  have hmoves := hmelodic.moves
  rw [hreached.config_of_compose hcompose] at hmoves
  exact ⟨after, reports, hcompose, hmoves⟩

/-- The melody goes on to G, although F would come first behind E alone: the notes before a branch are remembered in it, and its own after it. Behind A nothing is heard, so that it stays. -/
theorem melody_moves_as_heard_after_branch :
    ∃ (composer : Composer (Script Rat) Rat) (model : CorpusModel Rat), Reached { markov := true, order := 2 } composer ∧
      composer.corpus = some model ∧ model.order = .two ∧
      model.filed.inKey composer.score.keyClass = [[0, 4, 7, 9], [4, 5]] ∧
      melodyOf (composer.momentsOf "fffff[+f]gg[g]gg".toList) = [57, 57, 55, 52, 48] ∧
      Moves { markov := true, order := 2 } .two [[0, 4, 7, 9], [4, 5]] (composer.momentsOf "fffff[+f]gg[g]gg".toList) := by
  have hmade : ∃ (composer : Composer (Script Rat) Rat) (model : CorpusModel Rat) (reports : List Report),
      make { markov := true, order := 2 } (some (.source twoMelodies)) ⟨#[], 0⟩ none = .ok (composer, reports) ∧
        composer.handlers = defaultHandlers ∧ composer.corpus = some model ∧ model.order = .two ∧
        model.filed.inKey composer.score.keyClass = [[0, 4, 7, 9], [4, 5]] ∧
        melodyOf (composer.momentsOf "fffff[+f]gg[g]gg".toList) = [57, 57, 55, 52, 48] :=
    ⟨_, _, _, rfl, rfl, rfl, rfl, rfl, by decide +kernel⟩
  obtain ⟨composer, model, reports, hmade, hhandlers, hcorpus, horder, hlines, hmelody⟩ := hmade
  have hreached : Reached { markov := true, order := 2 } composer := .made (by simp) hmade
  have hnested : Nested "fffff[+f]gg[g]gg".toList := by decide
  obtain ⟨_, _, _, hmoves⟩ := melody_moves_as_heard hreached hhandlers rfl hcorpus hnested
  rw [horder, hlines] at hmoves
  exact ⟨composer, model, hreached, hcorpus, horder, hlines, hmelody, hmoves⟩

end TurtleMusic.Composer
