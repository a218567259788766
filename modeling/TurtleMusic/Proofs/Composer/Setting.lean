import TurtleMusic.Composer.Pass
import TurtleMusic.Proofs.Composer.Choosing
import TurtleMusic.Proofs.Score.Writing

/-!
# What a pass works in

Settings, handlers, corpus, key, tempo and instrument are what a pass works in, and so is everything the next pass starts from: the source of chance, the turtle's first pose, the limit of the sampler. Of all handlers only a change of key touches any of it. Each handler is therefore followed once here, down to the equation that says which other parts it changes.
-/

namespace TurtleMusic.Composer

open TurtleMusic.Number TurtleMusic.Chance

variable {σ W : Type} [Weight W] {composer before after later : Composer σ W}

/-- Two moments between which nothing has changed that a pass works in or starts from. -/
structure SameSetting (before after : Composer σ W) : Prop where
  config : after.config = before.config
  restart : after.restart = before.restart
  handlers : after.handlers = before.handlers
  corpus : after.corpus = before.corpus
  sampler : after.progression.map (·.maxLength) = before.progression.map (·.maxLength)
  home : ∀ angle, after.turtle.reset angle = before.turtle.reset angle
  key : after.score.key = before.score.key
  tempo : after.score.tempo = before.score.tempo
  instrument : after.score.instrument = before.score.instrument

omit [Weight W] in
theorem SameSetting.refl (composer : Composer σ W) : SameSetting composer composer :=
  ⟨rfl, rfl, rfl, rfl, rfl, fun _ => rfl, rfl, rfl, rfl⟩

omit [Weight W] in
theorem SameSetting.trans (hfirst : SameSetting before after) (hsecond : SameSetting after later) :
    SameSetting before later where
  config := hsecond.config.trans hfirst.config
  restart := hsecond.restart.trans hfirst.restart
  handlers := hsecond.handlers.trans hfirst.handlers
  corpus := hsecond.corpus.trans hfirst.corpus
  sampler := hsecond.sampler.trans hfirst.sampler
  home angle := (hsecond.home angle).trans (hfirst.home angle)
  key := hsecond.key.trans hfirst.key
  tempo := hsecond.tempo.trans hfirst.tempo
  instrument := hsecond.instrument.trans hfirst.instrument

omit [Weight W] in
theorem Chosen.sameSetting (hchosen : Chosen before after) : SameSetting before after where
  config := hchosen.config
  restart := hchosen.restart
  handlers := hchosen.handlers
  corpus := hchosen.corpus
  sampler := hchosen.sampler
  home angle := by
    rw [hchosen.turtle]
    rfl
  key := by rw [hchosen.score]
  tempo := by rw [hchosen.score]
  instrument := by rw [hchosen.score]

/-! ### Strokes -/

theorem repeat_nextBeat (count : Nat) (score : Score) :
    ∃ beat, Nat.repeat Score.nextBeat count score = { score with beat := beat } := by
  induction count with
  | zero => exact ⟨score.beat, rfl⟩
  | succ count ih =>
    obtain ⟨beat, hbeat⟩ := ih
    exact ⟨_, by rw [Nat.repeat, hbeat]; rfl⟩

omit [Weight W] in
/-- Advancing moves the turtle, the position and the beat. -/
theorem advance_eq (composer : Composer σ W) (length : Int) :
    ∃ beat, composer.advance length = { composer with
      turtle := composer.turtle.advance length
      score := { composer.score with position := composer.score.position + length, beat := beat } } := by
  rw [advance]
  obtain ⟨beat, hbeat⟩ := repeat_nextBeat
    ((composer.score.position + length) / 32 - composer.score.position / 32).toNat
    { composer.score with position := composer.score.position + length }
  exact ⟨beat, by rw [hbeat]⟩

variable [Source σ W]

/-- A horizontal stroke is chosen, written and passed. -/
theorem horizontalStroke_ok {sounding : Bool} (hstroke : composer.horizontalStroke sounding = .ok after) :
    ∃ stroke chosen score, composer.chooseStroke sounding = .ok (stroke, chosen) ∧
      chosen.score.write stroke = .ok score ∧ after = ({ chosen with score }).advance stroke.length := by
  obtain ⟨⟨stroke, chosen⟩, hchosen, hwritten⟩ := Except.bind_eq_ok_iff.1 hstroke
  obtain ⟨score, hscore, hresult⟩ := Except.bind_eq_ok_iff.1 hwritten
  cases hresult
  exact ⟨stroke, chosen, score, hchosen, hscore, rfl⟩

omit [Weight W] [Source σ W] in
/-- A diatonic step moves the turtle to the pitch it leads to, brought back into the range. -/
theorem stepPitch_ok {up : Bool} (hstep : composer.stepPitch up = .ok after) :
    ∃ pitch, Pitch.wrap (Degree.step composer.turtle.pose.y composer.score.degree up).1 composer.config.low
        composer.config.high = .ok pitch ∧
      after = { composer with
        turtle := composer.turtle.setY pitch
        score := { composer.score with
          degree := (Degree.step composer.turtle.pose.y composer.score.degree up).2 } } := by
  obtain ⟨pitch, hpitch, rfl⟩ := Except.map_eq_ok_iff.1 hstep
  exact ⟨pitch, hpitch, rfl⟩

omit [Weight W] [Source σ W] in
/-- Writing a stroke and passing it stays in the setting. -/
theorem written_sameSetting {stroke : Stroke} {score : Score} (hwrite : composer.score.write stroke = .ok score)
    (length : Int) : SameSetting composer (({ composer with score } : Composer σ W).advance length) := by
  obtain ⟨beat, hadvance⟩ := advance_eq { composer with score } length
  have hsame := Score.write_sameContext hwrite
  rw [hadvance]
  exact ⟨rfl, rfl, rfl, rfl, rfl, fun _ => rfl, hsame.key, hsame.tempo, hsame.instrument⟩

theorem horizontalStroke_sameSetting {sounding : Bool} (hstroke : composer.horizontalStroke sounding = .ok after) :
    SameSetting composer after := by
  obtain ⟨stroke, chosen, score, hchosen, hwrite, rfl⟩ := horizontalStroke_ok hstroke
  exact (chooseStroke_chosen hchosen).sameSetting.trans (written_sameSetting hwrite stroke.length)

theorem stroke_sameSetting {sounding : Bool} (hstroke : composer.stroke sounding = .ok after) :
    SameSetting composer after := by
  rw [stroke] at hstroke
  split at hstroke
  · exact horizontalStroke_sameSetting hstroke
  · split at hstroke
    · obtain ⟨pitch, _, rfl⟩ := stepPitch_ok hstroke
      exact ⟨rfl, rfl, rfl, rfl, rfl, fun _ => rfl, rfl, rfl, rfl⟩
    · cases hstroke
      exact SameSetting.refl _

theorem pause_sameSetting (hpause : composer.pause = .ok after) : SameSetting composer after := by
  rw [pause] at hpause
  split at hpause
  · exact horizontalStroke_sameSetting hpause
  · cases hpause
    exact SameSetting.refl _

/-! ### Branches and hues -/

omit [Weight W] [Source σ W]

/-- Changing the number of voices changes nothing else, in range or not. -/
theorem setVoices_eq (score : Score) (voices : Int) : ∃ kept, score.setVoices voices = { score with voices := kept } := by
  rw [Score.setVoices]
  split
  · exact ⟨voices, rfl⟩
  · exact ⟨score.voices, rfl⟩

/-- Changing the number of layers changes nothing else, in range or not. -/
theorem setLayers_eq (score : Score) (layers : Int) : ∃ kept, score.setLayers layers = { score with layers := kept } := by
  rw [Score.setLayers]
  split
  · exact ⟨layers, rfl⟩
  · exact ⟨score.layers, rfl⟩

theorem openBranch_sameSetting (composer : Composer σ W) : SameSetting composer composer.openBranch := by
  simp only [openBranch]
  split
  · obtain ⟨layers, hlayers⟩ := setLayers_eq (composer.score.append (.layer composer.score.layers)) (composer.score.layers + 1)
    rw [hlayers]
    exact ⟨rfl, rfl, rfl, rfl, rfl, fun _ => rfl, rfl, rfl, rfl⟩
  · split
    · generalize hwritten : ((composer.score.append (.voice composer.score.voices)).append
        (.instrument composer.score.instrument)).append (.layer 0) = written
      obtain ⟨voices, hvoices⟩ := setVoices_eq written (composer.score.voices + 1)
      rw [hvoices]
      obtain ⟨layers, hlayers⟩ := setLayers_eq { written with voices := voices } 1
      rw [hlayers, ← hwritten]
      exact ⟨rfl, rfl, rfl, rfl, rfl, fun _ => rfl, rfl, rfl, rfl⟩
    · exact ⟨rfl, rfl, rfl, rfl, rfl, fun _ => rfl, rfl, rfl, rfl⟩

/-- Closing a scope needs one around it, and takes pose and degree from there. -/
theorem closeScope_ok (hclose : composer.closeScope = .ok after) :
    ∃ pose outer, composer.turtle.outer = pose :: outer ∧
      after = { composer with
        turtle := { composer.turtle with pose := pose, outer := outer }
        score := { composer.score with degree := composer.heightDegree pose.y } } := by
  obtain ⟨⟨left, turtle⟩, hturtle, rfl⟩ := Except.map_eq_ok_iff.1 hclose
  cases houter : composer.turtle.outer with
  | nil => cases (Turtle.closeScope_of_nil houter).symm.trans hturtle
  | cons pose outer =>
    cases (Turtle.closeScope_of_cons houter).symm.trans hturtle
    exact ⟨pose, outer, rfl, rfl⟩

theorem closeScope_sameSetting (hclose : composer.closeScope = .ok after) : SameSetting composer after := by
  obtain ⟨pose, outer, _, rfl⟩ := closeScope_ok hclose
  exact ⟨rfl, rfl, rfl, rfl, rfl, fun _ => rfl, rfl, rfl, rfl⟩

theorem closeBranch_sameSetting (hclose : composer.closeBranch = .ok after) : SameSetting composer after := by
  rw [closeBranch] at hclose
  split at hclose
  · cases hclose
    exact SameSetting.refl _
  · cases hclose
    exact ⟨rfl, rfl, rfl, rfl, rfl, fun _ => rfl, rfl, rfl, rfl⟩
  · next outer _ =>
    obtain ⟨closed, hclosed, rfl⟩ := Except.map_eq_ok_iff.1 hclose
    obtain ⟨layers, hlayers⟩ := setLayers_eq closed.score (closed.score.layers - 1)
    obtain ⟨hconfig, hrestart, hhandlers, hcorpus, hsampler, hhome, hkey, htempo, hinstrument⟩ := closeScope_sameSetting hclosed
    rw [hlayers]
    exact ⟨hconfig, hrestart, hhandlers, hcorpus, hsampler, hhome, hkey, htempo, hinstrument⟩
  · next outer _ =>
    obtain ⟨closed, hclosed, rfl⟩ := Except.map_eq_ok_iff.1 hclose
    obtain ⟨voices, hvoices⟩ := setVoices_eq closed.score (closed.score.voices - 1)
    obtain ⟨layers, hlayers⟩ := setLayers_eq { closed.score with voices := voices } Score.maxLayers
    obtain ⟨hconfig, hrestart, hhandlers, hcorpus, hsampler, hhome, hkey, htempo, hinstrument⟩ := closeScope_sameSetting hclosed
    rw [hvoices, hlayers]
    exact ⟨hconfig, hrestart, hhandlers, hcorpus, hsampler, hhome, hkey, htempo, hinstrument⟩

theorem shiftHue_sameSetting (composer : Composer σ W) (times : Int) (rest : List Char) :
    SameSetting composer (composer.shiftHue times rest) := by
  simp only [shiftHue]
  split <;> exact ⟨rfl, rfl, rfl, rfl, rfl, fun _ => rfl, rfl, rfl, rfl⟩

/-! ### Handlers -/

variable [Weight W] [Source σ W]

/-- No handler but a change of key changes what a pass works in. -/
theorem perform_sameSetting {handler : Handler} (hkey : ∀ key, handler ≠ .setKey key) {index : Nat} {rest : List Char}
    {reports : List Report} (hperform : composer.perform index rest handler = .ok (after, reports)) :
    SameSetting composer after := by
  cases handler with
  | draw | move =>
    obtain ⟨struck, hstruck, hresult⟩ := Except.map_eq_ok_iff.1 hperform
    cases hresult
    exact stroke_sameSetting hstruck
  | rest =>
    obtain ⟨paused, hpaused, hresult⟩ := Except.map_eq_ok_iff.1 hperform
    cases hresult
    exact pause_sameSetting hpaused
  | openBranch =>
    cases hperform
    exact openBranch_sameSetting composer
  | closeBranch =>
    obtain ⟨closed, hclosed, hresult⟩ := Except.map_eq_ok_iff.1 hperform
    cases hresult
    exact closeBranch_sameSetting hclosed
  | shiftHue times =>
    cases hperform
    exact shiftHue_sameSetting composer times rest
  | setKey key => exact absurd rfl (hkey key)
  | turn | write | writeIndex | thicken | setHeight =>
    cases hperform
    exact ⟨rfl, rfl, rfl, rfl, rfl, fun _ => rfl, rfl, rfl, rfl⟩

end TurtleMusic.Composer
