import TurtleMusic.Proofs.Composer.Moments
import TurtleMusic.Proofs.Rhythm.Groups

/-!
# Measures are full

Left to chance, every measure has the same length. What is written of the running measure and what is left of its rhythm make it up together, and a bar line is written only when nothing is left. The lengths of a rhythm make up the measure because its groups fill the grid.
-/

namespace TurtleMusic.Composer

open TurtleMusic.Number TurtleMusic.Chance TurtleMusic.Grammar

variable {σ W : Type} [Weight W] {composer after : Composer σ W} {owed : Int}

/-- Clock and bar lines stand where the begun measures put them, but for a length that is taken and not yet written. -/
structure Measured (owed : Int) (composer : Composer σ W) : Prop where
  clock : composer.score.position + owed + stepUnits composer.config * composer.durations.sum =
    Config.measureUnits * composer.measures
  barred : Barred Config.measureUnits (composer.measures - 1)
    (composer.score.position - Config.measureUnits * (composer.measures - 1 : Nat)) composer.score.written

omit [Weight W] in
theorem Quiet.measured (hquiet : Quiet composer after) (hconfig : after.config = composer.config)
    (hmeasured : Measured owed composer) : Measured owed after := by
  obtain ⟨marks, hwritten, hmarks⟩ := hquiet.written
  constructor
  · rw [hquiet.position, hconfig, hquiet.durations, hquiet.measures]
    exact hmeasured.clock
  · rw [hquiet.position, hquiet.measures, hwritten]
    exact hmeasured.barred.of_marks hmarks

omit [Weight W] in
/-- The running measure is never overfull. -/
theorem Measured.running_le (hmeasured : Measured 0 composer) (hvalid : composer.config.Valid) :
    composer.score.position - Config.measureUnits * (composer.measures - 1 : Nat) ≤ Config.measureUnits := by
  have hleft : 0 ≤ stepUnits composer.config * composer.durations.sum :=
    Int.mul_nonneg (Int.le_of_lt hvalid.stepUnits_pos) (Int.natCast_nonneg _)
  have hclock := hmeasured.clock
  rw [Config.measureUnits] at hclock ⊢
  omega

/-! ### Taking a length -/

variable [Source σ W]

omit [Weight W] [Source σ W] in
theorem stepUnits_mul_steps {config : Config} (hvalid : config.Valid) :
    stepUnits config * config.stepsPerMeasure = Config.measureUnits :=
  Int.ediv_mul_cancel (Int.dvd_of_emod_eq_zero hvalid.wholeSteps)

/-- A rhythm is without pulses or fills the grid. -/
theorem drawRhythm_durations (config : Config) (source : σ) :
    (drawRhythm W config source).1.durations = [] ∨
      (drawRhythm W config source).1.durations.sum = config.stepsPerMeasure.toNat := by
  rw [drawRhythm]
  dsimp only
  split
  · next hpulses => exact .inr (EuclideanRhythm.sum_durations_make hpulses _)
  · next hnone => exact .inl (if_pos (Nat.eq_zero_of_not_pos hnone))

theorem startMeasure_sum (composer : Composer σ W) :
    composer.startMeasure.durations.sum = composer.config.stepsPerMeasure.toNat := by
  simp only [startMeasure]
  split
  · exact List.sum_singleton
  · next hne =>
    rcases drawRhythm_durations (W := W) composer.config composer.source with hnone | hsum
    · exact absurd (List.isEmpty_iff.2 hnone) hne
    · exact hsum

theorem startMeasure_measured (hvalid : composer.config.Valid) (hempty : composer.durations = [])
    (hmeasured : Measured 0 composer) : Measured 0 composer.startMeasure := by
  obtain ⟨hclock, hbarred⟩ := hmeasured
  have hwhole : Config.measureUnits = 128 := rfl
  have hunits := stepUnits_mul_steps hvalid
  have hsteps := hvalid.steps
  have hsum : (composer.startMeasure.durations.sum : Int) = composer.config.stepsPerMeasure := by
    rw [startMeasure_sum]
    omega
  rw [hempty, List.sum_nil] at hclock
  constructor
  · have hposition : composer.startMeasure.score.position = composer.score.position := by
      rw [(startMeasure_chosen composer).score]
    have hmeasures : composer.startMeasure.measures = composer.measures + 1 := rfl
    rw [hwhole] at hclock hunits
    rw [hsum, hposition, hmeasures, (startMeasure_chosen composer).config, hunits, hwhole]
    omega
  · simp only [startMeasure]
    split
    · next hlater =>
      obtain ⟨before, hbefore⟩ := Nat.exists_eq_add_one_of_ne_zero (Nat.ne_of_gt hlater)
      rw [hbefore, hwhole] at hclock hbarred
      have hfull : composer.score.position - 128 * (before + 1 - 1 : Nat) = 128 := by omega
      have hnone : composer.score.position - 128 * (before + 1 + 1 - 1 : Nat) = 0 := by omega
      rw [hfull] at hbarred
      rw [Score.append, hbefore, hwhole, hnone]
      exact hbarred.bar
    · next hfirst =>
      rw [show composer.measures = 0 by omega] at hbarred ⊢
      exact hbarred

theorem takeLength_measured (hvalid : composer.config.Valid) (hmarkov : composer.config.markov = true)
    (hmeasured : Measured 0 composer) : Measured composer.takeLength.1 composer.takeLength.2 := by
  have htake : ∀ running : Composer σ W, Measured 0 running →
      Measured (running.durations.headD 0 * stepUnits running.config) { running with durations := running.durations.tail } := by
    intro running hrunning
    refine ⟨?_, hrunning.barred⟩
    have hclock := hrunning.clock
    rw [← hclock]
    cases running.durations with
    | nil => simp
    | cons duration rest =>
      simp only [List.headD_cons, List.tail_cons, List.sum_cons, Int.natCast_add, Int.add_mul, Int.mul_comm (stepUnits _)]
      omega
  rw [takeLength, if_pos hmarkov]
  dsimp only
  split
  · next hempty => exact htake _ (startMeasure_measured hvalid (List.isEmpty_iff.1 hempty) hmeasured)
  · exact htake _ hmeasured

/-! ### Strokes -/

theorem chooseSound_measured {length : Int} {stroke : Stroke} (hmeasured : Measured owed composer)
    (hchoose : composer.chooseSound length = .ok (stroke, after)) : Measured owed after := by
  obtain ⟨_, _, _, hchord⟩ | ⟨_, _, hfollow, _⟩ | ⟨_, rfl, _⟩ := chooseSound_ok hchoose
  · obtain ⟨_, _, _, _, _, _, rfl⟩ := chooseChord_ok hchord
    exact ⟨hmeasured.clock, hmeasured.barred⟩
  · obtain ⟨_, _, rfl⟩ | ⟨_, _, _, _, _, _, _, rfl⟩ := followCorpus_ok hfollow
    · exact ⟨hmeasured.clock, hmeasured.barred⟩
    · exact ⟨hmeasured.clock, hmeasured.barred⟩
  · exact hmeasured

theorem chooseStroke_measured {sounding : Bool} {stroke : Stroke} (hvalid : composer.config.Valid)
    (hmarkov : composer.config.markov = true) (hmeasured : Measured 0 composer)
    (hchoose : composer.chooseStroke sounding = .ok (stroke, after)) : Measured stroke.length after := by
  rw [chooseStroke_length hchoose]
  have htaken := takeLength_measured hvalid hmarkov hmeasured
  obtain ⟨_, hsound⟩ | ⟨_, _, rfl⟩ := chooseStroke_ok hchoose
  · exact chooseSound_measured htaken hsound
  · exact htaken

/-- Writing a stroke and passing it pays what was taken. -/
theorem horizontalStroke_measured {sounding : Bool} (hvalid : composer.config.Valid) (hmarkov : composer.config.markov = true)
    (hscored : composer.Scored) (hmeasured : Measured 0 composer)
    (hstroke : composer.horizontalStroke sounding = .ok after) : Measured 0 after := by
  obtain ⟨stroke, chosen, score, hchosen, hwrite, rfl⟩ := horizontalStroke_ok hstroke
  obtain ⟨hclock, hbarred⟩ := chooseStroke_measured hvalid hmarkov hmeasured hchosen
  have hwrites := Score.write_writes ((chooseStroke_chosen hchosen).scored hscored).composed hwrite
  have hposition := (Score.write_sameContext hwrite).position
  obtain ⟨beat, hadvance⟩ := advance_eq { chosen with score } stroke.length
  rw [hadvance]
  constructor
  · dsimp only
    rw [hposition]
    omega
  · have hlater := hbarred.of_writes hwrites
    dsimp only
    rw [hposition, Int.sub_eq_add_neg, Int.add_right_comm, ← Int.sub_eq_add_neg]
    exact hlater

/-! ### Whole passes -/

theorem Stepped.measured {depth outcome : Nat} {behind : List Char} {act : Act}
    (hstepped : Stepped composer behind act depth outcome after) (hunder : Underway depth composer)
    (hmarkov : composer.config.markov = true) (hmeasured : Measured 0 composer) : Measured 0 after := by
  rcases hstepped.stroke_or_quiet hunder with ⟨sounding, _, hstroke⟩ | ⟨_, hquiet⟩
  · exact horizontalStroke_measured hunder.fit.valid hmarkov hunder.scored hmeasured hstroke
  · exact hquiet.measured hstepped.sameSetting.config hmeasured

omit [Source σ W] in
theorem begun_measured (composer : Composer σ W) : Measured 0 composer.begun := by
  constructor
  · simp [begun, Score.start, Score.append, Score.reset]
  · apply Barred.first
    · simp [begun, Score.start, Score.append, Score.reset]
    · rfl

theorem walkOver_measured {text behind : List Char} {index depth : Nat} (hunder : Underway depth composer)
    (hclosing : Closing depth (text ++ behind)) (hmarkov : composer.config.markov = true) (hmeasured : Measured 0 composer)
    (hwalk : walkOver behind composer index text = .ok after) : Measured 0 after :=
  (walkOver_keeps (fun _ now => now.config.markov = true ∧ Measured 0 now)
    (fun hunder hstepped hkept => ⟨hstepped.sameSetting.config ▸ hkept.1, hstepped.measured hunder hkept.1 hkept.2⟩)
    hunder hclosing hwalk ⟨hmarkov, hmeasured⟩).2.2

variable [LawfulWeight W]

/-- At every place of a pass that is left to chance, the time gone by and the lengths left make up the measures begun; and in its score every measure but the last is full, the last is not overfull, and there is a bar line between each two. -/
theorem measures_are_full {config : Config} (hreached : Reached config composer)
    (hhandlers : composer.handlers = defaultHandlers) (hmarkov : config.markov = true) :
    (∀ before behind, Nested (before ++ behind) → ∃ now, composer.passTo before behind = .ok now ∧
      (∀ duration ∈ now.durations, 0 < duration) ∧
      now.score.position + 128 / config.stepsPerMeasure * now.durations.sum = 128 * now.measures) ∧
    ∀ production, Nested production → ∃ after reports, composer.compose production = ⟨after, ⟨reports, .ok ()⟩⟩ ∧
      (∀ piece ∈ after.score.pieces.dropLast, span piece = 128) ∧ (∀ piece ∈ after.score.pieces.getLast?, span piece ≤ 128) ∧
      after.score.bars = after.measures - 1 := by
  obtain ⟨hfit, hconfig⟩ := hreached.fitWith
  have hpass : ∀ before behind, Nested (before ++ behind) → ∃ now, composer.passTo before behind = .ok now ∧
      now.config = config ∧ now.InMeasure ∧ Measured 0 now := by
    intro before behind hnested
    obtain ⟨now, hnow, hwalk, hunder⟩ := passTo_isOk hfit hhandlers hnested
    have hbegun := begun_underway hfit hhandlers
    exact ⟨now, hnow, (walkOver_sameSetting hbegun hnested hwalk).config.trans hconfig, hunder.measure,
      walkOver_measured hbegun hnested (hconfig ▸ hmarkov) (begun_measured composer) hwalk⟩
  constructor
  · intro before behind hnested
    obtain ⟨now, hnow, rfl, hinMeasure, hmeasured⟩ := hpass before behind hnested
    have hclock := hmeasured.clock
    rw [Int.add_zero] at hclock
    exact ⟨now, hnow, hinMeasure.durations, hclock⟩
  · intro production hnested
    obtain ⟨after, hafter, hsettings, _, hmeasured⟩ := hpass production [] (by rwa [List.append_nil])
    obtain ⟨reports, hcompose⟩ := compose_of_passTo ((checkBrackets_eq_ok_iff production).2 hnested) hafter
    have hrunning := hmeasured.running_le (hsettings ▸ hconfig ▸ hfit.valid)
    obtain ⟨full, last, hpieces, hfull, hlast⟩ := hmeasured.barred.pieces_eq
    have hcut : after.score.pieces = full ++ [last] := hpieces
    rw [← hlast] at hrunning
    rw [Config.measureUnits] at hfull hrunning
    refine ⟨after, reports, hcompose, fun piece hpiece => ?_, fun piece hpiece => ?_, ?_⟩
    · rw [hcut, List.dropLast_concat] at hpiece
      have := hfull piece hpiece
      omega
    · rw [hcut, List.getLast?_concat] at hpiece
      cases hpiece
      omega
    · rw [Score.bars, Score.tokens, List.count_reverse]
      exact hmeasured.barred.count_eq

/-- Two measures are full and a third one is begun; a rest reaches over the first bar line and stands in a branch before the second. -/
theorem measures_are_full_with_rests :
    ∃ composer : Composer (Script Rat) Rat, Reached { markov := true } composer ∧
      (∃ now, composer.passTo "gg[+f]ff".toList "g[f]g".toList = .ok now ∧ now.durations = [5, 6] ∧ now.measures = 2 ∧
        now.score.position + 128 / 16 * 11 = 128 * 2) ∧
      ∃ after reports, composer.compose "gg[+f]ffg[f]g".toList = ⟨after, ⟨reports, .ok ()⟩⟩ ∧
        after.score.pieces.map span = [128, 128, 40] ∧
        (∀ piece ∈ after.score.pieces.dropLast, span piece = 128) ∧ after.score.bars = 2 := by
  have hmade : ∃ (composer : Composer (Script Rat) Rat) (reports : List Report),
      make { markov := true } (some (.source twoMelodies)) ⟨#[], 0⟩ none = .ok (composer, reports) ∧
        composer.handlers = defaultHandlers ∧
        (composer.passTo "gg[+f]ff".toList "g[f]g".toList).map (fun now => (now.durations, now.measures)) = .ok ([5, 6], 2) ∧
        (composer.compose "gg[+f]ffg[f]g".toList).state.score.pieces.map span = [128, 128, 40] ∧
        (composer.compose "gg[+f]ffg[f]g".toList).state.measures = 3 :=
    ⟨_, _, rfl, rfl, by decide +kernel, by decide +kernel, by decide +kernel⟩
  obtain ⟨composer, reports, hmade, hhandlers, hplace, hspans, hmeasures⟩ := hmade
  have hreached : Reached { markov := true } composer := .made (by simp) hmade
  obtain ⟨hplaces, hscores⟩ := measures_are_full hreached hhandlers rfl
  obtain ⟨now, hnow, _, hclock⟩ := hplaces "gg[+f]ff".toList "g[f]g".toList (by decide)
  rw [hnow] at hplace
  obtain ⟨hdurations, hbegun⟩ := Prod.mk.inj (Except.ok.inj hplace)
  rw [hdurations, hbegun] at hclock
  obtain ⟨after, told, hcompose, hpieces, _, hbars⟩ := hscores "gg[+f]ffg[f]g".toList (by decide)
  rw [hcompose] at hspans hmeasures
  rw [show after.measures = 3 from hmeasures] at hbars
  exact ⟨composer, hreached, ⟨now, hnow, hdurations, hbegun, hclock⟩, after, told, hcompose, hspans, hpieces, hbars⟩

end TurtleMusic.Composer
