import TurtleMusic.Composer.Stroke
import TurtleMusic.Proofs.Outcome

/-!
# Settings that can be worked with

What the judgement of settings accepts, and what a composer relies on: a range that spans an octave, a whole number of steps to the measure, and lengths that are never nought.
-/

namespace TurtleMusic

structure Config.Valid (config : Config) : Prop where
  key : ∃ key, config.key.key = .ok key
  tempo : 0 < config.tempo
  low : 0 ≤ config.low
  high : config.high ≤ 127
  span : 11 ≤ config.high - config.low
  order : config.order = 1 ∨ config.order = 2
  noteUnits : 0 < config.noteUnits
  steps : 0 < config.stepsPerMeasure
  wholeSteps : Config.measureUnits % config.stepsPerMeasure = 0
  minPulses : 0 ≤ config.minPulses
  pulses : config.minPulses ≤ config.maxPulses
  maxPulses : config.maxPulses ≤ config.stepsPerMeasure
  chordEvery : 0 ≤ config.chordEvery
  harmonyVoices : 1 ≤ config.harmonyVoices ∧ config.harmonyVoices ≤ 3

namespace Config

/-- A check that refuses passes if what it refuses is not so and the checks after it pass. -/
theorem check_eq_ok_iff {refused : Prop} [Decidable refused] {fault : Fault} {rest : Except Fault Unit} :
    (if refused then .error fault else rest) = .ok () ↔ ¬refused ∧ rest = .ok () := by
  split <;> simp [*]

/-- However the settings are shown, the same ones are accepted. -/
theorem judge_eq_ok_iff (config : Config) (shown : String → Int → Whole) : config.judge shown = .ok () ↔ config.Valid := by
  rw [judge, Except.bind_eq_ok_iff]
  simp only [check_eq_ok_iff]
  constructor
  · rintro ⟨key, hkey, htempo, hbounds, hspan, horder, hnote, hsteps, hpulses, hchord, hvoices, _⟩
    exact ⟨⟨key, hkey⟩, by omega, by omega, by omega, by omega, by omega, by omega, by omega, by omega, by omega,
      by omega, by omega, by omega, by omega⟩
  · rintro ⟨⟨key, hkey⟩, htempo, hlow, hhigh, hspan, horder, hnote, hsteps, hwhole, hmin, hpulses, hmax, hchord, hvoices⟩
    exact ⟨key, hkey, by omega, by omega, by omega, by omega, by omega, by omega, by omega, by omega, by omega, trivial⟩

theorem validate_eq_ok_iff (config : Config) : config.validate = .ok () ↔ config.Valid := config.judge_eq_ok_iff _

theorem Valid.stepUnits_pos {config : Config} (hvalid : config.Valid) : 0 < Composer.stepUnits config :=
  Int.ediv_pos_of_pos_of_dvd (by decide) (Int.le_of_lt hvalid.steps) (Int.dvd_of_emod_eq_zero hvalid.wholeSteps)

end Config

end TurtleMusic
