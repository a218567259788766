import TurtleMusic.Proofs.Composer.Measuring

/-!
# Where chords fall

A measure in which a chord is due begins its sound with it, after rests or not, and has no other; all other measures have none. The chords come from one sampler, which hands out the next one for each of them and is not asked in between.
-/

namespace TurtleMusic

def Stroke.isSound : Stroke → Bool
  | note _ _ _ | harmony _ _ => true
  | rest _ => false

def Stroke.isHarmony : Stroke → Bool
  | harmony _ _ => true
  | note _ _ _ | rest _ => false

/-- A chord is due in the measures whose number, counted from nought, is a multiple of the spacing. -/
def Config.ChordIn (config : Config) (measure : Nat) : Prop :=
  0 < config.chordEvery ∧ measure % config.chordEvery = 0

/-- Chords are where they belong among the sounds of a measure: first and nowhere else, or nowhere. -/
def Config.ChordedIn (config : Config) (measure : Nat) (sounds : List Stroke) : Prop :=
  (¬config.ChordIn measure → ∀ sound ∈ sounds, sound.isHarmony = false) ∧
    (config.ChordIn measure → ∀ first later, sounds = first :: later →
      first.isHarmony = true ∧ ∀ sound ∈ later, sound.isHarmony = false)

theorem Config.ChordedIn.append {config : Config} {measure : Nat} {sounds : List Stroke} {sound : Stroke}
    (hchorded : config.ChordedIn measure sounds)
    (hsound : sound.isHarmony = true ↔ config.ChordIn measure ∧ sounds = []) :
    config.ChordedIn measure (sounds ++ [sound]) := by
  obtain ⟨hwithout, hwith⟩ := hchorded
  constructor
  · intro hnone other hother
    rcases List.mem_append.1 hother with hold | hnew
    · exact hwithout hnone other hold
    · rw [List.mem_singleton.1 hnew, Bool.eq_false_iff]
      exact fun hharmony => hnone (hsound.1 hharmony).1
  · intro hin first later hsounds
    cases sounds with
    | nil =>
      obtain ⟨rfl, rfl⟩ := List.cons.inj hsounds
      exact ⟨hsound.2 ⟨hin, rfl⟩, fun _ hmem => absurd hmem List.not_mem_nil⟩
    | cons opening others =>
      obtain ⟨rfl, rfl⟩ := List.cons.inj hsounds
      obtain ⟨hfirst, hothers⟩ := hwith hin opening others rfl
      refine ⟨hfirst, fun other hother => ?_⟩
      rcases List.mem_append.1 hother with hold | hnew
      · exact hothers other hold
      · rw [List.mem_singleton.1 hnew, Bool.eq_false_iff]
        exact fun hharmony => List.cons_ne_nil _ _ (hsound.1 hharmony).2

namespace Composer

open TurtleMusic.Number TurtleMusic.Chance TurtleMusic.Grammar

variable {σ W : Type} [Weight W] {composer before after chosen : Composer σ W} {log : List (Moment σ W)}

/-- The sounds of a measure, in order. -/
def soundsIn (measure : Nat) (log : List (Moment σ W)) : List Stroke :=
  (log.filter fun moment => moment.measure = measure ∧ moment.stroke.isSound).map (·.stroke)

/-- The moments at which a chord is written. -/
def chordsOf (log : List (Moment σ W)) : List (Moment σ W) := log.filter (·.stroke.isHarmony)

omit [Weight W] in
theorem soundsIn_concat_sound {moment : Moment σ W} (hsound : moment.stroke.isSound = true) (log : List (Moment σ W)) :
    soundsIn moment.measure (log ++ [moment]) = soundsIn moment.measure log ++ [moment.stroke] := by
  simp [soundsIn, hsound]

omit [Weight W] in
theorem soundsIn_concat_of_not {moment : Moment σ W} {measure : Nat}
    (hnot : ¬(moment.measure = measure ∧ moment.stroke.isSound = true)) (log : List (Moment σ W)) :
    soundsIn measure (log ++ [moment]) = soundsIn measure log := by
  have hfilter : [moment].filter (fun moment => moment.measure = measure ∧ moment.stroke.isSound) = [] := by
    simpa using hnot
  rw [soundsIn, List.filter_append, hfilter, List.append_nil, soundsIn]

omit [Weight W] in
/-- A measure that no moment has come to is silent. -/
theorem soundsIn_eq_nil {measure : Nat} (hearlier : ∀ moment ∈ log, moment.measure < measure) : soundsIn measure log = [] := by
  rw [soundsIn, List.map_eq_nil_iff, List.filter_eq_nil_iff]
  intro moment hmoment hin
  have hmeasure := (of_decide_eq_true hin).1
  have hbefore := hearlier moment hmoment
  omega

variable [Source σ W]

/-! ### The chord that is due -/

/-- Chords are where they belong so far, and one is due just if the running measure is to have one and is silent yet. -/
structure Chorded (log : List (Moment σ W)) (composer : Composer σ W) : Prop where
  markov : composer.config.markov = true
  sampler : composer.progression.isSome = decide (0 < composer.config.chordEvery)
  measured : Measured 0 composer
  earlier : ∀ moment ∈ log, moment.measure < composer.measures
  due : 0 < composer.measures → (composer.chordDue = true ↔
    composer.config.ChordIn (composer.measures - 1) ∧ soundsIn (composer.measures - 1) log = [])
  falls : ∀ measure, composer.config.ChordedIn measure (soundsIn measure log)

omit [Weight W] [Source σ W] in
theorem Measured.measures_pos (hmeasured : Measured 0 composer) (hvalid : composer.config.Valid)
    (hinMeasure : composer.InMeasure) (hleft : composer.durations ≠ []) : 0 < composer.measures := by
  obtain ⟨duration, rest, hdurations⟩ := List.exists_cons_of_ne_nil hleft
  have hduration := hinMeasure.durations duration (hdurations ▸ List.mem_cons_self)
  have hsum : 0 < composer.durations.sum := by
    rw [hdurations, List.sum_cons]
    omega
  have hpending : 0 < stepUnits composer.config * composer.durations.sum :=
    Int.mul_pos hvalid.stepUnits_pos (Int.natCast_pos.2 hsum)
  have hclock := hmeasured.clock
  have hrunning := hmeasured.barred.running_nonneg
  rw [Config.measureUnits] at hclock hrunning
  omega

/-- Taking a length leaves a running measure in which a chord is due just if it is to have one and is silent yet. -/
theorem takeLength_due {depth : Nat} (hunder : Underway depth composer) (hchorded : Chorded log composer) :
    0 < composer.takeLength.2.measures ∧ (∀ moment ∈ log, moment.measure < composer.takeLength.2.measures) ∧
      (composer.takeLength.2.chordDue = true ↔ composer.config.ChordIn (composer.takeLength.2.measures - 1) ∧
        soundsIn (composer.takeLength.2.measures - 1) log = []) := by
  rw [takeLength, if_pos hchorded.markov]
  dsimp only
  split
  · have hsilent := soundsIn_eq_nil hchorded.earlier
    refine ⟨Nat.succ_pos _, fun moment hmoment => Nat.lt_succ_of_lt (hchorded.earlier moment hmoment), ?_⟩
    simp only [startMeasure, hchorded.sampler, Nat.add_sub_cancel, hsilent, Config.ChordIn, Bool.and_eq_true,
      decide_eq_true_eq, and_true]
  · next hleft =>
    have hpos := hchorded.measured.measures_pos hunder.fit.valid hunder.measure fun hnil => hleft (List.isEmpty_iff.2 hnil)
    exact ⟨hpos, hchorded.earlier, hchorded.due hpos⟩

/-- A sound is a chord just if one is due, and then no other is; a rest leaves it due. -/
theorem chooseStroke_due {sounding : Bool} {stroke : Stroke} (hmarkov : composer.config.markov = true)
    (hchoose : composer.chooseStroke sounding = .ok (stroke, chosen)) :
    (stroke.isSound = true → (stroke.isHarmony = true ↔ composer.takeLength.2.chordDue = true)) ∧
      chosen.chordDue = (composer.takeLength.2.chordDue && !stroke.isSound) ∧
      chosen.measures = composer.takeLength.2.measures := by
  obtain ⟨_, hsound⟩ | ⟨_, rfl, rfl⟩ := chooseStroke_ok hchoose
  · obtain ⟨_, hdue, _, hchord⟩ | ⟨_, hdue, hfollow, rfl⟩ | ⟨hplain, _⟩ := chooseSound_ok hsound
    · obtain ⟨_, _, _, _, _, rfl, rfl⟩ := chooseChord_ok hchord
      simp [hdue, Stroke.isSound, Stroke.isHarmony]
    · obtain ⟨_, _, rfl⟩ | ⟨_, _, _, _, _, _, _, rfl⟩ := followCorpus_ok hfollow
      · simp [hdue, Stroke.isSound, Stroke.isHarmony]
      · simp [hdue, Stroke.isSound, Stroke.isHarmony]
    · rw [(takeLength_chosen composer).config] at hplain
      exact absurd (hmarkov.symm.trans hplain) (by decide)
  · simp [Stroke.isSound]

omit [Weight W] [Source σ W] in
/-- Once a measure has begun, the bar lines in the score number it. -/
theorem Measured.bars_eq (hmeasured : Measured 0 composer) : composer.score.bars = composer.measures - 1 := by
  rw [Score.bars, Score.tokens, List.count_reverse]
  exact hmeasured.barred.count_eq

theorem chorded_lasts : Lasts (σ := σ) (W := W) Chorded where
  quiet := by
    intro depth log before after _ hsame hquiet hchorded
    obtain ⟨hmarkov, hsampler, hmeasured, hearlier, hdue, hfalls⟩ := hchorded
    refine ⟨?_, ?_, hquiet.measured hsame.config hmeasured, ?_, ?_, ?_⟩
    · rw [hsame.config]
      exact hmarkov
    · rw [hquiet.progression, hsame.config]
      exact hsampler
    · rw [hquiet.measures]
      exact hearlier
    · rw [hquiet.measures, hquiet.chordDue, hsame.config]
      exact hdue
    · rw [hsame.config]
      exact hfalls
  stroke := by
    intro depth log before chosen after sounding stroke score hunder hstroke hchoose hwrite hafter hchorded
    obtain ⟨hpos, hearlier, hdueTaken⟩ := takeLength_due hunder hchorded
    obtain ⟨hmarkov, hsampler, hmeasured, _, _, hfalls⟩ := hchorded
    obtain ⟨hkind, hdueChosen, hmeasuresChosen⟩ := chooseStroke_due hmarkov hchoose
    have hsame := horizontalStroke_sameSetting hstroke
    have hpaid := horizontalStroke_measured hunder.fit.valid hmarkov hunder.scored hmeasured hstroke
    obtain ⟨beat, hadvance⟩ := advance_eq { chosen with score := score } stroke.length
    have hmeasures : after.measures = before.takeLength.2.measures := by
      rw [hafter, hadvance]
      exact hmeasuresChosen
    have hdue : after.chordDue = (before.takeLength.2.chordDue && !stroke.isSound) := by
      rw [hafter, hadvance]
      exact hdueChosen
    rw [← hmeasures] at hpos hearlier hdueTaken
    have hnumber : (⟨before, stroke, after⟩ : Moment σ W).measure = after.measures - 1 := hpaid.bars_eq
    constructor
    · rw [hsame.config]
      exact hmarkov
    · have hsome := congrArg Option.isSome hsame.sampler
      rw [Option.isSome_map, Option.isSome_map] at hsome
      rw [hsome, hsame.config]
      exact hsampler
    · exact hpaid
    · intro moment hmoment
      rcases List.mem_append.1 hmoment with hold | hnew
      · exact hearlier moment hold
      · rw [List.mem_singleton.1 hnew, hnumber]
        omega
    · intro _
      rw [hdue, ← hnumber, hsame.config]
      rw [← hnumber] at hdueTaken
      cases hsound : stroke.isSound with
      | true =>
        rw [soundsIn_concat_sound hsound]
        simp
      | false =>
        rw [soundsIn_concat_of_not (by simp [hsound]), Bool.not_false, Bool.and_true]
        exact hdueTaken
    · intro measure
      rw [hsame.config]
      by_cases hin : (⟨before, stroke, after⟩ : Moment σ W).measure = measure ∧ stroke.isSound = true
      · obtain ⟨rfl, hsound⟩ := hin
        rw [soundsIn_concat_sound hsound]
        rw [← hnumber] at hdueTaken
        exact (hfalls _).append ((hkind hsound).trans hdueTaken)
      · rw [soundsIn_concat_of_not hin]
        exact hfalls measure

/-! ### The chords -/

/-- The stroke is the chord that one sampler hands out and that leaves the other: so many tones of its triad in the key and near the height of the turtle. -/
def Moment.HandsOut (moment : Moment σ W) (sampler later : Progression) : Prop :=
  sampler.next W moment.before.takeLength.2.source = .ok (later, moment.after.source) ∧
    ∃ tones length, later.current.triad moment.before.score.keyClass.toPitch moment.before.turtle.pose.y
        moment.before.config.low moment.before.config.high = .ok tones ∧
      moment.stroke = .harmony (tones.take moment.before.config.harmonyVoices.toNat) length

/-- The chords of a row of moments are handed out one after the other, from a first sampler to a last. -/
inductive HandedOut : Progression → List (Moment σ W) → Progression → Prop
  | none (sampler : Progression) : HandedOut sampler [] sampler
  | next {first sampler later : Progression} {chords : List (Moment σ W)} {moment : Moment σ W}
      (hearlier : HandedOut first chords sampler) (hchord : moment.HandsOut sampler later) :
      HandedOut first (chords ++ [moment]) later

theorem takeLength_progression (composer : Composer σ W) : composer.takeLength.2.progression = composer.progression := by
  rw [takeLength]
  split
  · split <;> rfl
  · rfl

/-- Only a chord moves the sampler on, and it is the chord that the sampler hands out. -/
theorem chooseStroke_sampler {sounding : Bool} {stroke : Stroke} {sampler : Progression}
    (hsampler : composer.progression = some sampler) (hchoose : composer.chooseStroke sounding = .ok (stroke, chosen)) :
    (stroke.isHarmony = false ∧ chosen.progression = some sampler) ∨
      ∃ later tones length, chosen.progression = some later ∧
        sampler.next W composer.takeLength.2.source = .ok (later, chosen.source) ∧
        later.current.triad composer.score.keyClass.toPitch composer.turtle.pose.y composer.config.low
          composer.config.high = .ok tones ∧
        stroke = .harmony (tones.take composer.config.harmonyVoices.toNat) length := by
  have htaken := takeLength_chosen composer
  have hheight := (takeLength_height composer).1
  have hkey := htaken.sameSetting.keyClass
  rw [← takeLength_progression] at hsampler
  obtain ⟨_, hsound⟩ | ⟨_, rfl, rfl⟩ := chooseStroke_ok hchoose
  · obtain ⟨running, _, hrunning, hchord⟩ | ⟨_, _, hfollow, rfl⟩ | ⟨_, rfl, rfl⟩ := chooseSound_ok hsound
    · obtain ⟨later, source, tones, hnext, htones, rfl, rfl⟩ := chooseChord_ok hchord
      cases hsampler.symm.trans hrunning
      rw [hkey, hheight, htaken.config] at htones
      rw [htaken.config]
      exact .inr ⟨later, tones, _, rfl, hnext, htones, rfl⟩
    · obtain ⟨_, _, rfl⟩ | ⟨_, _, _, _, _, _, _, rfl⟩ := followCorpus_ok hfollow
      · exact .inl ⟨rfl, hsampler⟩
      · exact .inl ⟨rfl, hsampler⟩
    · exact .inl ⟨rfl, hsampler⟩
  · exact .inl ⟨rfl, hsampler⟩

theorem handedOut_lasts (first : Progression) :
    Lasts (σ := σ) (W := W) fun log composer => ∃ last, composer.progression = some last ∧ HandedOut first (chordsOf log) last where
  quiet := by
    intro depth log before after _ _ hquiet hhanded
    rw [hquiet.progression]
    exact hhanded
  stroke := by
    intro depth log before chosen after sounding stroke score hunder hstroke hchoose hwrite hafter hhanded
    obtain ⟨last, hlast, hhanded⟩ := hhanded
    obtain ⟨beat, hadvance⟩ := advance_eq { chosen with score := score } stroke.length
    have hprogression : after.progression = chosen.progression := by rw [hafter, hadvance]
    have hsource : after.source = chosen.source := by rw [hafter, hadvance]
    rw [hprogression, chordsOf, List.filter_append]
    rcases chooseStroke_sampler hlast hchoose with ⟨hplain, hsampler⟩ | ⟨later, tones, length, hsampler, hnext, htones, rfl⟩
    · refine ⟨last, hsampler, ?_⟩
      rw [List.filter_singleton, hplain, cond_false, List.append_nil]
      exact hhanded
    · refine ⟨later, hsampler, hhanded.next ⟨?_, tones, length, htones, rfl⟩⟩
      rw [hsource]
      exact hnext

omit [Source σ W] in
theorem begun_chorded (hmarkov : composer.config.markov = true)
    (hsampler : composer.progression.isSome = decide (0 < composer.config.chordEvery)) : Chorded [] composer.begun where
  markov := hmarkov
  sampler := by
    rw [begun, Option.isSome_map]
    exact hsampler
  measured := begun_measured composer
  earlier _ hmoment := absurd hmoment List.not_mem_nil
  due hpos := absurd hpos (Nat.lt_irrefl 0)
  falls _ := ⟨fun _ _ hmem => absurd hmem List.not_mem_nil, fun _ _ _ hsounds => absurd hsounds (List.cons_ne_nil _ _).symm⟩

variable [LawfulWeight W]

/-- In a pass that is left to chance, a chord is the first sound of every measure that is to have one and sounds, no other sound is one, and the chords are handed out by the sampler one after the other. -/
theorem chords_fall_where_due {config : Config} (hreached : Reached config composer)
    (hhandlers : composer.handlers = defaultHandlers) (hmarkov : config.markov = true) {production : List Char}
    (hnested : Nested production) :
    ∃ after reports, composer.compose production = ⟨after, ⟨reports, .ok ()⟩⟩ ∧
      (∀ measure : Nat, config.chordEvery = 0 ∨ measure % config.chordEvery ≠ 0 →
        ∀ sound ∈ soundsIn measure (composer.momentsOf production), sound.isHarmony = false) ∧
      (∀ measure : Nat, config.chordEvery ≠ 0 → measure % config.chordEvery = 0 →
        ∀ first later, soundsIn measure (composer.momentsOf production) = first :: later →
          first.isHarmony = true ∧ ∀ sound ∈ later, sound.isHarmony = false) ∧
      ∀ sampler, composer.progression = some sampler → ∃ last, after.progression = some last ∧
        HandedOut sampler.reset (chordsOf (composer.momentsOf production)) last := by
  obtain ⟨hfit, rfl⟩ := hreached.fitWith
  have hsampler : composer.progression.isSome = decide (0 < composer.config.chordEvery) := by
    rw [hreached.sampler, hmarkov, Bool.true_and]
  have hspacing := hfit.valid.chordEvery
  obtain ⟨after, reports, hcompose, hchorded⟩ := momentsOf_keeps chorded_lasts hfit hhandlers
    (begun_chorded hmarkov hsampler) hnested
  have hfalls := hchorded.falls
  rw [hreached.config_of_compose hcompose] at hfalls
  refine ⟨after, reports, hcompose, fun measure hnone => ?_, fun measure hspaced hin => ?_, fun sampler hfirst => ?_⟩
  · apply (hfalls measure).1
    rintro ⟨hpos, hin⟩
    rcases hnone with hzero | hnone
    · omega
    · exact hnone hin
  · exact (hfalls measure).2 ⟨by omega, hin⟩
  · have hbegun : composer.begun.progression = some sampler.reset := by rw [begun, hfirst]; rfl
    obtain ⟨same, told, hagain, hhanded⟩ := momentsOf_keeps (handedOut_lasts sampler.reset) hfit hhandlers
      ⟨_, hbegun, HandedOut.none _⟩ hnested
    cases hcompose.symm.trans hagain
    exact hhanded

theorem chords_fall_where_due_after_rests :
    ∃ (composer : Composer (Script Float) Float) (sampler : Progression), Reached { markov := true } composer ∧
      composer.progression = some sampler ∧
      (∀ sound ∈ soundsIn 1 (composer.momentsOf "ffg[+g]gggggg".toList), sound.isHarmony = false) ∧
      (∀ first later, soundsIn 0 (composer.momentsOf "ffg[+g]gggggg".toList) = first :: later →
        first.isHarmony = true ∧ ∀ sound ∈ later, sound.isHarmony = false) ∧
      ∃ last, HandedOut sampler.reset (chordsOf (composer.momentsOf "ffg[+g]gggggg".toList)) last := by
  obtain ⟨composer, hreached, hhandlers, _⟩ := exists_reached_markov
  have hnested : Nested "ffg[+g]gggggg".toList := by decide
  obtain ⟨_, _, _, hnone, hfirst, hhanded⟩ := chords_fall_where_due hreached hhandlers rfl hnested
  obtain ⟨sampler, hsampler⟩ := Option.isSome_iff_exists.1 hreached.sampler
  obtain ⟨last, _, hchords⟩ := hhanded sampler hsampler
  exact ⟨composer, sampler, hreached, hsampler, hnone 1 (.inr (by decide)), hfirst 0 (by decide) (by decide), last, hchords⟩

end Composer

end TurtleMusic
