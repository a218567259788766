import TurtleMusic.Composer.Seeding
import TurtleMusic.Proofs.Composer.Totality

/-!
# Passes without memory

A pass rests on nothing that another one left behind. Its start sets back whatever a pass changes, so a composer with a history starts as a new one in the same key would. What is left of the difference is the key named in the settings, the source to start from again and, where nothing is left to chance, the source itself; and at none of these does a pass look.
-/

namespace TurtleMusic.Composer

open TurtleMusic.Number TurtleMusic.Chance TurtleMusic.Grammar

variable {σ W : Type} [Weight W] {composer after : Composer σ W}

/-- The composer with another key in its settings and other sources. -/
def recast (key : KeyRef) (reseat : σ → σ) (restart : Option σ) (composer : Composer σ W) : Composer σ W :=
  { composer with
    config := { composer.config with key := key }
    source := reseat composer.source
    restart := restart }

variable {key : KeyRef} {reseat : σ → σ} {restart : Option σ}

/-! ### What a pass does not look at -/

omit [Weight W] in
theorem stepPitch_recast {up : Bool} (hstep : composer.stepPitch up = .ok after) :
    (composer.recast key reseat restart).stepPitch up = .ok (after.recast key reseat restart) := by
  obtain ⟨pitch, hpitch, rfl⟩ := stepPitch_ok hstep
  change (Pitch.wrap (Degree.step composer.turtle.pose.y composer.score.degree up).1 composer.config.low
    composer.config.high).map _ = _
  rw [hpitch]
  rfl

omit [Weight W] in
theorem Branched.recast {depth : Nat} (hbranched : Branched depth composer) :
    Branched depth (composer.recast key reseat restart) :=
  hbranched.of_same rfl rfl rfl rfl

omit [Weight W] in
theorem openBranch_recast {depth : Nat} (hbranched : Branched depth composer) :
    (composer.recast key reseat restart).openBranch = composer.openBranch.recast key reseat restart := by
  by_cases hbelow : depth < 255
  · rw [openBranch_eq hbranched hbelow, openBranch_eq hbranched.recast hbelow]
    rfl
  · rw [openBranch_flat hbranched (Nat.not_lt.1 hbelow), openBranch_flat hbranched.recast (Nat.not_lt.1 hbelow)]
    rfl

omit [Weight W] in
theorem closeBranch_recast {depth : Nat} (hbranched : Branched (depth + 1) composer)
    (hclose : composer.closeBranch = .ok after) :
    (composer.recast key reseat restart).closeBranch = .ok (after.recast key reseat restart) := by
  by_cases hbelow : depth < 255
  · obtain ⟨pose, outer, houter, heq⟩ := closeBranch_eq hbranched hbelow
    have hsame : Branched (depth + 1) (composer.recast key reseat restart) := hbranched.recast
    obtain ⟨_, _, hsameOuter, hrecast⟩ := closeBranch_eq hsame hbelow
    cases heq.symm.trans hclose
    obtain ⟨rfl, rfl⟩ := List.cons.inj (houter.symm.trans hsameOuter)
    exact hrecast
  · cases (closeBranch_flat hbranched (Nat.not_lt.1 hbelow)).symm.trans hclose
    exact closeBranch_flat hbranched.recast (Nat.not_lt.1 hbelow)

variable [Source σ W]

theorem takeLength_recast (hreseat : composer.config.markov = true → reseat = id) :
    (composer.recast key reseat restart).takeLength =
      (composer.takeLength.1, composer.takeLength.2.recast key reseat restart) := by
  rw [takeLength, takeLength]
  cases hmarkov : composer.config.markov with
  | false =>
    have hplain : (composer.recast key reseat restart).config.markov = false := hmarkov
    rw [hplain]
    rfl
  | true =>
    have hchance : (composer.recast key reseat restart).config.markov = true := hmarkov
    rw [hchance, hreseat hmarkov]
    cases hempty : composer.durations.isEmpty with
    | true =>
      have hsame : (composer.recast key id restart).durations.isEmpty = true := hempty
      rw [hsame]
      rfl
    | false =>
      have hsame : (composer.recast key id restart).durations.isEmpty = false := hempty
      rw [hsame]
      rfl

theorem followCorpus_recast (composer : Composer σ W) :
    (composer.recast key id restart).followCorpus = composer.followCorpus.map (recast key id restart) := by
  simp only [followCorpus, recast, id]
  cases hcorpus : composer.corpus with
  | none => simp only [Except.map, pure, Except.pure, recast, hcorpus, id]
  | some corpus =>
    dsimp only
    cases corpus.next composer.score.note composer.score.previousNote composer.source with
    | error fault => rfl
    | ok drawn =>
      obtain ⟨pitchClass, source⟩ := drawn
      simp only [bind, Except.bind]
      cases pitchClass with
      | none => rfl
      | some pitchClass =>
        dsimp only
        cases Pitch.nearest composer.turtle.pose.y pitchClass.toPitch (some composer.config.low) (some composer.config.high) <;> rfl

theorem chooseChord_recast (composer : Composer σ W) (progression : Progression) (length : Int) :
    (composer.recast key id restart).chooseChord progression length =
      (composer.chooseChord progression length).map fun chosen => (chosen.1, chosen.2.recast key id restart) := by
  simp only [chooseChord, recast, id]
  cases progression.next W composer.source with
  | error fault => rfl
  | ok drawn =>
    simp only [bind, Except.bind]
    cases drawn.1.current.triad composer.score.keyClass.toPitch composer.turtle.pose.y composer.config.low
      composer.config.high <;> rfl

theorem chooseSound_recast (hreseat : composer.config.markov = true → reseat = id) (length : Int) :
    (composer.recast key reseat restart).chooseSound length =
      (composer.chooseSound length).map fun chosen => (chosen.1, chosen.2.recast key reseat restart) := by
  rw [chooseSound, chooseSound]
  cases hmarkov : composer.config.markov with
  | false =>
    have hplain : (composer.recast key reseat restart).config.markov = false := hmarkov
    rw [hplain]
    rfl
  | true =>
    have hchance : (composer.recast key reseat restart).config.markov = true := hmarkov
    rw [hchance, hreseat hmarkov, if_pos rfl, if_pos rfl]
    cases hdue : composer.chordDue with
    | true =>
      have hsame : (composer.recast key id restart).chordDue = true := hdue
      rw [hsame, if_pos rfl, if_pos rfl]
      cases hprogression : composer.progression with
      | none =>
        have hnone : (composer.recast key id restart).progression = none := hprogression
        rw [hnone]
        rfl
      | some progression =>
        have hsome : (composer.recast key id restart).progression = some progression := hprogression
        rw [hsome]
        exact chooseChord_recast composer progression length
    | false =>
      have hsame : (composer.recast key id restart).chordDue = false := hdue
      rw [hsame, followCorpus_recast]
      cases composer.followCorpus <;> rfl

theorem chooseStroke_recast (hreseat : composer.config.markov = true → reseat = id) (sounding : Bool) :
    (composer.recast key reseat restart).chooseStroke sounding =
      (composer.chooseStroke sounding).map fun chosen => (chosen.1, chosen.2.recast key reseat restart) := by
  have htaken : composer.takeLength.2.config.markov = true → reseat = id := by
    rw [(takeLength_chosen composer).config]
    exact hreseat
  rw [chooseStroke, chooseStroke, takeLength_recast hreseat]
  cases sounding with
  | true => exact chooseSound_recast htaken composer.takeLength.1
  | false => rfl

theorem horizontalStroke_recast (hreseat : composer.config.markov = true → reseat = id) {sounding : Bool}
    (hstroke : composer.horizontalStroke sounding = .ok after) :
    (composer.recast key reseat restart).horizontalStroke sounding = .ok (after.recast key reseat restart) := by
  obtain ⟨stroke, chosen, score, hchoose, hwrite, rfl⟩ := horizontalStroke_ok hstroke
  have hwritten : (chosen.recast key reseat restart).score.write stroke = .ok score := hwrite
  rw [horizontalStroke, chooseStroke_recast hreseat, hchoose]
  simp only [Except.map, bind, Except.bind]
  rw [hwritten]
  rfl

variable {depth outcome : Nat} {behind : List Char}

theorem Stepped.recast {act : Act} (hstepped : Stepped composer behind act depth outcome after)
    (hbranched : Branched depth composer) (hreseat : composer.config.markov = true → reseat = id) :
    (composer.recast key reseat restart).carryOut behind act = .ok (after.recast key reseat restart) := by
  cases hstepped with
  | idle | turn => rfl
  | stroke _ hstroke => exact horizontalStroke_recast hreseat hstroke
  | stepPitch _ hstep => exact stepPitch_recast hstep
  | openBranch => exact congrArg Except.ok (openBranch_recast hbranched)
  | closeBranch _ hclose => exact closeBranch_recast hbranched hclose
  | shiftHue times =>
    rw [shiftHue_eq]
    exact congrArg Except.ok (shiftHue_eq _ _ _)

/-- A pass over some characters does not look at what is recast. -/
theorem walkOver_recast {text : List Char} {index : Nat} (hunder : Underway depth composer)
    (hclosing : Closing depth (text ++ behind)) (hreseat : composer.config.markov = true → reseat = id)
    (hwalk : walkOver behind composer index text = .ok after) :
    walkOver behind (composer.recast key reseat restart) index text = .ok (after.recast key reseat restart) := by
  induction text generalizing depth composer index with
  | nil =>
    cases hwalk
    rfl
  | cons symbol rest ih =>
    obtain ⟨⟨now, reports⟩, hstep, hrest⟩ := Except.bind_eq_ok_iff.1 hwalk
    have hstepped := stepped_of_carryOut hclosing (step_ok hunder.handlers hstep)
    have hhandlers : (composer.recast key reseat restart).handlers = defaultHandlers := hunder.handlers
    have hact : (composer.recast key reseat restart).act symbol = composer.act symbol := rfl
    have hnow : now.config.markov = true → reseat = id := by
      rw [hstepped.sameSetting.config]
      exact hreseat
    rw [walkOver, step_eq_carryOut hhandlers, hact, hstepped.recast hunder.branched hreseat]
    exact ih (hstepped.underway hunder) hclosing.tail hnow hrest

/-! ### Where passes start -/

omit [Source σ W] in
theorem map_reset_of_sampler {left right : Option Progression}
    (hsampler : left.map (·.maxLength) = right.map (·.maxLength)) : left.map Progression.reset = right.map Progression.reset := by
  have hreset : ∀ sampler : Option Progression,
      sampler.map Progression.reset = (sampler.map (·.maxLength)).map fun limit => { maxLength := limit } := by
    intro sampler
    rw [Option.map_map]
    rfl
  rw [hreset, hreset, hsampler]

omit [Source σ W] in
/-- Whatever was called on a composer, a pass starts as with one that is made in its key. -/
theorem begun_eq_recast {config : Config} {tonic : Key} {corpus : Option (CorpusModel W)} {source : σ}
    (hcomes : ComesFrom (initial config tonic corpus source restart) composer) (hhandlers : composer.handlers = defaultHandlers)
    {named : KeyRef} {active : PitchClass} {otherSource : σ} {otherRestart : Option σ}
    (hreseat : reseat (otherRestart.getD otherSource) = restart.getD composer.source) :
    composer.begun = (initial { config with key := named } composer.score.key
      (corpus.map fun model => .ofFiled model.order model.filed active) otherSource otherRestart).begun.recast config.key
        reseat restart := by
  have hconfig : composer.config = config := hcomes.config
  have hrestart : composer.restart = restart := hcomes.restart
  have hturtle : (composer.turtle.reset (some composer.config.angle)).setY
      (Pitch.clampInto composer.config.low composer.config.high composer.score.key.tonic) =
      (Turtle.make config.angle config.hueStep {}).setY (Pitch.clampInto config.low config.high composer.score.key.tonic) := by
    rw [hcomes.home, hconfig]
    rfl
  have hscore : composer.score.start =
      ({ key := composer.score.key, tempo := config.tempo, instrument := config.instrument } : Score).start := by
    have htempo : composer.score.tempo = config.tempo := hcomes.tempo
    have hinstrument : composer.score.instrument = config.instrument := hcomes.instrument
    rw [Score.start, Score.start, Score.reset, Score.reset, htempo, hinstrument]
  have hcorpus : (composer.corpus.map fun corpus => (corpus.moveTo composer.score.keyClass).2).map (·.1) =
      ((corpus.map fun model => CorpusModel.ofFiled model.order model.filed active).map fun corpus =>
        (corpus.moveTo composer.score.keyClass).2).map (·.1) := by
    have hmoved := hcomes.moved composer.score.keyClass
    rw [Option.map_map, Option.map_map, Option.map_map]
    refine hmoved.trans ?_
    congr 1
    funext model
    exact (CorpusModel.moveTo_ofFiled model.order model.filed active composer.score.keyClass).symm
  rw [begun, recast, begun, Composer.mk.injEq]
  refine ⟨hconfig, ?_, hrestart, hturtle, hscore, hcorpus, map_reset_of_sampler hcomes.sampler, hhandlers, rfl, rfl, rfl, rfl⟩
  rw [hrestart]
  exact hreseat.symm

/-! ### Histories -/

/-- A call that can come before a pass. -/
inductive Call where
  | compose (production : List Char)
  | composeGrammar (grammar : Grammar) (generations : Int)
  | setKey (key : KeyRef)

/-- The composer after a call, be it one that fails. -/
def call (composer : Composer σ W) : Call → Composer σ W
  | .compose production => (composer.compose production).state
  | .composeGrammar grammar generations => (composer.composeGrammar grammar generations).state
  | .setKey key =>
    match composer.setKey key with
    | .ok (after, _) => after
    | .error _ => composer

def calls (composer : Composer σ W) (history : List Call) : Composer σ W := history.foldl call composer

theorem calls_keeps {property : Composer σ W → Prop} (habides : Abides property) (hproperty : property composer)
    (history : List Call) : property (composer.calls history) := by
  induction history generalizing composer with
  | nil => exact hproperty
  | cons made rest ih =>
    apply ih
    cases made with
    | compose production => exact habides.compose hproperty production
    | composeGrammar grammar generations => exact habides.composeGrammar hproperty grammar generations
    | setKey key =>
      rw [call]
      split
      · next hkey => exact habides.setKey hkey hproperty
      · exact hproperty

omit [Source σ W] in
/-- Calls of these kinds leave the handlers alone besides. -/
theorem comesFrom_handlers_abides {origin : Composer σ W} (hfit : origin.Fit) :
    Abides fun composer : Composer σ W => ComesFrom origin composer ∧ composer.handlers = defaultHandlers where
  valid hkept := (hkept.1.fit hfit).valid
  same hsame hkept := ⟨hkept.1.follow hsame, hsame.handlers.trans hkept.2⟩
  begun hkept := ⟨hkept.1.begun, hkept.2⟩
  setKey := by
    intro before after key reports hkey hkept
    refine ⟨hkept.1.setKey hkey, ?_⟩
    obtain ⟨changed, _, hresult⟩ := Except.map_eq_ok_iff.1 hkey
    split at hresult
    all_goals
      cases hresult
      exact hkept.2

omit [Source σ W] in
/-- Melodies that are filed for one key are filed for every other. -/
theorem takeCorpus_rekeyed {given : Option CorpusSource} {active : PitchClass} {order : Int}
    {taken : Option (CorpusModel W) × List Report} (htaken : takeCorpus (given.map .source) active order = .ok taken)
    (other : PitchClass) :
    ∃ counted told, takeCorpus (given.map .source) other order =
      .ok (taken.1.map fun model => (.ofFiled model.order model.filed counted : CorpusModel W), told) := by
  cases given with
  | none =>
    cases htaken
    exact ⟨0, [], rfl⟩
  | some source =>
    obtain ⟨made, hmade, rfl⟩ := Except.map_eq_ok_iff.1 htaken
    have hclass : (KeyRef.number other.toPitch).pitchClass = .ok (PitchClass.ofPitch other.toPitch) := rfl
    obtain ⟨told, hother⟩ := CorpusModel.make_rekeyed hmade hclass
    refine ⟨PitchClass.ofPitch other.toPitch, told, ?_⟩
    rw [Option.map_some, takeCorpus, hother]
    rfl

omit [Source σ W] in
theorem validate_rekeyed {config : Config} (hvalid : config.Valid) {named : KeyRef} {tonic : Key}
    (hnamed : named.key = .ok tonic) : ({ config with key := named } : Config).Valid :=
  ⟨⟨tonic, hnamed⟩, hvalid.tempo, hvalid.low, hvalid.high, hvalid.span, hvalid.order, hvalid.noteUnits, hvalid.steps,
    hvalid.wholeSteps, hvalid.minPulses, hvalid.pulses, hvalid.maxPulses, hvalid.chordEvery, hvalid.harmonyVoices⟩

/-- A composer is made with some source; with that of the seed in every pass if none is given and there is a seed. -/
theorem makeSeeded_eq (config : Config) (given : Option (CorpusGiven Float)) (generator : Option Generator)
    (fallback : Generator) :
    ∃ source restart, makeSeeded config given generator fallback = make config given source restart ∧
      (generator = none → ∀ seed, config.seed = some seed → restart = some (Generator.ofSeed seed)) := by
  cases generator with
  | some generator => exact ⟨generator, none, rfl, fun hnone => absurd hnone (Option.some_ne_none generator)⟩
  | none =>
    cases hseed : config.seed with
    | none => exact ⟨fallback, none, by simp only [makeSeeded, hseed], fun _ seed hsome => absurd hsome.symm (Option.some_ne_none seed)⟩
    | some seed =>
      refine ⟨.ofSeed seed, some (.ofSeed seed), by simp only [makeSeeded, hseed], fun _ other hsome => ?_⟩
      rw [Option.some.inj hsome]

variable {config : Config} {given : Option CorpusSource} {generator otherGenerator : Option Generator}
  {fallback otherFallback : Generator} {reports : List Report}

/-- After any history of calls, a pass over a well-nested production gives the same score as with a composer that is newly made of the same melodies and settings in the key that the calls have led to; and the same turtle, rhythm, chords and branches. This takes that nothing is left to chance, or chance comes from a seed. -/
theorem pass_forgets_history {composer : Composer Generator Float}
    (hmade : makeSeeded config (given.map .source) generator fallback = .ok (composer, reports))
    (hseeded : config.markov = true → config.seed.isSome = true ∧ generator = none ∧ otherGenerator = none)
    (history : List Call) {named : KeyRef} (hnamed : named.key = .ok (composer.calls history).score.key)
    {production : List Char} (hnested : Nested production) :
    ∃ fresh told after later oldReports newReports,
      makeSeeded { config with key := named } (given.map .source) otherGenerator otherFallback = .ok (fresh, told) ∧
      (composer.calls history).compose production = ⟨after, ⟨oldReports, .ok ()⟩⟩ ∧
      fresh.compose production = ⟨later, ⟨newReports, .ok ()⟩⟩ ∧
      after.score = later.score ∧ after.turtle = later.turtle ∧ after.durations = later.durations ∧
      after.measures = later.measures ∧ after.chordDue = later.chordDue ∧ after.branches = later.branches ∧
      after.progression = later.progression ∧ after.corpus = later.corpus := by
  obtain ⟨source, restart, hmake, hrestart⟩ := makeSeeded_eq config (given.map .source) generator fallback
  obtain ⟨otherSource, otherRestart, hother, hotherRestart⟩ :=
    makeSeeded_eq { config with key := named } (given.map .source) otherGenerator otherFallback
  rw [hmake] at hmade
  have hcounted : ∀ model : CorpusModel Float, given.map CorpusGiven.source = some (.model model) → model.Counted := by
    intro model hmodel
    cases given <;> simp at hmodel
  have hfit := (make_fitWith hcounted hmade).1
  obtain ⟨hvalid, tonic, taken, _, htaken, rfl⟩ := make_ok hmade
  obtain ⟨hcomes, hhandlers⟩ := calls_keeps (comesFrom_handlers_abides hfit) ⟨ComesFrom.refl hfit, rfl⟩ history
  generalize hcurrent : (initial config tonic taken.1 source restart).calls history = current at *
  obtain ⟨counted, silence, hrekeyed⟩ := takeCorpus_rekeyed htaken current.score.key.tonicClass
  have hfresh := make_eq (W := Float) (validate_rekeyed hvalid hnamed) hnamed (given.map .source) otherSource otherRestart
  rw [hrekeyed] at hfresh
  have hfreshFit := (make_fitWith hcounted hfresh).1
  -- Left to chance, both passes start from the seed; otherwise the source does not matter.
  obtain ⟨reseat, hchance, hreseat⟩ : ∃ reseat : Generator → Generator, (config.markov = true → reseat = id) ∧
      reseat (otherRestart.getD otherSource) = restart.getD current.source := by
    cases hmarkov : config.markov with
    | false => exact ⟨fun _ => restart.getD current.source, fun htrue => absurd htrue Bool.false_ne_true, rfl⟩
    | true =>
      obtain ⟨hseed, hnone, hotherNone⟩ := hseeded hmarkov
      obtain ⟨seed, hseed⟩ := Option.isSome_iff_exists.1 hseed
      rw [hrestart hnone seed hseed, hotherRestart hotherNone seed hseed]
      exact ⟨id, fun _ => rfl, rfl⟩
  have hbegun : current.begun = (initial { config with key := named } current.score.key
      (taken.1.map fun model => CorpusModel.ofFiled model.order model.filed counted) otherSource otherRestart).begun.recast
        config.key reseat restart := begun_eq_recast hcomes hhandlers hreseat
  have hwhole : Nested (production ++ []) := by rwa [List.append_nil]
  obtain ⟨later, hlater, hlaterWalk, _⟩ := passTo_isOk hfreshFit rfl hwhole
  obtain ⟨after, hafter, hafterWalk, _⟩ := passTo_isOk (hcomes.fit hfit) hhandlers hwhole
  rw [hbegun] at hafterWalk
  cases hafterWalk.symm.trans (walkOver_recast (begun_underway hfreshFit rfl) hwhole hchance hlaterWalk)
  obtain ⟨oldReports, hold⟩ := compose_of_passTo ((checkBrackets_eq_ok_iff production).2 hnested) hafter
  obtain ⟨newReports, hnew⟩ := compose_of_passTo ((checkBrackets_eq_ok_iff production).2 hnested) hlater
  exact ⟨_, _, _, later, oldReports, newReports, hother.trans hfresh, hold, hnew, rfl, rfl, rfl, rfl, rfl, rfl, rfl, rfl⟩

/-- A call that asks for a key leads to it, whatever came before. -/
theorem call_setKey_key {named : KeyRef} {tonic : Key} (hnamed : named.key = .ok tonic) (composer : Composer σ W) :
    (composer.call (.setKey named)).score.key = tonic := by
  rw [call, setKey, Score.setKey, hnamed]
  simp only [Except.map]
  cases hchanged : tonic != composer.score.key with
  | true => rfl
  | false =>
    rw [bne_eq_false_iff_eq] at hchanged
    exact hchanged.symm

theorem pass_forgets_history_after_refusal :
    ∃ (composer fresh : Composer Generator Float) (reports told : List Report),
      makeSeeded { markov := true, seed := some 7 } (some (.source [(.number 7, [.notes [.integer 7, .integer 11]])])) none
        (.ofDraws []) = .ok (composer, reports) ∧
      makeSeeded { markov := true, seed := some 7, key := .number 2 }
        (some (.source [(.number 7, [.notes [.integer 7, .integer 11]])])) none (.ofDraws []) = .ok (fresh, told) ∧
      ((composer.calls [.compose "g[+g]f".toList, .compose "g[".toList, .setKey (.name "G")]).compose "gg".toList).state.score =
        (fresh.compose "gg".toList).state.score := by
  obtain ⟨composer, reports, hmade⟩ : ∃ (composer : Composer Generator Float) (reports : List Report),
      makeSeeded { markov := true, seed := some 7 } (some (.source [(.number 7, [.notes [.integer 7, .integer 11]])])) none
        (.ofDraws []) = .ok (composer, reports) := ⟨_, _, rfl⟩
  have hkey : (KeyRef.number 2).key = .ok ((composer.calls
      [.compose "g[+g]f".toList, .compose "g[".toList, .setKey (.name "G")]).score.key) := by
    have hname : (KeyRef.name "G").key = .ok 1 := rfl
    exact congrArg Except.ok (call_setKey_key hname _).symm
  obtain ⟨fresh, told, after, later, oldReports, newReports, hfresh, hold, hnew, hscore, _⟩ :=
    @pass_forgets_history _ (some [(.number 7, [.notes [.integer 7, .integer 11]])]) none none _ (.ofDraws []) _ composer
      hmade (fun _ => ⟨rfl, rfl, rfl⟩) _ _ hkey _ (show Nested "gg".toList by decide)
  refine ⟨composer, fresh, reports, told, hmade, hfresh, ?_⟩
  rw [hold, hnew]
  exact hscore

end TurtleMusic.Composer
