import TurtleMusic.Chance.Script
import TurtleMusic.Proofs.Composer.Underway

/-!
# Composers that calls lead to

A composer that was made stays fit for a pass whatever is called on it: passes that fail midway, changes of key and handlers of the caller's included.
-/

namespace TurtleMusic.Composer

open TurtleMusic.Number TurtleMusic.Chance

variable {σ W : Type} [Weight W] {config : Config} {composer after : Composer σ W}

/-- The composers that calls lead to from one made with the settings. -/
inductive Reached [Source σ W] (config : Config) : Composer σ W → Prop
  | made {given : Option (CorpusGiven W)} {source : σ} {restart : Option σ} {composer : Composer σ W}
      {reports : List Report} (hcounted : ∀ model, given = some (.model model) → model.Counted)
      (hmade : make config given source restart = .ok (composer, reports)) : Reached config composer
  | registered {composer after : Composer σ W} {symbol : String} {handler : Handler} (hreached : Reached config composer)
      (hregister : composer.register symbol handler = .ok after) : Reached config after
  | keyed {composer after : Composer σ W} {key : KeyRef} {reports : List Report} (hreached : Reached config composer)
      (hkey : composer.setKey key = .ok (after, reports)) : Reached config after
  | composed {composer : Composer σ W} (hreached : Reached config composer) (production : List Char) :
      Reached config (composer.compose production).state
  | expanded {composer : Composer σ W} (hreached : Reached config composer) (grammar : Grammar) (generations : Int) :
      Reached config (composer.composeGrammar grammar generations).state

/-- Fit for a pass, with the settings it was made with. -/
def FitWith (config : Config) (composer : Composer σ W) : Prop := composer.Fit ∧ composer.config = config

/-! ### Making -/

/-- A new composer in a key, with its sampler of chords if chords are wanted. -/
def initial (config : Config) (key : Key) (corpus : Option (CorpusModel W)) (source : σ) (restart : Option σ) :
    Composer σ W where
  config := config
  source := source
  restart := restart
  turtle := Turtle.make config.angle config.hueStep {}
  score := { key := key, tempo := config.tempo, instrument := config.instrument }
  corpus := corpus
  progression :=
    if config.markov && config.chordEvery > 0 then some { maxLength := Progression.defaultMaxLength.toNat } else none
  handlers := defaultHandlers

/-- With valid settings only the corpus can be refused. -/
theorem make_eq (hvalid : config.Valid) {key : Key} (hkey : config.key.key = .ok key) (given : Option (CorpusGiven W))
    (source : σ) (restart : Option σ) :
    make config given source restart = (takeCorpus given key.tonicClass config.order).map fun taken =>
      (initial config key taken.1 source restart,
        taken.2 ++ if config.markov && taken.1.isNone then [.markovWithoutCorpus] else []) := by
  have hscore : Score.make config.key config.tempo config.instrument =
      .ok { key := key, tempo := config.tempo, instrument := config.instrument } := by
    rw [Score.make, hkey]
    exact if_neg (Int.not_le.2 hvalid.tempo)
  rw [make, (Config.validate_eq_ok_iff config).2 hvalid, hscore]
  change (takeCorpus given key.tonicClass config.order).bind _ = _
  cases takeCorpus given key.tonicClass config.order with
  | error fault => rfl
  | ok taken =>
    by_cases hchords : (config.markov && config.chordEvery > 0) = true
    · simp only [Except.bind, Except.map, initial, if_pos hchords]
      rfl
    · simp only [Except.bind, Except.map, initial, if_neg hchords]
      rfl

theorem make_ok {given : Option (CorpusGiven W)} {source : σ} {restart : Option σ} {reports : List Report}
    (hmade : make config given source restart = .ok (composer, reports)) :
    config.Valid ∧ ∃ key taken, config.key.key = .ok key ∧ takeCorpus given key.tonicClass config.order = .ok taken ∧
      composer = initial config key taken.1 source restart := by
  obtain ⟨_, hvalidated, _⟩ := Except.bind_eq_ok_iff.1 hmade
  have hvalid := (Config.validate_eq_ok_iff config).1 hvalidated
  obtain ⟨key, hkey⟩ := hvalid.key
  rw [make_eq hvalid hkey] at hmade
  obtain ⟨taken, htaken, hresult⟩ := Except.map_eq_ok_iff.1 hmade
  cases hresult
  exact ⟨hvalid, key, taken, hkey, htaken, rfl⟩

theorem takeCorpus_counted {given : Option (CorpusGiven W)} {key : PitchClass} {order : Int}
    {taken : Option (CorpusModel W) × List Report} (hcounted : ∀ model, given = some (.model model) → model.Counted)
    (htaken : takeCorpus given key order = .ok taken) : ∀ model, taken.1 = some model → model.Counted := by
  intro model hmodel
  cases given with
  | none =>
    cases htaken
    cases hmodel
  | some given =>
    cases given with
    | model own =>
      cases htaken
      cases hmodel
      exact hcounted model rfl
    | source source =>
      obtain ⟨made, hmade, rfl⟩ := Except.map_eq_ok_iff.1 htaken
      cases hmodel
      exact CorpusModel.make_counted hmade

theorem make_fitWith {given : Option (CorpusGiven W)} {source : σ} {restart : Option σ} {reports : List Report}
    (hcounted : ∀ model, given = some (.model model) → model.Counted)
    (hmade : make config given source restart = .ok (composer, reports)) : composer.FitWith config := by
  obtain ⟨hvalid, key, taken, _, htaken, rfl⟩ := make_ok hmade
  exact ⟨⟨hvalid, takeCorpus_counted hcounted htaken, hvalid.tempo, rfl⟩, rfl⟩

/-! ### Where a composer comes from -/

/-- What a composer has of the one it was before any call: all but handlers and key, and of the corpus its melodies. -/
structure ComesFrom (origin composer : Composer σ W) : Prop where
  config : composer.config = origin.config
  restart : composer.restart = origin.restart
  corpus : ∃ key, composer.corpus = origin.corpus.map fun model => .ofFiled model.order model.filed key
  sampler : composer.progression.map (·.maxLength) = origin.progression.map (·.maxLength)
  home : ∀ angle, composer.turtle.reset (some angle) = origin.turtle.reset (some angle)
  tempo : composer.score.tempo = origin.score.tempo
  instrument : composer.score.instrument = origin.score.instrument

variable {origin before : Composer σ W}

theorem ComesFrom.refl (hfit : origin.Fit) : ComesFrom origin origin := by
  refine ⟨rfl, rfl, ?_, rfl, fun _ => rfl, rfl, rfl⟩
  cases hcorpus : origin.corpus with
  | none => exact ⟨0, rfl⟩
  | some model => exact ⟨model.key, congrArg some (hfit.corpus model hcorpus)⟩

theorem ComesFrom.fit (hcomes : ComesFrom origin composer) (hfit : origin.Fit) : composer.Fit where
  valid := hcomes.config ▸ hfit.valid
  corpus := by
    intro model hmodel
    obtain ⟨key, hcorpus⟩ := hcomes.corpus
    obtain ⟨own, _, rfl⟩ := Option.map_eq_some_iff.1 (hcorpus ▸ hmodel)
    exact CorpusModel.ofFiled_counted _ _ _
  tempo := hcomes.tempo ▸ hfit.tempo
  instrument := by rw [hcomes.instrument, hcomes.config, hfit.instrument]

theorem ComesFrom.follow (hcomes : ComesFrom origin before) (hsame : SameSetting before after) : ComesFrom origin after where
  config := hsame.config.trans hcomes.config
  restart := hsame.restart.trans hcomes.restart
  corpus := hsame.corpus ▸ hcomes.corpus
  sampler := hsame.sampler.trans hcomes.sampler
  home angle := (hsame.home (some angle)).trans (hcomes.home angle)
  tempo := hsame.tempo.trans hcomes.tempo
  instrument := hsame.instrument.trans hcomes.instrument

/-- Moving a corpus to a key comes to counting its melodies in that key. -/
theorem ComesFrom.moved (hcomes : ComesFrom origin composer) (key : PitchClass) :
    (composer.corpus.map fun corpus => (corpus.moveTo key).2.1) =
      origin.corpus.map fun model => .ofFiled model.order model.filed key := by
  obtain ⟨own, hcorpus⟩ := hcomes.corpus
  rw [hcorpus, Option.map_map]
  congr 1
  funext model
  exact CorpusModel.moveTo_ofFiled model.order model.filed own key

theorem ComesFrom.begun (hcomes : ComesFrom origin composer) : ComesFrom origin composer.begun where
  config := hcomes.config
  restart := hcomes.restart
  corpus := by
    refine ⟨composer.score.keyClass, ?_⟩
    rw [← hcomes.moved composer.score.keyClass]
    exact Option.map_map _ _ _
  sampler := by
    rw [← hcomes.sampler]
    exact Option.map_map _ _ _
  home := hcomes.home
  tempo := hcomes.tempo
  instrument := hcomes.instrument

theorem ComesFrom.setKey {key : KeyRef} {reports : List Report} (hcomes : ComesFrom origin composer)
    (hkey : composer.setKey key = .ok (after, reports)) : ComesFrom origin after := by
  obtain ⟨⟨changed, score⟩, hchanged, hresult⟩ := Except.map_eq_ok_iff.1 hkey
  obtain ⟨found, _, hfound⟩ := Except.map_eq_ok_iff.1 hchanged
  cases hfound
  dsimp only at hresult
  split at hresult
  · cases hresult
    have hmoved := hcomes.moved found.tonicClass
    obtain ⟨hconfig, hrestart, _, hsampler, hhome, htempo, hinstrument⟩ := hcomes
    refine ⟨hconfig, hrestart, ⟨found.tonicClass, ?_⟩, hsampler, hhome, htempo, hinstrument⟩
    rw [← hmoved]
    exact Option.map_map _ _ _
  · cases hresult
    exact hcomes

theorem ComesFrom.register {symbol : String} {handler : Handler} (hcomes : ComesFrom origin composer)
    (hregister : composer.register symbol handler = .ok after) : ComesFrom origin after := by
  rw [Composer.register] at hregister
  split at hregister
  · cases hregister
    obtain ⟨hconfig, hrestart, hcorpus, hsampler, hhome, htempo, hinstrument⟩ := hcomes
    exact ⟨hconfig, hrestart, hcorpus, hsampler, hhome, htempo, hinstrument⟩
  · cases hregister

/-! ### Calls -/

/-- What neither handlers nor the start of a pass nor a change of key can end. -/
structure Abides (property : Composer σ W → Prop) : Prop where
  valid {composer : Composer σ W} (hproperty : property composer) : composer.config.Valid
  same {before after : Composer σ W} (hsame : SameSetting before after) (hproperty : property before) : property after
  begun {composer : Composer σ W} (hproperty : property composer) : property composer.begun
  setKey {before after : Composer σ W} {key : KeyRef} {reports : List Report}
    (hkey : before.setKey key = .ok (after, reports)) (hproperty : property before) : property after

theorem ComesFrom.abides (hfit : origin.Fit) : Abides (ComesFrom origin) where
  valid hcomes := (hcomes.fit hfit).valid
  same hsame hcomes := hcomes.follow hsame
  begun hcomes := hcomes.begun
  setKey hkey hcomes := hcomes.setKey hkey

namespace Abides

variable [Source σ W] {property : Composer σ W → Prop}

/-- Whatever the handlers are, a character keeps what abides. -/
theorem step (habides : Abides property) {index : Nat} {symbol : Char} {rest : List Char} {reports : List Report}
    (hproperty : property composer) (hstep : composer.step index symbol rest = .ok (after, reports)) : property after := by
  rw [Composer.step] at hstep
  split at hstep
  · cases hstep
    exact hproperty
  · next handler _ =>
    by_cases hkey : ∃ key, handler = .setKey key
    · obtain ⟨key, rfl⟩ := hkey
      exact habides.setKey hstep hproperty
    · exact habides.same (perform_sameSetting (fun key heq => hkey ⟨key, heq⟩) hstep) hproperty

theorem walk (habides : Abides property) {index : Nat} {reports : List Report} {text : List Char}
    (hproperty : property composer) : property (composer.walk index reports text).state := by
  induction text generalizing composer index reports with
  | nil => exact hproperty
  | cons symbol rest ih =>
    rw [Composer.walk]
    split
    · exact hproperty
    · next hstep => exact ih (habides.step hproperty hstep)

omit [Weight W] [Source σ W] in
theorem andThen_state {S α β : Type} (outcome : Outcome S α) (account : S → Account β) :
    (outcome.andThen fun state => ⟨state, account state⟩).state = outcome.state := by
  rw [Outcome.andThen]
  split <;> rfl

theorem compose (habides : Abides property) (hproperty : property composer) (production : List Char) :
    property (composer.compose production).state := by
  rw [Composer.compose]
  split
  · exact hproperty
  · next begun reports hbegun =>
    obtain ⟨_, _, hbegin⟩ := Except.bind_eq_ok_iff.1 hbegun
    obtain ⟨told, heq⟩ := begin_eq_ok (habides.valid hproperty)
    cases heq.symm.trans hbegin
    rw [andThen_state]
    exact habides.walk (habides.begun hproperty)

theorem composeGrammar (habides : Abides property) (hproperty : property composer) (grammar : Grammar)
    (generations : Int) : property (composer.composeGrammar grammar generations).state := by
  rw [Composer.composeGrammar]
  split
  · exact hproperty
  · next production _ => exact habides.compose hproperty production

end Abides

variable [Source σ W]

/-- Whatever is called on a composer, it still has what it had when it was made. -/
theorem Reached.comesFrom (hreached : Reached config composer) :
    ∃ (key : Key) (corpus : Option (CorpusModel W)) (source : σ) (restart : Option σ),
      (initial config key corpus source restart).Fit ∧ ComesFrom (initial config key corpus source restart) composer := by
  induction hreached with
  | made hcounted hmade =>
    have hfit := (make_fitWith hcounted hmade).1
    obtain ⟨_, key, taken, _, _, rfl⟩ := make_ok hmade
    exact ⟨key, taken.1, _, _, hfit, ComesFrom.refl hfit⟩
  | registered _ hregister ih =>
    obtain ⟨key, corpus, source, restart, hfit, hcomes⟩ := ih
    exact ⟨key, corpus, source, restart, hfit, hcomes.register hregister⟩
  | keyed _ hkey ih =>
    obtain ⟨key, corpus, source, restart, hfit, hcomes⟩ := ih
    exact ⟨key, corpus, source, restart, hfit, hcomes.setKey hkey⟩
  | composed _ production ih =>
    obtain ⟨key, corpus, source, restart, hfit, hcomes⟩ := ih
    exact ⟨key, corpus, source, restart, hfit, (ComesFrom.abides hfit).compose hcomes production⟩
  | expanded _ grammar generations ih =>
    obtain ⟨key, corpus, source, restart, hfit, hcomes⟩ := ih
    exact ⟨key, corpus, source, restart, hfit, (ComesFrom.abides hfit).composeGrammar hcomes grammar generations⟩

theorem Reached.fitWith (hreached : Reached config composer) : composer.FitWith config := by
  obtain ⟨key, corpus, source, restart, hfit, hcomes⟩ := hreached.comesFrom
  exact ⟨hcomes.fit hfit, hcomes.config⟩

theorem Reached.config_of_compose (hreached : Reached config composer) {production : List Char}
    {account : Account Unit} (hcompose : composer.compose production = ⟨after, account⟩) : after.config = config := by
  have hafter := hreached.composed production
  rw [hcompose] at hafter
  exact hafter.fitWith.2

/-- A sampler of chords is there just if chance is to choose and chords are wanted. -/
theorem Reached.sampler (hreached : Reached config composer) :
    composer.progression.isSome = (config.markov && decide (0 < config.chordEvery)) := by
  obtain ⟨key, corpus, source, restart, _, hcomes⟩ := hreached.comesFrom
  have hsome := congrArg Option.isSome hcomes.sampler
  rw [Option.isSome_map, Option.isSome_map] at hsome
  rw [hsome]
  cases hchords : config.markov && decide (0 < config.chordEvery) <;> simp [initial, hchords]

/-- A composer left to chance, with one melody to follow. -/
theorem exists_reached_markov :
    ∃ composer : Composer (Script Float) Float, Reached { markov := true } composer ∧ composer.handlers = defaultHandlers ∧
      composer.corpus.isSome := by
  have hmade : ∃ (composer : Composer (Script Float) Float) (reports : List Report),
      make { markov := true } (some (.source [(.number 0, [.notes [.integer 0, .integer 4]])])) ⟨#[], 0⟩ none =
        .ok (composer, reports) ∧ composer.handlers = defaultHandlers ∧ composer.corpus.isSome :=
    ⟨_, _, rfl, rfl, rfl⟩
  obtain ⟨composer, reports, hmade, hhandlers, hcorpus⟩ := hmade
  exact ⟨composer, Reached.made (by simp) hmade, hhandlers, hcorpus⟩

/-- Two melodies that go on from E in different ways. -/
def twoMelodies : CorpusSource := [(.name "C", [.text "C5q E5q G5q A5q", .text "E5q F5q"])]

end TurtleMusic.Composer
