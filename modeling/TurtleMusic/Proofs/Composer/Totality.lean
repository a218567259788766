import TurtleMusic.Proofs.Composer.Reached
import TurtleMusic.Proofs.Harmony.Progression
import TurtleMusic.Proofs.Number.Double

/-!
# Passes that cannot fail

A composer that is fit for a pass brings every well-nested production to its end: lengths can be written, chords are asked for only of a sampler, ranges hold every pitch class and every branch that is closed was opened. A production that is not well nested is refused before anything has changed.
-/

namespace TurtleMusic.Composer

open TurtleMusic.Number TurtleMusic.Chance TurtleMusic.Grammar

variable {σ W : Type} [Weight W] {composer : Composer σ W} {depth : Nat}

omit [Weight W] in
theorem stepPitch_isOk (hvalid : composer.config.Valid) (up : Bool) : ∃ after, composer.stepPitch up = .ok after :=
  Except.map_isOk _ ⟨_, Pitch.wrap_eq_ok hvalid.span _⟩

variable [Source σ W] [LawfulWeight W]

/-! ### Choosing a stroke -/

theorem followCorpus_isOk (hfit : composer.Fit) : ∃ after, composer.followCorpus = .ok after := by
  rw [followCorpus]
  split
  · next corpus hcorpus =>
    apply Except.bind_isOk (CorpusModel.next_isOk (hfit.corpus corpus hcorpus) _ _ _)
    rintro ⟨drawn, source⟩ _
    cases drawn with
    | none => exact ⟨_, rfl⟩
    | some pitchClass => exact Except.bind_isOk ⟨_, Pitch.nearest_eq_ok hfit.valid.span _ _⟩ fun _ _ => ⟨_, rfl⟩
  · exact ⟨composer, rfl⟩

theorem chooseChord_isOk (hvalid : composer.config.Valid) (progression : Progression) (length : Int) :
    ∃ chosen, composer.chooseChord progression length = .ok chosen := by
  apply Except.bind_isOk (Progression.next_isOk progression composer.source)
  intro drawn _
  exact Except.bind_isOk ⟨_, ScaleChord.triad_eq_ok _ _ _ hvalid.span⟩ fun _ _ => ⟨_, rfl⟩

/-- A chord is asked for only where there is a sampler. -/
theorem chooseSound_isOk (hfit : composer.Fit) (hmeasure : composer.InMeasure) (length : Int) :
    ∃ chosen, composer.chooseSound length = .ok chosen := by
  rw [chooseSound]
  by_cases hmarkov : composer.config.markov = true
  · rw [if_pos hmarkov]
    by_cases hdue : composer.chordDue = true
    · obtain ⟨progression, hprogression⟩ := Option.isSome_iff_exists.1 (hmeasure.chord hdue)
      rw [if_pos hdue, hprogression]
      exact chooseChord_isOk hfit.valid progression length
    · rw [if_neg hdue]
      exact Except.bind_isOk (followCorpus_isOk hfit) fun _ _ => ⟨_, rfl⟩
  · rw [if_neg hmarkov]
    exact ⟨_, rfl⟩

theorem chooseStroke_isOk (hfit : composer.Fit) (hmeasure : composer.InMeasure) (sounding : Bool) :
    ∃ chosen, composer.chooseStroke sounding = .ok chosen := by
  have htaken := (takeLength_chosen composer).sameSetting.fit hfit
  rw [chooseStroke]
  cases sounding with
  | true => exact chooseSound_isOk htaken (takeLength_inMeasure hfit.valid hmeasure) _
  | false => exact ⟨_, rfl⟩

theorem horizontalStroke_isOk (hfit : composer.Fit) (hmeasure : composer.InMeasure) (sounding : Bool) :
    ∃ after, composer.horizontalStroke sounding = .ok after := by
  apply Except.bind_isOk (chooseStroke_isOk hfit hmeasure sounding)
  rintro ⟨stroke, chosen⟩ hchosen
  have hpos := chooseStroke_length_pos hfit.valid hmeasure hchosen
  exact Except.bind_isOk (Score.write_isOk hpos chosen.score) fun _ _ => ⟨_, rfl⟩

/-! ### Whole passes -/

theorem Underway.carryOut_isOk {symbol : Char} {rest : List Char} (hunder : Underway depth composer)
    (hclosing : Closing depth (symbol :: rest)) (behind : List Char) :
    ∃ after, composer.carryOut behind (composer.act symbol) = .ok after := by
  cases hact : composer.act symbol with
  | stroke sounding => exact horizontalStroke_isOk hunder.fit hunder.measure sounding
  | stepPitch up => exact stepPitch_isOk hunder.fit.valid up
  | closeBranch =>
    have hclose : symbol = ']' := by
      by_contra hne
      by_cases hopen : symbol = '['
      · subst hopen
        cases hact
      · exact (composer.act_plain hopen hne).2 hact
    subst hclose
    obtain ⟨outer, rfl, _⟩ := (closing_close_iff _ _).1 hclosing
    exact closeBranch_isOk hunder.branched
  | idle | turn | openBranch | shiftHue => exact ⟨_, rfl⟩

theorem walkOver_isOk {text behind : List Char} (hunder : Underway depth composer) (hclosing : Closing depth (text ++ behind))
    (index : Nat) : ∃ after, walkOver behind composer index text = .ok after := by
  induction text generalizing depth composer index with
  | nil => exact ⟨composer, rfl⟩
  | cons symbol rest ih =>
    obtain ⟨stepped, hcarry⟩ := hunder.carryOut_isOk hclosing (rest ++ behind)
    obtain ⟨after, hafter⟩ := ih ((stepped_of_carryOut hclosing hcarry).underway hunder) hclosing.tail (index + 1)
    refine ⟨after, ?_⟩
    rw [walkOver, step_eq_carryOut hunder.handlers, hcarry]
    exact hafter

/-- A pass comes to every place of a well-nested production, with as many brackets open as the text before has left open. -/
theorem passTo_isOk {before behind : List Char} (hfit : composer.Fit) (hhandlers : composer.handlers = defaultHandlers)
    (hnested : Nested (before ++ behind)) :
    ∃ now, composer.passTo before behind = .ok now ∧ walkOver behind composer.begun 0 before = .ok now ∧
      Underway (stillOpen before) now := by
  obtain ⟨reports, hbegin⟩ := begin_eq_ok hfit.valid
  have hbegun := begun_underway hfit hhandlers
  obtain ⟨now, hwalk⟩ := walkOver_isOk hbegun hnested 0
  refine ⟨now, ?_, hwalk, ?_⟩
  · rw [passTo, hbegin]
    exact hwalk
  · exact hnested.depthOver_eq ▸ walkOver_underway hbegun hnested hwalk

/-- A well-nested production is composed by walking over all of it. -/
theorem compose_walk {production : List Char} (hfit : composer.Fit) (hhandlers : composer.handlers = defaultHandlers)
    (hnested : Nested production) :
    ∃ after reports, composer.compose production = ⟨after, ⟨reports, .ok ()⟩⟩ ∧
      walkOver [] composer.begun 0 production = .ok after ∧ Underway (stillOpen production) after := by
  obtain ⟨after, hpass, hwalk, hunder⟩ := passTo_isOk hfit hhandlers (show Nested (production ++ []) by rwa [List.append_nil])
  obtain ⟨reports, hcompose⟩ := compose_of_passTo ((checkBrackets_eq_ok_iff production).2 hnested) hpass
  exact ⟨after, reports, hcompose, hwalk, hunder⟩

theorem compose_of_nested {production : List Char} (hfit : composer.Fit) (hhandlers : composer.handlers = defaultHandlers)
    (hnested : Nested production) : ∃ after reports, composer.compose production = ⟨after, ⟨reports, .ok ()⟩⟩ := by
  obtain ⟨after, reports, hcompose, _⟩ := compose_walk hfit hhandlers hnested
  exact ⟨after, reports, hcompose⟩

omit [LawfulWeight W] in
theorem compose_of_not_nested {production : List Char} (hnested : ¬Nested production) (composer : Composer σ W) :
    ∃ fault, fault.kind = .grammar ∧ composer.compose production = ⟨composer, ⟨[], .error fault⟩⟩ := by
  cases hcheck : checkBrackets production with
  | ok => exact absurd ((checkBrackets_eq_ok_iff production).1 hcheck) hnested
  | error fault =>
    refine ⟨fault, checkBrackets_error_kind hcheck, ?_⟩
    rw [compose, hcheck]
    rfl

omit [LawfulWeight W] in
theorem composeGrammar_refused {grammar : Grammar} {generations : Int}
    (hrefused : grammar.validate ≠ .ok () ∨ generations < 0 ∨
      ∃ production, grammar.production generations = .ok production ∧ ¬Nested production) (composer : Composer σ W) :
    (composer.composeGrammar grammar generations).state = composer ∧
      ∃ fault, (composer.composeGrammar grammar generations).account.result = .error fault := by
  cases hproduction : grammar.production generations with
  | error fault =>
    rw [composeGrammar, hproduction]
    exact ⟨rfl, fault, rfl⟩
  | ok expanded =>
    obtain ⟨_, hvalid, hexpand⟩ := Except.bind_eq_ok_iff.1 hproduction
    have hnested : ¬Nested expanded := by
      rcases hrefused with hinvalid | hnegative | ⟨production, heq, hnested⟩
      · exact absurd hvalid hinvalid
      · rw [expandText, if_pos hnegative] at hexpand
        cases hexpand
      · cases heq.symm.trans hproduction
        exact hnested
    obtain ⟨fault, _, hcompose⟩ := compose_of_not_nested hnested composer
    rw [composeGrammar, hproduction]
    dsimp only [Outcome.andThen]
    rw [hcompose]
    exact ⟨rfl, fault, rfl⟩

/-- Composing fails on the productions that are not well nested, for that reason and with nothing changed; on all others it succeeds. Nothing is changed either by a grammar that is invalid, is expanded a negative number of times or comes out not well nested. -/
theorem compose_total_and_atomic {config : Config} (hreached : Reached config composer)
    (hhandlers : composer.handlers = defaultHandlers) :
    (∀ production, (∃ fault, fault.kind = .grammar ∧ (composer.compose production).account.result = .error fault) ↔
      ¬Nested production) ∧
    (∀ production, ¬Nested production → (composer.compose production).state = composer) ∧
    (∀ production, Nested production → (composer.compose production).account.result = .ok ()) ∧
    ∀ (grammar : Grammar) (generations : Int),
      (grammar.validate ≠ .ok () ∨ generations < 0 ∨
        ∃ production, grammar.production generations = .ok production ∧ ¬Nested production) →
      (composer.composeGrammar grammar generations).state = composer ∧
        ∃ fault, (composer.composeGrammar grammar generations).account.result = .error fault := by
  have hsucceeds : ∀ production, Nested production → (composer.compose production).account.result = .ok () := by
    intro production hnested
    obtain ⟨after, reports, hcompose⟩ := compose_of_nested hreached.fitWith.1 hhandlers hnested
    rw [hcompose]
  refine ⟨fun production => ⟨?_, ?_⟩, ?_, hsucceeds, fun grammar generations hrefused =>
    composeGrammar_refused hrefused composer⟩
  · rintro ⟨fault, _, hfault⟩ hnested
    cases (hsucceeds production hnested).symm.trans hfault
  · intro hnested
    obtain ⟨fault, hkind, hcompose⟩ := compose_of_not_nested hnested composer
    exact ⟨fault, hkind, by rw [hcompose]⟩
  · intro production hnested
    obtain ⟨fault, _, hcompose⟩ := compose_of_not_nested hnested composer
    rw [hcompose]

/-- A production that lacks a bracket is refused, and succeeds once it has it. -/
theorem compose_total_and_atomic_markov :
    ∃ composer : Composer (Script Float) Float, Reached { markov := true } composer ∧ composer.handlers = defaultHandlers ∧
      composer.corpus.isSome ∧ (composer.compose "g[+g".toList).state = composer ∧
        (composer.compose "g[+g]".toList).account.result = .ok () := by
  obtain ⟨composer, hreached, hhandlers, hcorpus⟩ := exists_reached_markov
  obtain ⟨_, hunchanged, hsucceeds, _⟩ := compose_total_and_atomic hreached hhandlers
  exact ⟨composer, hreached, hhandlers, hcorpus, hunchanged _ (by decide), hsucceeds _ (by decide)⟩

end TurtleMusic.Composer
