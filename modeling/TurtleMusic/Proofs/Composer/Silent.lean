import TurtleMusic.Proofs.Composer.Legible
import TurtleMusic.Proofs.Composer.Repeating
import TurtleMusic.Proofs.Composer.Rewriting

/-!
# Characters that do nothing

A character without a handler makes no music, and yet it may be seen: a hue character looks for another one behind it. Blanks are overlooked there, so without them a pass comes to the same score. Any other character in between parts two runs of hue characters; without it fewer controller values are written, and nothing else changes. For wherever a note or a rest comes next, the newest tokens are the same.
-/

namespace TurtleMusic.Composer

open TurtleMusic.Number TurtleMusic.Chance TurtleMusic.Grammar

/-- The character has no handler in a new composer. -/
def Silent (c : Char) : Prop := defaultHandlers.lookup c = none

theorem Silent.plain {c : Char} (hsilent : Silent c) : c ≠ '[' ∧ c ≠ ']' := by
  constructor <;>
  · rintro rfl
    cases hsilent

theorem silent_of_blank {c : Char} (hblank : Text.isBlank c = true) : Silent c := by
  rw [Silent, Option.eq_none_iff_forall_ne_some]
  intro handler hlookup
  have hmem := mem_of_lookup hlookup
  simp only [defaultHandlers, List.mem_cons, List.not_mem_nil, or_false, Prod.mk.injEq] at hmem
  rcases hmem with ⟨rfl, _⟩ | ⟨rfl, _⟩ | ⟨rfl, _⟩ | ⟨rfl, _⟩ | ⟨rfl, _⟩ | ⟨rfl, _⟩ | ⟨rfl, _⟩ | ⟨rfl, _⟩ | ⟨rfl, _⟩
  all_goals exact absurd hblank (by decide)

/-! ### What hue characters see -/

theorem isHueSymbol_cases {c : Char} (hhue : isHueSymbol c = true) : c = '#' ∨ c = '@' := by
  simpa [isHueSymbol] using hhue

theorem hueFollows_blank {c : Char} (hblank : Text.isBlank c = true) (rest : List Char) :
    hueFollows (c :: rest) = hueFollows rest := by
  rw [hueFollows, List.dropWhile_cons_of_pos hblank, hueFollows]

theorem hueFollows_plain {c : Char} (hplain : Text.isBlank c = false) (rest : List Char) :
    hueFollows (c :: rest) = isHueSymbol c := by
  rw [hueFollows, List.dropWhile_cons_of_neg (by rw [hplain]; exact Bool.false_ne_true)]

/-- Blanks are overlooked. -/
theorem hueFollows_thinned {text thinned : List Char} (hthinned : Thinned (Text.isBlank · = true) text thinned) :
    hueFollows thinned = hueFollows text := by
  induction hthinned with
  | nil => rfl
  | keep c _ ih =>
    cases hblank : Text.isBlank c with
    | true => rw [hueFollows_blank hblank, hueFollows_blank hblank, ih]
    | false => rw [hueFollows_plain hblank, hueFollows_plain hblank]
  | drop hblank _ ih => rw [hueFollows_blank hblank, ih]

/-- Whether the next character that has a handler is a hue character. -/
def hueNext (text : List Char) : Bool :=
  (text.find? fun c => (defaultHandlers.lookup c).isSome).any isHueSymbol

theorem hueNext_silent {c : Char} (hsilent : Silent c) (rest : List Char) : hueNext (c :: rest) = hueNext rest := by
  have hnone : (defaultHandlers.lookup c).isSome = false := by rw [hsilent, Option.isSome_none]
  rw [hueNext, List.find?_cons_of_neg (by rw [hnone]; exact Bool.false_ne_true), hueNext]

theorem hueNext_handled {c : Char} (hhandled : ¬Silent c) (rest : List Char) : hueNext (c :: rest) = isHueSymbol c := by
  have hsome : (defaultHandlers.lookup c).isSome = true := Option.isSome_iff_ne_none.2 hhandled
  simp only [hueNext, List.find?_cons, hsome, Option.any_some]

theorem hueNext_thinned {text thinned : List Char} (hthinned : Thinned Silent text thinned) : hueNext thinned = hueNext text := by
  induction hthinned with
  | nil => rfl
  | keep c _ ih =>
    by_cases hsilent : Silent c
    · rw [hueNext_silent hsilent, hueNext_silent hsilent, ih]
    · rw [hueNext_handled hsilent, hueNext_handled hsilent]
  | drop hsilent _ ih => rw [hueNext_silent hsilent, ih]

/-- A hue character that is seen is the next one that has a handler. -/
theorem hueNext_of_follows {text : List Char} (hfollows : hueFollows text = true) : hueNext text = true := by
  induction text with
  | nil => cases hfollows
  | cons c rest ih =>
    cases hblank : Text.isBlank c with
    | true =>
      rw [hueFollows_blank hblank] at hfollows
      rw [hueNext_silent (silent_of_blank hblank), ih hfollows]
    | false =>
      rw [hueFollows_plain hblank] at hfollows
      have hhandled : ¬Silent c := by
        rcases isHueSymbol_cases hfollows with rfl | rfl <;> exact fun hsilent => nomatch hsilent
      rw [hueNext_handled hhandled, hfollows]

variable {σ W : Type} {composer after : Composer σ W} {depth outcome : Nat}

theorem act_silent (composer : Composer σ W) {c : Char} (hsilent : Silent c) : composer.act c = .idle := by
  rw [act, hsilent]

theorem act_hue (composer : Composer σ W) {c : Char} (hhue : isHueSymbol c = true) : ∃ times, composer.act c = .shiftHue times := by
  rcases isHueSymbol_cases hhue with rfl | rfl <;> exact ⟨_, rfl⟩

theorem act_ne_shiftHue (composer : Composer σ W) {c : Char} (hplain : isHueSymbol c = false) (times : Int) :
    composer.act c ≠ .shiftHue times := by
  have hcomes := composer.act_comesTo c
  intro hact
  rw [hact] at hcomes
  cases hcomes with
  | shiftHue _ hhue =>
    rw [hplain] at hhue
    cases hhue

/-! ### Walking over a thinned text -/

variable {tokens : List Token}

/-- Other tokens trail those of a pass with this text ahead: they have the same music, and unless a hue is changed next their newest one is the same. -/
structure Trailing (ahead : List Char) (written tokens : List Token) : Prop where
  sounding : music tokens = music written
  newest : hueNext ahead = false → tokens.head? = written.head?

theorem trailing_of_matched {written : List Token} (hmatched : Matched written tokens) (ahead : List Char) :
    Trailing ahead written tokens :=
  ⟨hmatched.sounding, fun _ => hmatched.newest⟩

theorem Trailing.silent {symbol : Char} {ahead : List Char} {written : List Token} (hsilent : Silent symbol)
    (htrailing : Trailing (symbol :: ahead) written tokens) : Trailing ahead written tokens :=
  ⟨htrailing.sounding, fun hnext => htrailing.newest ((hueNext_silent hsilent ahead).trans hnext)⟩

/-- A change of hue writes the same value or none, and the same one in front of anything but a further change. -/
theorem shiftHue_rewrite (hmusic : music tokens = music composer.score.written) (times : Int) {behind other : List Char}
    (hnext : hueNext other = hueNext behind) :
    ∃ later, (composer.rewrite tokens).shiftHue times other = (composer.shiftHue times behind).rewrite later ∧
      Trailing behind (composer.shiftHue times behind).score.written later := by
  have hcontrols : ∀ rest, music (composer.hueMarks times rest) = [] := by
    intro rest
    rw [hueMarks]
    split <;> rfl
  rw [shiftHue_eq, shiftHue_eq]
  refine ⟨composer.hueMarks times other ++ tokens, rfl, ?_, fun hlast => ?_⟩
  · rw [music_append, music_append, hcontrols, hcontrols, hmusic]
  · have hbehind : hueFollows behind = false := Bool.eq_false_iff.2 (mt hueNext_of_follows (by rw [hlast]; decide))
    have hother : hueFollows other = false := Bool.eq_false_iff.2 (mt hueNext_of_follows (by rw [hnext, hlast]; decide))
    simp [hueMarks, hbehind, hother]

variable [Weight W] [Source σ W]

theorem Stepped.trailing {symbol : Char} {behind other : List Char}
    (hstepped : Stepped composer behind (composer.act symbol) depth outcome after) (hbranched : Branched depth composer)
    (hthinned : Thinned Silent behind other) (htrailing : Trailing (symbol :: behind) composer.score.written tokens) :
    ∃ later, (composer.rewrite tokens).carryOut other (composer.act symbol) = .ok (after.rewrite later) ∧
      Trailing behind after.score.written later := by
  by_cases hsilent : Silent symbol
  · rw [act_silent composer hsilent] at hstepped ⊢
    cases hstepped
    exact ⟨tokens, rfl, htrailing.silent hsilent⟩
  cases hhue : isHueSymbol symbol with
  | true =>
    obtain ⟨times, hact⟩ := act_hue composer hhue
    rw [hact] at hstepped ⊢
    cases hstepped
    obtain ⟨later, hshift, hkept⟩ := shiftHue_rewrite htrailing.sounding times (hueNext_thinned hthinned)
    exact ⟨later, congrArg Except.ok hshift, hkept⟩
  | false =>
    have hmatched : Matched composer.score.written tokens :=
      ⟨htrailing.sounding, htrailing.newest ((hueNext_handled hsilent behind).trans hhue)⟩
    obtain ⟨later, hcarry, hkept⟩ := hstepped.rewrite (act_ne_shiftHue composer hhue) hbranched hmatched
    exact ⟨later, hcarry, trailing_of_matched hkept behind⟩

/-- Without some of the characters that have no handler, a pass comes to the same but for controller values. -/
theorem walkOver_thinned {text thinned : List Char} (hthinned : Thinned Silent text thinned) (hunder : Underway depth composer)
    (hclosing : Closing depth text) (htrailing : Trailing text composer.score.written tokens) {index : Nat}
    (hwalk : walkOver [] composer index text = .ok after) (place : Nat) :
    ∃ later, walkOver [] (composer.rewrite tokens) place thinned = .ok (after.rewrite later) ∧
      music later = music after.score.written := by
  induction hthinned generalizing depth composer tokens index place with
  | nil =>
    cases hwalk
    exact ⟨tokens, rfl, htrailing.sounding⟩
  | @keep symbol text thinned hrest ih =>
    obtain ⟨⟨now, reports⟩, hstep, hlater⟩ := Except.bind_eq_ok_iff.1 hwalk
    rw [List.append_nil] at hstep
    have hstepped := stepped_of_carryOut hclosing (step_ok hunder.handlers hstep)
    obtain ⟨between, hcarry, hkept⟩ := hstepped.trailing hunder.branched hrest htrailing
    have hhandlers : (composer.rewrite tokens).handlers = defaultHandlers := hunder.handlers
    have hact : (composer.rewrite tokens).act symbol = composer.act symbol := rfl
    rw [walkOver, step_eq_carryOut hhandlers, hact, List.append_nil, hcarry]
    exact ih (hstepped.underway hunder) hclosing.tail hkept hlater (place + 1)
  | @drop symbol text thinned hsilent hrest ih =>
    obtain ⟨⟨now, reports⟩, hstep, hlater⟩ := Except.bind_eq_ok_iff.1 hwalk
    obtain ⟨hopen, hclose⟩ := hsilent.plain
    have hidle := step_ok hunder.handlers hstep
    rw [act_silent composer hsilent] at hidle
    cases hidle
    exact ih hunder ((closing_plain_iff hopen hclose _ _).1 hclosing) (htrailing.silent hsilent) hlater place

/-- Blanks are not even seen. -/
theorem walkOver_unblanked {text thinned : List Char} (hthinned : Thinned (Text.isBlank · = true) text thinned)
    (hunder : Underway depth composer) (hclosing : Closing depth text) {index : Nat}
    (hwalk : walkOver [] composer index text = .ok after) (place : Nat) : walkOver [] composer place thinned = .ok after := by
  induction hthinned generalizing depth composer index place with
  | nil => exact hwalk
  | @keep symbol text thinned hrest ih =>
    obtain ⟨⟨now, reports⟩, hstep, hlater⟩ := Except.bind_eq_ok_iff.1 hwalk
    rw [List.append_nil] at hstep
    have hcarry := step_ok hunder.handlers hstep
    have hstepped := stepped_of_carryOut hclosing hcarry
    have hsame : composer.carryOut thinned (composer.act symbol) = composer.carryOut text (composer.act symbol) := by
      cases composer.act symbol with
      | shiftHue times => rw [carryOut, carryOut, shiftHue, shiftHue, hueFollows_thinned hrest]
      | _ => rfl
    rw [walkOver, step_eq_carryOut hunder.handlers, List.append_nil, hsame, hcarry]
    exact ih (hstepped.underway hunder) hclosing.tail hlater (place + 1)
  | @drop symbol text thinned hblank hrest ih =>
    obtain ⟨⟨now, reports⟩, hstep, hlater⟩ := Except.bind_eq_ok_iff.1 hwalk
    have hsilent := silent_of_blank hblank
    obtain ⟨hopen, hclose⟩ := hsilent.plain
    have hidle := step_ok hunder.handlers hstep
    rw [act_silent composer hsilent] at hidle
    cases hidle
    exact ih hunder ((closing_plain_iff hopen hclose _ _).1 hclosing) hlater place

/-! ### Whole passes -/

variable [LawfulWeight W]

/-- Where a pass starts as another one does but for what no pass looks at, it comes to the same but for that. -/
theorem compose_of_begun {start other : Composer σ W} (hstart : start.Fit) (hother : other.Fit)
    (hhandlers : start.handlers = defaultHandlers) (hsame : other.handlers = defaultHandlers) {key : KeyRef} {reseat : σ → σ}
    {restart : Option σ} (hbegun : other.begun = start.begun.recast key reseat restart)
    (hchance : start.config.markov = true → reseat = id) {production : List Char} (hnested : Nested production)
    (hwalk : walkOver [] start.begun 0 production = .ok after) :
    ∃ reports, other.compose production = ⟨after.recast key reseat restart, ⟨reports, .ok ()⟩⟩ := by
  have hwhole : Nested (production ++ []) := by rwa [List.append_nil]
  obtain ⟨later, hpass, hlater, _⟩ := passTo_isOk hother hsame hwhole
  rw [hbegun] at hlater
  cases hlater.symm.trans (walkOver_recast (begun_underway hstart hhandlers) hwhole hchance hwalk)
  exact compose_of_passTo ((checkBrackets_eq_ok_iff production).2 hnested) hpass

omit [LawfulWeight W] in
/-- What a pass has written is read. -/
theorem events?_of_walkOver {start : Composer σ W} (hfit : start.Fit) (hhandlers : start.handlers = defaultHandlers)
    (hinstrument : 0 ≤ start.config.instrument) {production : List Char} (hnested : Nested production)
    (hwalk : walkOver [] start.begun 0 production = .ok after) :
    after.score.events? = .ok (Reading.heard after.score.written) :=
  Score.events?_eq_ok (readable_of_walkOver hfit hhandlers hinstrument hnested hwalk)

/-- Composers that are made with the same settings start their passes from the same source, if they are given the same one or the seed of the settings decides. -/
theorem makeSeeded_alike {config : Config} {generator otherGenerator : Option Generator}
    (given : Option (CorpusGiven Float)) (fallback otherFallback : Generator)
    (hsame : config.markov = true → otherGenerator = generator ∧ (generator.isSome = true ∨ config.seed.isSome = true)) :
    ∃ source restart otherSource otherRestart, makeSeeded config given generator fallback = make config given source restart ∧
      makeSeeded config given otherGenerator otherFallback = make config given otherSource otherRestart ∧
      (config.markov = true → restart.getD source = otherRestart.getD otherSource) := by
  cases hmarkov : config.markov with
  | false =>
    obtain ⟨source, restart, hmake, _⟩ := makeSeeded_eq config given generator fallback
    obtain ⟨otherSource, otherRestart, hother, _⟩ := makeSeeded_eq config given otherGenerator otherFallback
    exact ⟨source, restart, otherSource, otherRestart, hmake, hother, fun htrue => absurd htrue Bool.false_ne_true⟩
  | true =>
    obtain ⟨rfl, hdecided⟩ := hsame hmarkov
    cases otherGenerator with
    | some generator => exact ⟨generator, none, generator, none, rfl, rfl, fun _ => rfl⟩
    | none =>
      obtain ⟨seed, hseed⟩ := Option.isSome_iff_exists.1 (hdecided.resolve_left Bool.false_ne_true)
      refine ⟨.ofSeed seed, some (.ofSeed seed), .ofSeed seed, some (.ofSeed seed), ?_, ?_, fun _ => rfl⟩
      · simp only [makeSeeded, hseed]
      · simp only [makeSeeded, hseed]

variable {config : Config} {given : Option (CorpusGiven Float)} {generator otherGenerator : Option Generator}
  {fallback otherFallback : Generator} {reports : List Report}

/-- Two composers are made of the same settings and the same corpus, and if chance is to choose, from the same source of it. One composes a well-nested production, the other one the same without some characters. If these are blanks, both come to the same score and the same turtle. If they have no handler, both come to the same turtle, to scores that differ in their tokens only, and to the same notes when these are read. -/
theorem compose_thinned {composer : Composer Generator Float} (hinstrument : 0 ≤ config.instrument)
    (hcounted : ∀ model, given = some (.model model) → model.Counted)
    (hmade : makeSeeded config given generator fallback = .ok (composer, reports))
    (hsame : config.markov = true → otherGenerator = generator ∧ (generator.isSome = true ∨ config.seed.isSome = true))
    {production : List Char} (hnested : Nested production) :
    ∃ other told after composed, makeSeeded config given otherGenerator otherFallback = .ok (other, told) ∧
      composer.compose production = ⟨after, ⟨composed, .ok ()⟩⟩ ∧
      (∀ thinned, Thinned (Text.isBlank · = true) production thinned →
        ∃ later reports, other.compose thinned = ⟨later, ⟨reports, .ok ()⟩⟩ ∧
          later.score = after.score ∧ later.turtle = after.turtle) ∧
      ∀ thinned, Thinned Silent production thinned →
        ∃ later reports, other.compose thinned = ⟨later, ⟨reports, .ok ()⟩⟩ ∧
          later.turtle = after.turtle ∧ later.score = { after.score with written := later.score.written } ∧
          ∃ events laterEvents, after.score.events? = .ok events ∧ later.score.events? = .ok laterEvents ∧
            laterEvents.filter Event.isNote = events.filter Event.isNote := by
  obtain ⟨source, restart, otherSource, otherRestart, hmake, hother, halike⟩ :=
    makeSeeded_alike given fallback otherFallback hsame
  rw [hmake] at hmade
  have hfit := (make_fitWith hcounted hmade).1
  obtain ⟨hvalid, tonic, taken, hkey, htaken, rfl⟩ := make_ok hmade
  have hmadeOther := make_eq (W := Float) hvalid hkey given otherSource otherRestart
  rw [htaken] at hmadeOther
  have hfitOther := (make_fitWith hcounted hmadeOther).1
  -- Left to chance, both passes start from the same source; otherwise the source does not matter.
  obtain ⟨reseat, hchance, hreseat⟩ : ∃ reseat : Generator → Generator, (config.markov = true → reseat = id) ∧
      reseat (restart.getD source) = otherRestart.getD otherSource := by
    cases hmarkov : config.markov with
    | false => exact ⟨fun _ => otherRestart.getD otherSource, fun htrue => absurd htrue Bool.false_ne_true, rfl⟩
    | true => exact ⟨id, fun _ => rfl, halike hmarkov⟩
  have hbegun : (initial config tonic taken.1 otherSource otherRestart).begun =
      (initial config tonic taken.1 source restart).begun.recast config.key reseat otherRestart := by
    rw [begun, recast, begun, Composer.mk.injEq]
    exact ⟨rfl, hreseat.symm, rfl, rfl, rfl, rfl, rfl, rfl, rfl, rfl, rfl, rfl⟩
  have hclosing : Closing 0 (production ++ []) := by rwa [List.append_nil]
  obtain ⟨after, hpass, hwalk, _⟩ := passTo_isOk hfit rfl hclosing
  obtain ⟨composed, hcompose⟩ := compose_of_passTo ((checkBrackets_eq_ok_iff production).2 hnested) hpass
  refine ⟨_, _, after, composed, hother.trans hmadeOther, hcompose, fun thinned hthinned => ?_, fun thinned hthinned => ?_⟩
  · have hthin : Nested thinned := hthinned.nested (fun _ hblank => (silent_of_blank hblank).plain) hnested
    have hthinnedWalk := walkOver_unblanked hthinned (begun_underway hfit rfl) hnested hwalk 0
    obtain ⟨told, hlater⟩ := compose_of_begun hfit hfitOther rfl rfl hbegun hchance hthin hthinnedWalk
    exact ⟨_, told, hlater, rfl, rfl⟩
  · have hthin : Nested thinned := hthinned.nested (fun _ hsilent => hsilent.plain) hnested
    obtain ⟨tokens, hthinnedWalk, hmusic⟩ :=
      walkOver_thinned hthinned (begun_underway hfit rfl) hnested ⟨rfl, fun _ => rfl⟩ hwalk 0
    obtain ⟨told, hlater⟩ := compose_of_begun hfit hfitOther rfl rfl hbegun hchance hthin hthinnedWalk
    have hread : (after.rewrite tokens).score.events? = .ok (Reading.heard tokens) :=
      events?_of_walkOver hfit rfl hinstrument hthin hthinnedWalk
    refine ⟨_, told, hlater, rfl, rfl, _, _, events?_of_walkOver hfit rfl hinstrument hnested hwalk, hread, ?_⟩
    rw [← Reading.heard_music, ← Reading.heard_music after.score.written]
    exact congrArg (fun sounding => (Reading.heard sounding).filter Event.isNote) hmusic

theorem compose_thinned_between_hues :
    let config : Config := { markov := true, seed := some 7 }
    let melodies : Option (CorpusGiven Float) := some (.source [(.number 0, [.notes [.integer 0, .integer 4]])])
    ∃ (composer other after unblanked thinner : Composer Generator Float) (reports told first second third : List Report),
      makeSeeded config melodies none (.ofDraws []) = .ok (composer, reports) ∧
      makeSeeded config melodies none (.ofDraws []) = .ok (other, told) ∧
      composer.compose "g#x@ g".toList = ⟨after, ⟨first, .ok ()⟩⟩ ∧
      other.compose "g#x@g".toList = ⟨unblanked, ⟨second, .ok ()⟩⟩ ∧ unblanked.score = after.score ∧
      other.compose "g#@g".toList = ⟨thinner, ⟨third, .ok ()⟩⟩ ∧ thinner.turtle = after.turtle ∧
      ∃ events thinnerEvents, after.score.events? = .ok events ∧ thinner.score.events? = .ok thinnerEvents ∧
        thinnerEvents.filter Event.isNote = events.filter Event.isNote := by
  intro config melodies
  obtain ⟨composer, reports, hmade⟩ : ∃ (composer : Composer Generator Float) (reports : List Report),
      makeSeeded { markov := true, seed := some 7 } (some (.source [(.number 0, [.notes [.integer 0, .integer 4]])])) none
        (.ofDraws []) = .ok (composer, reports) := ⟨_, _, rfl⟩
  have hblank : Thinned (Text.isBlank · = true) "g#x@ g".toList "g#x@g".toList :=
    .keep 'g' (.keep '#' (.keep 'x' (.keep '@' (.drop rfl (.keep 'g' .nil)))))
  have hsilent : Thinned Silent "g#x@ g".toList "g#@g".toList :=
    .keep 'g' (.keep '#' (.drop rfl (.keep '@' (.drop rfl (.keep 'g' .nil)))))
  obtain ⟨other, told, after, first, hother, hcompose, hblanks, hsilents⟩ :=
    @compose_thinned _ _ none none _ (.ofDraws []) _ composer (by decide) (by simp) hmade (fun _ => ⟨rfl, .inr rfl⟩)
      _ (show Nested "g#x@ g".toList by decide)
  obtain ⟨unblanked, second, hunblanked, hscore, _⟩ := hblanks _ hblank
  obtain ⟨thinner, third, hthinner, hturtle, _, hnotes⟩ := hsilents _ hsilent
  exact ⟨composer, other, after, unblanked, thinner, reports, told, first, second, third, hmade, hother, hcompose, hunblanked,
    hscore, hthinner, hturtle, hnotes⟩

end TurtleMusic.Composer
