import TurtleMusic.Proofs.Composer.Legible
import TurtleMusic.Proofs.Composer.Totality
import TurtleMusic.Proofs.Midi.Exporting

/-!
# Which composed scores can be exported

Beside notes and rests a pass writes marks, and the settings decide which: the tempo and the instrument as they were set, voices and layers up to sixteen, hues as values of one controller. Everything but tempo and instrument has its place in a message. Those two are judged less strictly when settings are validated than when a score is exported, and since both stand at the head of every score, they alone decide whether it can be.
-/

namespace TurtleMusic

/-- A stroke neither adds nor removes marks. -/
theorem Writes.mem_mark_iff {stroke : Stroke} {before after : List Token} (hwrites : Writes stroke before after) {mark : Token}
    (hmark : mark.IsMark) : mark ∈ after ↔ mark ∈ before := by
  have hother : ∀ token : Token, ¬token.IsMark → mark ≠ token := by
    rintro _ hplayed rfl
    exact hplayed hmark
  cases hwrites with
  | notes | rest => exact ⟨fun hmem => (List.mem_cons.1 hmem).resolve_left (hother _ id), List.mem_cons_of_mem _⟩
  | longerNote | longerRest =>
    constructor <;>
    · intro hmem
      exact List.mem_cons_of_mem _ ((List.mem_cons.1 hmem).resolve_left (hother _ id))

namespace Composer

open TurtleMusic.Number TurtleMusic.Chance TurtleMusic.Grammar

variable {σ W : Type} [Weight W] {composer before after : Composer σ W} {depth : Nat}

/-- A mark that a pass with the settings may write. -/
def MarkOf (config : Config) : Token → Prop
  | .tempo beats => beats = config.tempo
  | .instrument number => number = config.instrument
  | .voice number | .layer number => 0 ≤ number ∧ number ≤ 16
  | .control controller value => controller = hueController ∧ 0 ≤ value
  | _ => True

/-- The score holds the tempo and the instrument of the settings, and no marks that the settings do not lead to. -/
structure Marked (composer : Composer σ W) : Prop where
  marks : ∀ mark ∈ composer.score.written, mark.IsMark → MarkOf composer.config mark
  tempo : .tempo composer.config.tempo ∈ composer.score.written
  instrument : .instrument composer.config.instrument ∈ composer.score.written

omit [Weight W] in
theorem Marked.of_marks (hmarked : before.Marked) (hconfig : after.config = before.config) {marks : List Token}
    (hwritten : after.score.written = marks ++ before.score.written) (hmarks : ∀ mark ∈ marks, MarkOf before.config mark) :
    after.Marked := by
  refine ⟨?_, ?_, ?_⟩ <;> rw [hconfig, hwritten]
  · intro mark hmark hplain
    rcases List.mem_append.1 hmark with hnew | hold
    · exact hmarks mark hnew
    · exact hmarked.marks mark hold hplain
  · exact List.mem_append_right _ hmarked.tempo
  · exact List.mem_append_right _ hmarked.instrument

theorem begun_marked (hfit : composer.Fit) (htempo : composer.score.tempo = composer.config.tempo) : composer.begun.Marked := by
  have hwritten : composer.begun.score.written =
      [.instrument composer.begun.config.instrument, .voice 0, .tempo composer.begun.config.tempo] := by
    change [Token.instrument composer.score.instrument, .voice 0, .tempo composer.score.tempo] = _
    rw [hfit.instrument, htempo]
    rfl
  refine ⟨?_, ?_, ?_⟩ <;> rw [hwritten]
  · simp [MarkOf]
  · simp
  · simp

/-! ### Branches and hues -/

theorem openingMarks_markOf {config : Config} (hbelow : depth < 255) :
    ∀ mark ∈ openingMarks depth config.instrument, MarkOf config mark := by
  rw [openingMarks]
  split
  · rw [List.forall_mem_cons, List.forall_mem_cons, List.forall_mem_singleton]
    exact ⟨⟨Int.le_refl 0, by decide⟩, rfl, show _ ∧ _ by omega⟩
  · exact List.forall_mem_singleton.2 (show _ ∧ _ by omega)

theorem closingMarks_markOf {config : Config} (hbelow : depth < 255) : ∀ mark ∈ closingMarks depth, MarkOf config mark := by
  rw [closingMarks]
  split
  · rw [List.forall_mem_cons, List.forall_mem_singleton]
    exact ⟨show _ ∧ _ by omega, show _ ∧ _ by omega⟩
  · exact List.forall_mem_singleton.2 (show _ ∧ _ by omega)

omit [Weight W] in
theorem hueMarks_markOf (composer : Composer σ W) (times : Int) (rest : List Char) :
    ∀ mark ∈ composer.hueMarks times rest, MarkOf composer.config mark := by
  have hnumbers := composer.hueMarks_numbers times rest
  rw [hueMarks] at hnumbers ⊢
  split
  · simp
  · next hlast =>
    rw [if_neg hlast] at hnumbers
    exact List.forall_mem_singleton.2 ⟨rfl, (List.forall_mem_singleton.1 hnumbers).2⟩

theorem Marked.openBranch (hmarked : composer.Marked) (hunder : Underway depth composer) : composer.openBranch.Marked := by
  by_cases hbelow : depth < 255
  · have hwritten : composer.openBranch.score.written =
        openingMarks depth composer.config.instrument ++ composer.score.written := by
      rw [openBranch_eq hunder.branched hbelow, hunder.fit.instrument]
    exact hmarked.of_marks (openBranch_sameSetting composer).config hwritten (openingMarks_markOf hbelow)
  · rw [openBranch_flat hunder.branched (Nat.not_lt.1 hbelow)]
    exact ⟨hmarked.marks, hmarked.tempo, hmarked.instrument⟩

theorem Marked.closeBranch (hmarked : composer.Marked) (hunder : Underway (depth + 1) composer)
    (hclose : composer.closeBranch = .ok after) : after.Marked := by
  obtain ⟨pose, outer, hbelow, _, rfl⟩ | ⟨_, rfl⟩ := closeBranch_cases hunder.branched hclose
  · exact hmarked.of_marks rfl rfl (closingMarks_markOf hbelow)
  · exact ⟨hmarked.marks, hmarked.tempo, hmarked.instrument⟩

/-! ### Characters -/

variable [Source σ W]

theorem Marked.horizontalStroke {sounding : Bool} (hmarked : composer.Marked) (hunder : Underway depth composer)
    (hstroke : composer.horizontalStroke sounding = .ok after) : after.Marked := by
  have hconfig := (horizontalStroke_sameSetting hstroke).config
  obtain ⟨stroke, chosen, score, hchosen, hwrite, rfl⟩ := horizontalStroke_ok hstroke
  have hkept := chooseStroke_chosen hchosen
  obtain ⟨count, hwritten⟩ := hkept.written
  have hready : chosen.Marked := hmarked.of_marks hkept.config hwritten fun mark hmark => by
    rw [List.eq_of_mem_replicate hmark]
    trivial
  have hwrites := Score.write_writes (hkept.scored hunder.scored).composed hwrite
  obtain ⟨beat, hadvance⟩ := advance_eq { chosen with score } stroke.length
  rw [hadvance]
  refine ⟨fun mark hmark hplain => hready.marks mark ((hwrites.mem_mark_iff hplain).1 hmark) hplain, ?_, ?_⟩
  · exact (hwrites.mem_mark_iff (show (Token.tempo _).IsMark from trivial)).2 hready.tempo
  · exact (hwrites.mem_mark_iff (show (Token.instrument _).IsMark from trivial)).2 hready.instrument

theorem Stepped.marked {behind : List Char} {act : Act} {outcome : Nat}
    (hstepped : Stepped composer behind act depth outcome after) (hunder : Underway depth composer)
    (hmarked : composer.Marked) : after.Marked := by
  cases hstepped with
  | idle => exact hmarked
  | turn => exact ⟨hmarked.marks, hmarked.tempo, hmarked.instrument⟩
  | stroke _ hstroke => exact hmarked.horizontalStroke hunder hstroke
  | stepPitch _ hstep =>
    obtain ⟨pitch, _, rfl⟩ := stepPitch_ok hstep
    exact ⟨hmarked.marks, hmarked.tempo, hmarked.instrument⟩
  | openBranch => exact hmarked.openBranch hunder
  | closeBranch _ hclose => exact hmarked.closeBranch hunder hclose
  | shiftHue times =>
    exact hmarked.of_marks (shiftHue_sameSetting composer times behind).config
      (congrArg (·.score.written) (shiftHue_eq composer times behind)) (composer.hueMarks_markOf times behind)

/-! ### Export -/

omit [Source σ W] in
theorem Marked.readable (hmarked : composer.Marked) (hunder : Underway depth composer)
    (hinstrument : 0 ≤ composer.config.instrument) : ∀ token ∈ composer.score.written, token.Readable := by
  intro token htoken
  refine (hunder.scored.composed token htoken).readable ?_
  have hmark := hmarked.marks token htoken
  cases token with
  | tempo beats =>
    have hbeats : beats = composer.config.tempo := hmark trivial
    exact hbeats ▸ Int.le_of_lt hunder.fit.valid.tempo
  | instrument number =>
    have hnumber : number = composer.config.instrument := hmark trivial
    exact hnumber ▸ hinstrument
  | voice | layer => exact (hmark trivial).1
  | control controller value =>
    obtain ⟨rfl, hvalue⟩ : controller = hueController ∧ 0 ≤ value := hmark trivial
    exact ⟨by decide, hvalue⟩
  | _ => trivial

omit [Source σ W] in
theorem Marked.exportable (hmarked : composer.Marked) (hunder : Underway depth composer) (htempo : 4 ≤ composer.config.tempo)
    (hdouble : Midi.exceedsDouble composer.config.tempo.toNat = false) :
    ∀ token ∈ composer.score.tokens, Midi.Exportable token := by
  intro token htoken
  rw [Score.tokens, List.mem_reverse] at htoken
  have hmark := hmarked.marks token htoken
  cases token with
  | tempo beats =>
    have hbeats : beats = composer.config.tempo := hmark trivial
    exact hbeats ▸ ⟨htempo, hdouble⟩
  | voice number | layer number =>
    have hbounds : 0 ≤ number ∧ number ≤ 16 := hmark trivial
    have hlimit : 10 ^ 2 ≤ 10 ^ Fault.digitLimit := Nat.pow_le_pow_right (by decide) (by decide)
    exact Nat.lt_of_lt_of_le (show number.natAbs < 10 ^ 2 by omega) hlimit
  | control controller value =>
    obtain ⟨rfl, hvalue⟩ : controller = hueController ∧ 0 ≤ value := hmark trivial
    exact ⟨by decide, hvalue⟩
  | notes first others =>
    intro note hnote
    have hallowed := hunder.scored.pitches _ htoken note.pitch (List.mem_map_of_mem hnote)
    exact ⟨Int.le_trans hunder.fit.valid.low hallowed.low, Int.le_trans hallowed.high hunder.fit.valid.high⟩
  | _ => trivial

omit [Source σ W] in
/-- A score that a pass has written is exported if and only if its tempo and its instrument can be. -/
theorem Marked.exported_iff (hmarked : composer.Marked) (hunder : Underway depth composer) :
    (∃ file, composer.score.events?.bind Midi.File.ofEvents = .ok file) ↔
      0 ≤ composer.config.instrument ∧ 4 ≤ composer.config.tempo ∧
        Midi.exceedsDouble composer.config.tempo.toNat = false := by
  constructor
  · rintro ⟨file, hfile⟩
    obtain ⟨events, hevents, hmade⟩ := Except.bind_eq_ok_iff.1 hfile
    have hinstrument : 0 ≤ composer.config.instrument := by
      by_contra hnegative
      obtain ⟨tokens, htokens, _⟩ := Except.map_eq_ok_iff.1 hevents
      obtain ⟨token, hread⟩ := Except.isOk_of_mem_of_mapM htokens
        (List.mem_map_of_mem (List.mem_reverse.2 hmarked.instrument))
      rw [Token.read_instrument_of_neg (Int.not_le.1 hnegative)] at hread
      cases hread
    rw [Score.events?_eq_ok (hmarked.readable hunder hinstrument), Reading.heard_eq] at hevents
    cases hevents
    exact ⟨hinstrument, Midi.tempo_of_ofEvents hmade (List.mem_reverse.2 hmarked.tempo)⟩
  · rintro ⟨hinstrument, htempo, hdouble⟩
    obtain ⟨file, hfile⟩ := Midi.ofTokens_isOk (hmarked.exportable hunder htempo hdouble)
    refine ⟨file, ?_⟩
    rw [Score.events?_eq_ok (hmarked.readable hunder hinstrument), Reading.heard_eq]
    exact hfile

variable [LawfulWeight W]

/-- Composing a well-nested production succeeds, and the score can be exported if and only if the instrument is not negative and the tempo is one that a beat of three bytes and a double have room for. -/
theorem composed_exportable_iff {config : Config} (hreached : Reached config composer)
    (hhandlers : composer.handlers = defaultHandlers) {production : List Char} (hnested : Nested production) :
    (composer.compose production).account.result = .ok () ∧
      ((∃ file, (composer.compose production).state.score.events?.bind Midi.File.ofEvents = .ok file) ↔
        0 ≤ config.instrument ∧ 4 ≤ config.tempo ∧ Midi.exceedsDouble config.tempo.toNat = false) := by
  obtain ⟨hfit, hconfig⟩ := hreached.fitWith
  obtain ⟨key, corpus, source, restart, _, hcomes⟩ := hreached.comesFrom
  have htempo : composer.score.tempo = composer.config.tempo := hcomes.tempo.trans (congrArg Config.tempo hconfig).symm
  have hbegun := begun_underway hfit hhandlers
  have hwhole : Nested (production ++ []) := by rwa [List.append_nil]
  obtain ⟨after, hpass, hwalk, hunder⟩ := passTo_isOk hfit hhandlers hwhole
  obtain ⟨reports, hcompose⟩ := compose_of_passTo ((checkBrackets_eq_ok_iff production).2 hnested) hpass
  have hmarked := (walkOver_keeps (fun _ now => now.Marked) (fun hunder hstepped hmarked => hstepped.marked hunder hmarked)
    hbegun hwhole hwalk (begun_marked hfit htempo)).2
  have hafter : after.config = config := hreached.config_of_compose hcompose
  rw [hcompose]
  exact ⟨rfl, hafter ▸ hmarked.exported_iff hunder⟩

theorem composed_exportable_iff_markov :
    ∃ composer : Composer (Script Float) Float, Reached { markov := true } composer ∧ composer.handlers = defaultHandlers ∧
      Nested "g[+g]#f".toList ∧
      ∃ file, (composer.compose "g[+g]#f".toList).state.score.events?.bind Midi.File.ofEvents = .ok file := by
  obtain ⟨composer, hreached, hhandlers, _⟩ := exists_reached_markov
  have hnested : Nested "g[+g]#f".toList := by decide
  obtain ⟨_, hexported⟩ := composed_exportable_iff hreached hhandlers hnested
  exact ⟨composer, hreached, hhandlers, hnested, hexported.2 ⟨by decide, by decide, by decide⟩⟩

/-- Settings may name an instrument below zero, which the head of every score then names with a sign and no reader of scores accepts. -/
theorem composed_refused_instrument :
    ∃ composer : Composer (Script Float) Float, Reached { instrument := -5 } composer ∧
      composer.handlers = defaultHandlers ∧ Nested "g".toList ∧
      (composer.compose "g".toList).account.result = .ok () ∧
      (composer.compose "g".toList).state.score.events?.bind Midi.File.ofEvents = .error (.unknownToken "I-5") := by
  have hmade : ∃ (composer : Composer (Script Float) Float) (reports : List Report),
      make { instrument := -5 } none ⟨#[], 0⟩ none = .ok (composer, reports) ∧ composer.handlers = defaultHandlers ∧
        (composer.compose "g".toList).account.result = .ok () ∧
        (composer.compose "g".toList).state.score.events?.bind Midi.File.ofEvents = .error (.unknownToken "I-5") :=
    ⟨_, _, rfl, rfl, rfl, rfl⟩
  obtain ⟨composer, reports, hmade, hhandlers, hcomposed, hrefused⟩ := hmade
  exact ⟨composer, Reached.made (by simp) hmade, hhandlers, by decide, hcomposed, hrefused⟩

end Composer

end TurtleMusic
