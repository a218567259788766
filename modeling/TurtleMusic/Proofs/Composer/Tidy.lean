import TurtleMusic.Proofs.Composer.Clock
import TurtleMusic.Proofs.Score.Merging

/-!
# Composed scores are tidy

Whatever comes between two strokes of a pass, be it a bar line, a layer, a voice or a hue, the score stays without rests that could be one, and each rest is encoded the way its length is. Nothing left to chance, notes of one length are all that is struck, and each is joined to a note of the same pitch just before it; so the notes written tell how often there was a stroke.
-/

namespace TurtleMusic.Composer

open TurtleMusic.Number TurtleMusic.Chance TurtleMusic.Grammar

variable {σ W : Type} [Weight W] {composer after : Composer σ W} {depth : Nat}

/-! ### Marks -/

omit [Weight W] in
/-- What goes by quietly writes marks that composing writes. -/
theorem Quiet.marks (hquiet : Quiet composer after) (hscored : after.Scored) :
    ∃ marks, after.score.written = marks ++ composer.score.written ∧ ∀ mark ∈ marks, mark.Composed ∧ mark.IsMark := by
  obtain ⟨marks, hwritten, hmarks⟩ := hquiet.written
  refine ⟨marks, hwritten, fun mark hmark => ⟨hscored.composed mark ?_, (hmarks mark hmark).1⟩⟩
  exact hwritten ▸ List.mem_append_left _ hmark

variable [Source σ W]

/-! ### Rests -/

theorem Stepped.merged {behind : List Char} {act : Act} {outcome : Nat}
    (hstepped : Stepped composer behind act depth outcome after) (hunder : Underway depth composer)
    (hmerged : Merged composer.score.written) : Merged after.score.written := by
  obtain ⟨sounding, _, hstroke⟩ | ⟨_, hquiet, _⟩ := hstepped.stroke_or_still hunder
  · obtain ⟨stroke, chosen, score, hchosen, hwrite, rfl⟩ := horizontalStroke_ok hstroke
    obtain ⟨beat, hadvance⟩ := advance_eq { chosen with score } stroke.length
    have hkept := chooseStroke_chosen hchosen
    obtain ⟨marks, hwritten, hmarks⟩ := hkept.marks
    have hready : Merged chosen.score.written := hwritten ▸ hmerged.of_marks hmarks
    have hdone : Merged score.written := Score.write_merged (hkept.scored hunder.scored).composed hready hwrite
    rw [hadvance]
    exact hdone
  · obtain ⟨marks, hwritten, hmarks⟩ := hquiet.marks (hstepped.underway hunder).scored
    exact hwritten ▸ hmerged.of_marks hmarks

/-! ### Notes -/

/-- Nothing left to chance, a stroke is a note where the turtle is, or a rest, of the length that is set; choosing it changes nothing. -/
theorem chooseStroke_plain (hplain : composer.config.markov = false) (sounding : Bool) :
    composer.chooseStroke sounding = .ok (if sounding then .note composer.turtle.pose.y composer.config.noteUnits true
      else .rest composer.config.noteUnits, composer) := by
  have hlength : composer.takeLength = (composer.config.noteUnits, composer) := by
    simp only [takeLength, hplain, Bool.false_eq_true, if_false]
  rw [chooseStroke, hlength]
  cases sounding with
  | true =>
    simp only [chooseSound, hplain, Bool.false_eq_true, if_true, if_false]
    rfl
  | false => rfl

theorem Stepped.struck {behind : List Char} {act : Act} {outcome : Nat} {unit : Codes}
    (hstepped : Stepped composer behind act depth outcome after) (hunder : Underway depth composer)
    (hplain : composer.config.markov = false) (hunit : Codes.ofLength composer.config.noteUnits = .ok unit)
    (hstruck : Struck unit composer.score.events composer.score.written) :
    Struck unit after.score.events after.score.written := by
  obtain ⟨sounding, _, hstroke⟩ | ⟨_, hquiet, _, hevents⟩ := hstepped.stroke_or_still hunder
  · obtain ⟨stroke, chosen, score, hchosen, hwrite, rfl⟩ := horizontalStroke_ok hstroke
    obtain ⟨beat, hadvance⟩ := advance_eq { chosen with score } stroke.length
    rw [chooseStroke_plain hplain] at hchosen
    cases hchosen
    have hdone : Struck unit score.events score.written := by
      cases sounding with
      | true => exact Score.write_note_struck hunder.scored.composed hstruck hunit hwrite
      | false => exact Score.write_rest_struck hunder.scored.composed hstruck hwrite
    rw [hadvance]
    exact hdone
  · obtain ⟨marks, hwritten, hmarks⟩ := hquiet.marks (hstepped.underway hunder).scored
    rw [hwritten, hevents]
    exact hstruck.of_marks hmarks

/-! ### Whole passes -/

variable [LawfulWeight W]

/-- A composed score holds nothing but tokens that composing writes. No rest of it follows a rest, and each is encoded the way its length is. Nothing left to chance, no note follows one of the same pitch, each is the codes of the length that is set, written as often as it was struck, and these strokes are all that were counted. -/
theorem composed_tidy {config : Config} (hreached : Reached config composer) (hhandlers : composer.handlers = defaultHandlers)
    {production : List Char} (hnested : Nested production) :
    ∃ after reports, composer.compose production = ⟨after, ⟨reports, .ok ()⟩⟩ ∧
      (∀ token ∈ after.score.tokens, token.Composed) ∧ Merged after.score.tokens ∧
      (config.markov = false → ∃ unit, Codes.ofLength config.noteUnits = .ok unit ∧
        Struck unit after.score.events after.score.tokens) := by
  obtain ⟨hfit, hconfig⟩ := hreached.fitWith
  have hbegun := begun_underway hfit hhandlers
  have hwhole : Nested (production ++ []) := by rwa [List.append_nil]
  obtain ⟨after, reports, hcompose, hwalk, hunder⟩ := compose_walk hfit hhandlers hnested
  refine ⟨after, reports, hcompose, fun token htoken => ?_, ?_, fun hplain => ?_⟩
  · exact hunder.scored.composed token (List.mem_reverse.1 htoken)
  · have hbegunMerged : Merged composer.begun.score.written := by
      simpa using Merged.nil.of_marks (begun_marks composer)
    have hmerged := (walkOver_keeps (fun _ now => Merged now.score.written)
      (fun hunder hstepped hmerged => hstepped.merged hunder hmerged) hbegun hwhole hwalk hbegunMerged).2
    exact hmerged.reverse
  · have hunit := Codes.ofLength_eq_ok (hconfig ▸ hfit.valid.noteUnits)
    have hbegunStruck : Struck (.ofUnits config.noteUnits.toNat) 0 composer.begun.score.written := by
      simpa using (Struck.nil _).of_marks (begun_marks composer)
    have hstruck := (walkOver_keeps
      (fun _ now => now.config = config ∧ Struck (.ofUnits config.noteUnits.toNat) now.score.events now.score.written)
      (fun hunder hstepped hkept => ⟨hstepped.sameSetting.config.trans hkept.1,
        hstepped.struck hunder (hkept.1 ▸ hplain) (hkept.1 ▸ hunit) hkept.2⟩)
      hbegun hwhole hwalk ⟨hconfig, hbegunStruck⟩).2.2
    exact ⟨_, hunit, hstruck.reverse⟩

/-- Rests and notes of an odd length, with hues and branches between them. -/
theorem composed_tidy_septuplets :
    ∃ composer after : Composer (Script Float) Float, ∃ reports unit, Reached { noteUnits := 7 } composer ∧
      composer.compose "ggfr#g[g+g-f]fr".toList = ⟨after, ⟨reports, .ok ()⟩⟩ ∧ Merged after.score.tokens ∧
      Codes.ofLength 7 = .ok unit ∧ Struck unit after.score.events after.score.tokens := by
  obtain ⟨composer, told, hmade, hhandlers⟩ : ∃ (composer : Composer (Script Float) Float) (reports : List Report),
      make { noteUnits := 7 } none ⟨#[], 0⟩ none = .ok (composer, reports) ∧ composer.handlers = defaultHandlers :=
    ⟨_, _, rfl, rfl⟩
  have hreached : Reached { noteUnits := 7 } composer := Reached.made (by simp) hmade
  obtain ⟨after, reports, hcompose, _, hmerged, hplain⟩ :=
    composed_tidy hreached hhandlers (show Nested "ggfr#g[g+g-f]fr".toList by decide)
  obtain ⟨unit, hunit, hstruck⟩ := hplain rfl
  exact ⟨composer, after, reports, unit, hreached, hcompose, hmerged, hunit, hstruck⟩

end TurtleMusic.Composer
