import TurtleMusic.Proofs.Composer.HueRuns
import TurtleMusic.Proofs.Composer.Totality

/-!
# Hues in a score

A hue is written as a controller value, one for a run of hue characters. A pass meets the last character of each run in turn, and there, and nowhere else, writes the hue that the turtle has come to.
-/

namespace TurtleMusic

/-- Strokes leave alone what is told by marks. -/
theorem Writes.filterMap_eq {α : Type} {stroke : Stroke} {before after : List Token} (hwrites : Writes stroke before after)
    {tell : Token → Option α} (htell : ∀ token, ¬token.IsMark → tell token = none) :
    after.filterMap tell = before.filterMap tell := by
  have hnotes : ∀ first others, tell (.notes first others) = none := fun first others => htell _ id
  have hpause : ∀ codes, tell (.pause codes) = none := fun codes => htell _ id
  cases hwrites with
  | notes => exact List.filterMap_cons_none (hnotes _ _)
  | longerNote => rw [List.filterMap_cons_none (hnotes _ _), List.filterMap_cons_none (hnotes _ _)]
  | rest => rw [List.filterMap_cons_none (hpause _)]
  | longerRest => rw [List.filterMap_cons_none (hpause _), List.filterMap_cons_none (hpause _)]

namespace Composer

open TurtleMusic.Number TurtleMusic.Chance TurtleMusic.Grammar

variable {σ W : Type} {composer origin after : Composer σ W} {depth outcome : Nat} {symbol : Char} {behind : List Char}

/-- The value of a token that writes a hue. -/
def writtenHue? : Token → Option Int
  | .control controller value => if controller = hueController then some value else none
  | _ => none

/-- The values of hues in a score, in the order in which they are written. -/
def writtenHues (score : Score) : List Int := score.tokens.filterMap writtenHue?

theorem writtenHues_append {before after : Score} {marks : List Token} (hwritten : after.written = marks ++ before.written) :
    writtenHues after = writtenHues before ++ (marks.filterMap writtenHue?).reverse := by
  simp only [writtenHues, Score.tokens, hwritten, List.reverse_append, List.filterMap_append, List.filterMap_reverse]

/-- Marks that write no hue leave the hues as they are. -/
theorem writtenHues_of_marks {before after : Score} {marks : List Token} (hwritten : after.written = marks ++ before.written)
    (hmarks : marks.filterMap writtenHue? = []) : writtenHues after = writtenHues before := by
  rw [writtenHues_append hwritten, hmarks, List.reverse_nil, List.append_nil]

theorem hueValue_mem {hue : Int} (hhue : 380 ≤ hue ∧ hue ≤ 750) : 0 ≤ hueValue hue ∧ hueValue hue ≤ 123 := by
  simp only [hueValue, Hue.highest]
  omega

variable [Weight W] [Source σ W]

/-! ### One character -/

theorem horizontalStroke_hues {sounding : Bool} (hunder : Underway depth composer)
    (hstroke : composer.horizontalStroke sounding = .ok after) : writtenHues after.score = writtenHues composer.score := by
  obtain ⟨stroke, chosen, score, hchosen, hwrite, rfl⟩ := horizontalStroke_ok hstroke
  obtain ⟨beat, hadvance⟩ := advance_eq { chosen with score } stroke.length
  have hkept := chooseStroke_chosen hchosen
  obtain ⟨bars, hwritten⟩ := hkept.written
  have hready : writtenHues chosen.score = writtenHues composer.score :=
    writtenHues_of_marks hwritten (by simp [writtenHue?])
  have hwrites := Score.write_writes (hkept.scored hunder.scored).composed hwrite
  have hdone : writtenHues score = writtenHues chosen.score := by
    have htell : ∀ token : Token, ¬token.IsMark → writtenHue? token = none := by
      intro token hplayed
      cases token with
      | control => exact absurd trivial hplayed
      | _ => rfl
    rw [writtenHues, writtenHues, Score.tokens, Score.tokens, List.filterMap_reverse, List.filterMap_reverse,
      hwrites.filterMap_eq htell]
  rw [hadvance]
  exact hdone.trans hready

theorem Stepped.hues (hstepped : Stepped composer behind (composer.act symbol) depth outcome after)
    (hunder : Underway depth composer) :
    writtenHues after.score = writtenHues composer.score ++
      if isHueSymbol symbol && !hueFollows behind then [hueValue after.turtle.pose.hue] else [] := by
  cases hhue : isHueSymbol symbol with
  | true =>
    obtain ⟨times, hact⟩ := composer.act_hue hhue
    rw [hact] at hstepped
    cases hstepped
    rw [shiftHue_eq]
    refine (writtenHues_append rfl).trans ?_
    cases hfollows : hueFollows behind <;> simp [hueMarks, hfollows, writtenHue?]
  | false =>
    have hother := composer.act_ne_shiftHue hhue
    generalize composer.act symbol = act at hstepped hother
    rw [Bool.false_and, if_neg Bool.false_ne_true, List.append_nil]
    cases hstepped with
    | idle | turn => rfl
    | stroke _ hstroke => exact horizontalStroke_hues hunder hstroke
    | stepPitch _ hstep =>
      obtain ⟨pitch, _, rfl⟩ := stepPitch_ok hstep
      rfl
    | openBranch =>
      by_cases hbelow : depth < 255
      · rw [openBranch_eq hunder.branched hbelow]
        apply writtenHues_of_marks rfl
        rw [openingMarks]
        split <;> rfl
      · rw [openBranch_flat hunder.branched (Nat.not_lt.1 hbelow)]
    | closeBranch _ hclose =>
      obtain ⟨pose, outer, _, _, rfl⟩ | ⟨_, rfl⟩ := closeBranch_cases hunder.branched hclose
      · apply writtenHues_of_marks rfl
        rw [closingMarks]
        split <;> rfl
      · rfl
    | shiftHue times => exact absurd rfl (hother times)

theorem Stepped.hue_mem (hstepped : Stepped composer behind (composer.act symbol) depth outcome after)
    (hhue : isHueSymbol symbol = true) : 380 ≤ after.turtle.pose.hue ∧ after.turtle.pose.hue ≤ 750 := by
  obtain ⟨times, hact⟩ := composer.act_hue hhue
  rw [hact] at hstepped
  cases hstepped
  rw [shiftHue_eq]
  exact Hue.visible_mem _

/-! ### Whole passes -/

/-- The value stands for the hue that the turtle has when a pass has come to the end of a part of its production. -/
def ShowsHue (origin : Composer σ W) (part : Part) (value : Int) : Prop :=
  ∃ now, origin.passTo (part.before ++ part.inner) part.behind = .ok now ∧
    (380 ≤ now.turtle.pose.hue ∧ now.turtle.pose.hue ≤ 750) ∧ value = (750 - now.turtle.pose.hue) / 3 ∧
    0 ≤ value ∧ value ≤ 123

/-- A pass that has come to some place goes on to write one value for every run that ends behind it. -/
theorem walkOver_hues {past text : List Char} (hunder : Underway depth composer) (hclosing : Closing depth text)
    (hpast : origin.passTo past.reverse text = .ok composer)
    (hwalk : walkOver [] composer past.length text = .ok after) :
    ∃ values, writtenHues after.score = writtenHues composer.score ++ values ∧
      List.Forall₂ origin.ShowsHue (hueRunsFrom past text) values := by
  induction text generalizing composer depth past with
  | nil =>
    cases hwalk
    exact ⟨[], (List.append_nil _).symm, List.Forall₂.nil⟩
  | cons symbol rest ih =>
    obtain ⟨⟨now, reports⟩, hstep, hrest⟩ := Except.bind_eq_ok_iff.1 hwalk
    rw [List.append_nil] at hstep
    have hstepped := stepped_of_carryOut hclosing (step_ok hunder.handlers hstep)
    have hnow : origin.passTo (symbol :: past).reverse rest = .ok now := by
      rw [List.reverse_cons, passTo_append, List.singleton_append, hpast, List.length_reverse]
      change (composer.step past.length symbol rest).bind _ = _
      rw [hstep]
      rfl
    obtain ⟨values, hvalues, hruns⟩ := ih (hstepped.underway hunder) hclosing.tail hnow hrest
    have hhere := hstepped.hues hunder
    rw [hueRunsFrom]
    cases hends : isHueSymbol symbol && !hueFollows rest with
    | false =>
      rw [hends, if_neg Bool.false_ne_true, List.append_nil] at hhere
      rw [if_neg Bool.false_ne_true, List.nil_append]
      exact ⟨values, hhere ▸ hvalues, hruns⟩
    | true =>
      rw [hends, if_pos rfl] at hhere
      rw [if_pos rfl, List.singleton_append]
      have hhue := hstepped.hue_mem (Bool.and_eq_true_iff.1 hends).1
      refine ⟨hueValue now.turtle.pose.hue :: values, ?_, List.Forall₂.cons ⟨now, ?_, hhue, rfl, hueValue_mem hhue⟩ hruns⟩
      · rw [hvalues, hhere, List.append_assoc, List.singleton_append]
      · rw [runEndingAt_upTo]
        exact hnow

variable [LawfulWeight W]

/-- The runs of hue characters in a production that no longer one contains, in their order, and the hues that composing it writes belong together one by one. -/
theorem hues_written_by_runs {config : Config} (hreached : Reached config composer)
    (hhandlers : composer.handlers = defaultHandlers) {production : List Char} (hnested : Nested production) :
    ∃ after reports, composer.compose production = ⟨after, ⟨reports, .ok ()⟩⟩ ∧
      (∀ token ∈ after.score.tokens, token.Composed) ∧
      (∀ part, part ∈ hueRuns production ↔ part.whole = production ∧ part.IsMaximalHueRun) ∧
      (hueRuns production).Pairwise (fun left right => left.finish < right.finish) ∧
      List.Forall₂ composer.ShowsHue (hueRuns production) (writtenHues after.score) := by
  have hfit := hreached.fitWith.1
  have hbegun := begun_underway hfit hhandlers
  obtain ⟨after, reports, hcompose, hwalk, hunder⟩ := compose_walk hfit hhandlers hnested
  obtain ⟨told, hbegin⟩ := begin_eq_ok hfit.valid
  have hstart : composer.passTo [].reverse production = .ok composer.begun := by
    rw [passTo, hbegin]
    rfl
  obtain ⟨values, hvalues, hruns⟩ := walkOver_hues hbegun hnested hstart hwalk
  have hnone : writtenHues composer.begun.score = [] := rfl
  rw [hnone, List.nil_append] at hvalues
  subst hvalues
  refine ⟨after, reports, hcompose, fun token htoken => ?_, fun part => mem_hueRuns_iff, hueRunsFrom_pairwise [] production, hruns⟩
  exact hunder.scored.composed token (List.mem_reverse.1 htoken)

/-- Steps of a thousand are brought back into the range each time; three runs write three values. -/
theorem hues_written_by_runs_wide :
    ∃ composer after : Composer (Script Float) Float, ∃ reports, Reached { hueStep := 1000 } composer ∧
      composer.compose "## @g[#X@]".toList = ⟨after, ⟨reports, .ok ()⟩⟩ ∧ (writtenHues after.score).length = 3 ∧
      List.Forall₂ composer.ShowsHue (hueRuns "## @g[#X@]".toList) (writtenHues after.score) := by
  obtain ⟨composer, told, hmade, hhandlers⟩ : ∃ (composer : Composer (Script Float) Float) (reports : List Report),
      make { hueStep := 1000 } none ⟨#[], 0⟩ none = .ok (composer, reports) ∧ composer.handlers = defaultHandlers :=
    ⟨_, _, rfl, rfl⟩
  have hreached : Reached { hueStep := 1000 } composer := Reached.made (by simp) hmade
  obtain ⟨after, reports, hcompose, _, _, _, hruns⟩ :=
    hues_written_by_runs hreached hhandlers (show Nested "## @g[#X@]".toList by decide)
  have hcount : (hueRuns "## @g[#X@]".toList).length = 3 := by decide
  exact ⟨composer, after, reports, hreached, hcompose, hruns.length_eq ▸ hcount, hruns⟩

end Composer

end TurtleMusic
