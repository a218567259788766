import TurtleMusic.Proofs.Composer.Agreement
import TurtleMusic.Proofs.Score.Bars

/-!
# The moments of a pass

A pass is told by the strokes it writes, each with the composer before and after. Whatever happens between two of them concerns the turtle and the branches; clockwork, chance, chords and the notes remembered stay as they are. So what is to hold of all strokes of a pass has to be followed through single strokes only.
-/

namespace TurtleMusic.Composer

open TurtleMusic.Number TurtleMusic.Chance TurtleMusic.Grammar

variable {σ W : Type} [Weight W] {composer before after : Composer σ W} {depth : Nat}

/-- The writing of a stroke, with the composer before and after. -/
structure Moment (σ W : Type) where
  before : Composer σ W
  stroke : Stroke
  after : Composer σ W

/-- The measure a stroke is written in, counted from nought by the bar lines before it. -/
def Moment.measure (moment : Moment σ W) : Nat := moment.after.score.bars

/-- What stays from the end of a stroke to the beginning of the next. -/
structure Quiet (before after : Composer σ W) : Prop where
  source : after.source = before.source
  progression : after.progression = before.progression
  durations : after.durations = before.durations
  measures : after.measures = before.measures
  chordDue : after.chordDue = before.chordDue
  note : after.score.note = before.score.note
  previousNote : after.score.previousNote = before.score.previousNote
  position : after.score.position = before.score.position
  written : ∃ marks, after.score.written = marks ++ before.score.written ∧ ∀ mark ∈ marks, mark.IsMark ∧ mark ≠ .measure

omit [Weight W] in
theorem Quiet.of_sameScore (hsource : after.source = before.source) (hprogression : after.progression = before.progression)
    (hdurations : after.durations = before.durations) (hmeasures : after.measures = before.measures)
    (hdue : after.chordDue = before.chordDue) (hscore : after.score = { before.score with degree := after.score.degree }) :
    Quiet before after := by
  refine ⟨hsource, hprogression, hdurations, hmeasures, hdue, ?_, ?_, ?_, [], ?_, by simp⟩
  all_goals rw [hscore]
  rfl

omit [Weight W] in
theorem openBranch_quiet (hbranched : Branched depth composer) : Quiet composer composer.openBranch := by
  by_cases hbelow : depth < 255
  · rw [openBranch_eq hbranched hbelow]
    exact ⟨rfl, rfl, rfl, rfl, rfl, rfl, rfl, rfl, _, rfl, openingMarks_plain depth _⟩
  · rw [openBranch_flat hbranched (Nat.not_lt.1 hbelow)]
    exact Quiet.of_sameScore rfl rfl rfl rfl rfl rfl

omit [Weight W] in
theorem closeBranch_quiet (hbranched : Branched (depth + 1) composer) (hclose : composer.closeBranch = .ok after) :
    Quiet composer after := by
  obtain ⟨pose, outer, _, _, rfl⟩ | ⟨_, rfl⟩ := closeBranch_cases hbranched hclose
  · exact ⟨rfl, rfl, rfl, rfl, rfl, rfl, rfl, rfl, _, rfl, closingMarks_plain depth⟩
  · exact Quiet.of_sameScore rfl rfl rfl rfl rfl rfl

variable [Source σ W]

/-- Every act is a stroke along the time axis or goes by quietly. -/
theorem Stepped.stroke_or_quiet {behind : List Char} {act : Act} {outcome : Nat}
    (hstepped : Stepped composer behind act depth outcome after) (hunder : Underway depth composer) :
    (∃ sounding, act = .stroke sounding ∧ composer.horizontalStroke sounding = .ok after) ∨
      (composer.strokeBy? act = none ∧ Quiet composer after) := by
  cases hstepped with
  | stroke _ hstroke => exact .inl ⟨_, rfl, hstroke⟩
  | idle | turn => exact .inr ⟨rfl, Quiet.of_sameScore rfl rfl rfl rfl rfl rfl⟩
  | stepPitch _ hstep =>
    obtain ⟨pitch, _, rfl⟩ := stepPitch_ok hstep
    exact .inr ⟨rfl, Quiet.of_sameScore rfl rfl rfl rfl rfl rfl⟩
  | openBranch => exact .inr ⟨rfl, openBranch_quiet hunder.branched⟩
  | closeBranch _ hclose => exact .inr ⟨rfl, closeBranch_quiet hunder.branched hclose⟩
  | shiftHue times =>
    rw [shiftHue_eq]
    exact .inr ⟨rfl, rfl, rfl, rfl, rfl, rfl, rfl, rfl, rfl, _, rfl, composer.hueMarks_plain times behind⟩

/-! ### Following a pass -/

/-- The moments of some characters, one after the other. -/
def momentsFrom (composer : Composer σ W) (index : Nat) : List Char → List (Moment σ W)
  | [] => []
  | symbol :: rest =>
    match composer.step index symbol rest with
    | .error _ => []
    | .ok (after, _) =>
      ((composer.strokeOf? symbol).map fun stroke => ⟨composer, stroke, after⟩).toList ++ momentsFrom after (index + 1) rest

def momentsOf (composer : Composer σ W) (production : List Char) : List (Moment σ W) :=
  match composer.begin with
  | .error _ => []
  | .ok (begun, _) => begun.momentsFrom 0 production

theorem momentsFrom_strokes (composer : Composer σ W) (index : Nat) (text : List Char) :
    (composer.momentsFrom index text).map (·.stroke) = (composer.strokesFrom index text).map (·.2) := by
  induction text generalizing composer index with
  | nil => rfl
  | cons symbol rest ih =>
    rw [momentsFrom, strokesFrom]
    cases composer.step index symbol rest with
    | error => rfl
    | ok outcome =>
      dsimp only
      rw [List.map_append, List.map_append, ih]
      cases composer.strokeOf? symbol <;> rfl

/-- The moments of a pass tell its strokes, all of them and in their order. -/
theorem momentsOf_strokes (composer : Composer σ W) (production : List Char) :
    (composer.momentsOf production).map (·.stroke) = (composer.strokesOf production).map (·.2) := by
  rw [momentsOf, strokesOf]
  cases composer.begin with
  | error => rfl
  | ok outcome => exact momentsFrom_strokes outcome.1 0 production

/-- What strokes keep of a composer together with the moments so far, and what happens between them leaves alone. -/
structure Lasts (property : List (Moment σ W) → Composer σ W → Prop) : Prop where
  quiet {depth : Nat} {log : List (Moment σ W)} {before after : Composer σ W} (hunder : Underway depth before)
    (hsame : SameSetting before after) (hquiet : Quiet before after) (hproperty : property log before) : property log after
  stroke {depth : Nat} {log : List (Moment σ W)} {before chosen after : Composer σ W} {sounding : Bool} {stroke : Stroke}
    {score : Score} (hunder : Underway depth before) (hstroke : before.horizontalStroke sounding = .ok after)
    (hchoose : before.chooseStroke sounding = .ok (stroke, chosen)) (hwrite : chosen.score.write stroke = .ok score)
    (hafter : after = ({ chosen with score := score }).advance stroke.length) (hproperty : property log before) :
    property (log ++ [⟨before, stroke, after⟩]) after

variable {property : List (Moment σ W) → Composer σ W → Prop}

theorem momentsFrom_keeps (hlasts : Lasts property) {text : List Char} {index : Nat} {log : List (Moment σ W)}
    (hunder : Underway depth composer) (hclosing : Closing depth text) (hproperty : property log composer)
    (hwalk : walkOver [] composer index text = .ok after) : property (log ++ composer.momentsFrom index text) after := by
  induction text generalizing composer depth index log with
  | nil =>
    cases hwalk
    rw [momentsFrom, List.append_nil]
    exact hproperty
  | cons symbol rest ih =>
    obtain ⟨⟨now, reports⟩, hstep, hrest⟩ := Except.bind_eq_ok_iff.1 hwalk
    rw [List.append_nil] at hstep
    have hstepped := stepped_of_carryOut hclosing (step_ok hunder.handlers hstep)
    have hnow : property (log ++ ((composer.strokeOf? symbol).map fun stroke => ⟨composer, stroke, now⟩).toList) now := by
      rw [strokeOf?_eq hunder.handlers]
      rcases hstepped.stroke_or_quiet hunder with ⟨sounding, hact, hstroke⟩ | ⟨hnone, hquiet⟩
      · obtain ⟨stroke, chosen, score, hchoose, hwrite, hafter⟩ := horizontalStroke_ok hstroke
        rw [hact, strokeBy?, hchoose]
        exact hlasts.stroke hunder hstroke hchoose hwrite hafter hproperty
      · rw [hnone, Option.map_none, Option.toList_none, List.append_nil]
        exact hlasts.quiet hunder hstepped.sameSetting hquiet hproperty
    rw [momentsFrom, hstep, ← List.append_assoc]
    exact ih (hstepped.underway hunder) hclosing.tail hnow hrest

variable [LawfulWeight W]

/-- A well-nested production is composed, and what strokes keep holds of all its moments at the end. -/
theorem momentsOf_keeps (hlasts : Lasts property) (hfit : composer.Fit) (hhandlers : composer.handlers = defaultHandlers)
    (hbegun : property [] composer.begun) {production : List Char} (hnested : Nested production) :
    ∃ after reports, composer.compose production = ⟨after, ⟨reports, .ok ()⟩⟩ ∧
      property (composer.momentsOf production) after := by
  have hwhole : Nested (production ++ []) := by rwa [List.append_nil]
  obtain ⟨after, hpass, hwalk, _⟩ := passTo_isOk hfit hhandlers hwhole
  obtain ⟨reports, hcompose⟩ := compose_of_passTo ((checkBrackets_eq_ok_iff production).2 hnested) hpass
  obtain ⟨told, hbegin⟩ := begin_eq_ok hfit.valid
  have hkept := momentsFrom_keeps hlasts (begun_underway hfit hhandlers) hnested hbegun hwalk
  rw [momentsOf, hbegin]
  exact ⟨after, reports, hcompose, hkept⟩

end TurtleMusic.Composer
