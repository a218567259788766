import TurtleMusic.Proofs.Composer.Legible
import TurtleMusic.Proofs.Composer.Totality

/-!
# Branches in step

Open brackets, the scopes of the turtle, the counts of voices and layers and the place where the score is read go through a pass together. A branch leaves no trace in any of them: what is well nested inside keeps the scopes around it, so closing it finds the pose it was opened at.
-/

namespace TurtleMusic.Composer

open TurtleMusic.Number TurtleMusic.Chance TurtleMusic.Grammar

variable {σ W : Type} [Weight W] [Source σ W] {composer now after : Composer σ W} {depth : Nat}

/-! ### What a branch leaves -/

/-- Only brackets touch the scopes around. -/
theorem Stepped.outer {behind : List Char} {act : Act} {outcome : Nat}
    (hstepped : Stepped composer behind act depth outcome after) (hopen : act ≠ .openBranch) (hclose : act ≠ .closeBranch) :
    after.turtle.outer = composer.turtle.outer := by
  cases hstepped with
  | idle | turn => rfl
  | stroke _ hstroke =>
    obtain ⟨stroke, chosen, score, hchosen, _, rfl⟩ := horizontalStroke_ok hstroke
    obtain ⟨beat, hadvance⟩ := advance_eq { chosen with score } stroke.length
    rw [hadvance]
    change chosen.turtle.outer = _
    rw [(chooseStroke_chosen hchosen).turtle]
    rfl
  | stepPitch _ hstep =>
    obtain ⟨pitch, _, rfl⟩ := stepPitch_ok hstep
    rfl
  | openBranch => exact absurd rfl hopen
  | closeBranch => exact absurd rfl hclose
  | shiftHue times =>
    rw [shiftHue_eq]
    rfl

omit [Source σ W] in
/-- Closing takes back what opening did if the scopes around are still those after the opening. -/
theorem closeBranch_restores (hunder : Underway depth composer) (hinside : Underway (depth + 1) now)
    (houter : now.turtle.outer = composer.openBranch.turtle.outer) (hclose : now.closeBranch = .ok after) :
    after.turtle.outer = composer.turtle.outer ∧ (depth < 255 → after.turtle.pose = composer.turtle.pose) := by
  obtain ⟨pose, outer, hbelow, hscopes, rfl⟩ | ⟨habove, rfl⟩ := closeBranch_cases hinside.branched hclose
  · rw [openBranch_eq hunder.branched hbelow] at houter
    obtain ⟨hpose, hrest⟩ := List.cons.inj (hscopes.symm.trans houter)
    exact ⟨hrest, fun _ => hpose⟩
  · rw [openBranch_flat hunder.branched habove] at houter
    exact ⟨houter, fun hbelow => absurd hbelow (Nat.not_lt.2 habove)⟩

/-- A branch is opened, walked over and closed. -/
theorem walkOver_branch {inner behind : List Char} {index : Nat} (hinner : Nested inner) (hunder : Underway depth composer)
    (hclosing : Closing depth ('[' :: (inner ++ ']' :: behind)))
    (hwalk : walkOver behind composer index ('[' :: (inner ++ [']'])) = .ok after) :
    ∃ now, walkOver (']' :: behind) composer.openBranch (index + 1) inner = .ok now ∧ Underway (depth + 1) now ∧
      now.closeBranch = .ok after := by
  obtain ⟨⟨opened, _⟩, hopened, hrest⟩ := Except.bind_eq_ok_iff.1 hwalk
  cases step_ok hunder.handlers hopened
  rw [walkOver_append] at hrest
  obtain ⟨now, hnow, hclosed⟩ := Except.bind_eq_ok_iff.1 hrest
  have hinside := walkOver_underway hunder.openBranch hclosing.tail hnow
  rw [hinner.depthOver_self] at hinside
  obtain ⟨⟨closed, _⟩, hclose, hend⟩ := Except.bind_eq_ok_iff.1 hclosed
  cases hend
  exact ⟨now, hnow, hinside, step_ok hinside.handlers hclose⟩

/-- Whatever is well nested keeps the scopes around it. -/
theorem walkOver_outer {inner behind : List Char} {index : Nat} (hinner : Nested inner) (hunder : Underway depth composer)
    (hclosing : Closing depth (inner ++ behind)) (hwalk : walkOver behind composer index inner = .ok after) :
    after.turtle.outer = composer.turtle.outer := by
  induction hinner generalizing composer depth index behind after with
  | nil =>
    cases hwalk
    rfl
  | @plain c rest hopen hclose _ ih =>
    obtain ⟨⟨stepped, _⟩, hstep, hrest⟩ := Except.bind_eq_ok_iff.1 hwalk
    have hstepped := stepped_of_carryOut hclosing (step_ok hunder.handlers hstep)
    obtain ⟨hnotOpen, hnotClose⟩ := composer.act_plain hopen hclose
    rw [ih (hstepped.underway hunder) hclosing.tail hrest]
    exact hstepped.outer hnotOpen hnotClose
  | @scope inner rest hinner _ ihinner ihrest =>
    have hsplit : '[' :: (inner ++ ']' :: rest) = '[' :: (inner ++ [']']) ++ rest := by simp
    have hopening : Closing depth ('[' :: (inner ++ ']' :: (rest ++ behind))) := by
      simpa only [List.cons_append, List.append_assoc] using hclosing
    rw [hsplit, walkOver_append] at hwalk
    obtain ⟨closed, hbranch, hrest⟩ := Except.bind_eq_ok_iff.1 hwalk
    obtain ⟨now, hnow, hinside, hclose⟩ := walkOver_branch hinner hunder hopening hbranch
    have hkept := ihinner hunder.openBranch hopening.tail hnow
    have hafter := hopening.tail.of_append
    rw [hinner.depthOver_self] at hafter
    rw [ihrest (hinside.closeBranch hclose) hafter.tail hrest]
    exact (closeBranch_restores hunder hinside hkept hclose).1

/-! ### Through a pass -/

/-- Voices, layers, scopes and the place where the score is read are those of this many open brackets. -/
structure InStep (depth : Nat) (composer : Composer σ W) : Prop where
  voices : 1 ≤ composer.score.voices ∧ composer.score.voices ≤ 16
  layers : 1 ≤ composer.score.layers ∧ composer.score.layers ≤ 16
  count : (composer.score.voices - 1) * 16 + (composer.score.layers - 1) = (min depth 255 : Nat)
  scopes : composer.turtle.depth = min depth 255 + 1
  reading : ∃ tokens, composer.score.tokenTexts.mapM Token.read = .ok tokens ∧
    (Reading.past {} tokens).voice = composer.score.voices - 1 ∧
      (Reading.past {} tokens).layer = composer.score.layers - 1

omit [Source σ W] in
theorem Underway.inStep (hunder : Underway depth composer) (hlegible : composer.Legible) : InStep depth composer := by
  obtain ⟨_, hvoices, hlayers, houter⟩ := hunder.branched
  refine ⟨by omega, by omega, by omega, by rw [Turtle.depth, houter], ?_⟩
  refine ⟨composer.score.tokens, composer.score.mapM_read_tokenTexts (hunder.readable hlegible), ?_⟩
  rw [Score.tokens, Reading.past_reverse]
  exact ⟨congrArg Prod.fst hlegible.slot, congrArg Prod.snd hlegible.slot⟩

/-- What a branch leaves as it was. -/
structure SamePlace (before after : Composer σ W) : Prop where
  pose : after.turtle.pose = before.turtle.pose
  degree : after.score.degree = before.score.degree
  voices : after.score.voices = before.score.voices
  layers : after.score.layers = before.score.layers

omit [Source σ W] in
theorem samePlace_of_pose (hunder : Underway depth composer) (hafter : Underway depth after)
    (hsame : SameSetting composer after) (hpose : after.turtle.pose = composer.turtle.pose) : SamePlace composer after where
  pose := hpose
  degree := by rw [hafter.tuned.degree, hunder.tuned.degree, heightDegree, heightDegree, hsame.keyClass, hpose]
  voices := hafter.branched.voices.trans hunder.branched.voices.symm
  layers := hafter.branched.layers.trans hunder.branched.layers.symm

theorem walkOver_branch_samePlace {inner behind : List Char} {index : Nat} (hinner : Nested inner)
    (hunder : Underway depth composer) (hclosing : Closing depth ('[' :: (inner ++ ']' :: behind))) (hbelow : depth < 255)
    (hwalk : walkOver behind composer index ('[' :: (inner ++ [']'])) = .ok after) : SamePlace composer after := by
  obtain ⟨now, hnow, hinside, hclose⟩ := walkOver_branch hinner hunder hclosing hwalk
  have hkept := walkOver_outer hinner hunder.openBranch hclosing.tail hnow
  have hpose := (closeBranch_restores hunder hinside hkept hclose).2 hbelow
  have hsame := ((openBranch_sameSetting composer).trans
    (walkOver_sameSetting hunder.openBranch hclosing.tail hnow)).trans (closeBranch_sameSetting hclose)
  exact samePlace_of_pose hunder (hinside.closeBranch hclose) hsame hpose

theorem step_flat_open {behind : List Char} {index : Nat} (hunder : Underway depth composer) (habove : 255 ≤ depth)
    (hwalk : walkOver behind composer index ['['] = .ok after) :
    after.score = composer.score ∧ after.turtle = composer.turtle := by
  obtain ⟨⟨opened, _⟩, hopened, hend⟩ := Except.bind_eq_ok_iff.1 hwalk
  cases hend
  cases step_ok hunder.handlers hopened
  rw [openBranch_flat hunder.branched habove]
  exact ⟨rfl, rfl⟩

theorem step_flat_close {behind : List Char} {index : Nat} (hunder : Underway (depth + 1) composer) (habove : 255 ≤ depth)
    (hwalk : walkOver behind composer index [']'] = .ok after) :
    after.score = composer.score ∧ after.turtle = composer.turtle := by
  obtain ⟨⟨closed, _⟩, hclosed, hend⟩ := Except.bind_eq_ok_iff.1 hwalk
  cases hend
  cases (closeBranch_flat hunder.branched habove).symm.trans (step_ok hunder.handlers hclosed)
  exact ⟨rfl, rfl⟩

variable [LawfulWeight W]

/-- A pass that has come to one place of a well-nested production comes from there to any later place. -/
theorem passTo_further {before behind : List Char} (middle : List Char) (hfit : composer.Fit)
    (hhandlers : composer.handlers = defaultHandlers) (hnested : Nested (before ++ (middle ++ behind)))
    (hnow : composer.passTo before (middle ++ behind) = .ok now) :
    ∃ later, composer.passTo (before ++ middle) behind = .ok later ∧
      walkOver behind now before.length middle = .ok later := by
  obtain ⟨later, hlater, _⟩ := passTo_isOk hfit hhandlers (List.append_assoc before middle behind ▸ hnested)
  refine ⟨later, hlater, ?_⟩
  rw [passTo_append, hnow] at hlater
  exact hlater

/-- Wherever a pass has come to, the open brackets settle voices, layers and scopes of the composer and the place where its score is read. A branch opened below the ceiling is left at the place where it was opened; a bracket above it writes nothing and touches no scope. -/
theorem branches_in_step {config : Config} (hreached : Reached config composer)
    (hhandlers : composer.handlers = defaultHandlers) (hinstrument : 0 ≤ config.instrument) {before behind : List Char}
    (hnested : Nested (before ++ behind)) :
    ∃ now, composer.passTo before behind = .ok now ∧ InStep (stillOpen before) now ∧
      (∀ inner rest, Nested inner → behind = '[' :: (inner ++ ']' :: rest) → stillOpen before < 255 →
        ∃ later, composer.passTo (before ++ '[' :: (inner ++ [']'])) rest = .ok later ∧ SamePlace now later) ∧
      (∀ rest, behind = '[' :: rest → 255 ≤ stillOpen before →
        ∃ later, composer.passTo (before ++ ['[']) rest = .ok later ∧
          later.score = now.score ∧ later.turtle = now.turtle) ∧
      ∀ rest, behind = ']' :: rest → 255 < stillOpen before →
        ∃ later, composer.passTo (before ++ [']']) rest = .ok later ∧
          later.score = now.score ∧ later.turtle = now.turtle := by
  obtain ⟨hfit, hconfig⟩ := hreached.fitWith
  obtain ⟨now, hnow, hwalk, hunder⟩ := passTo_isOk hfit hhandlers hnested
  have hprogram : 0 ≤ composer.config.instrument := hconfig ▸ hinstrument
  have hlegible := walkOver_legible (begun_underway hfit hhandlers) hnested hprogram (begun_legible hfit hprogram) hwalk
  have hclosing : Closing (stillOpen before) behind := hnested.depthOver_eq ▸ Closing.of_append hnested
  refine ⟨now, hnow, hunder.inStep hlegible, ?_, ?_, ?_⟩
  · rintro inner rest hinner rfl hbelow
    have hsplit : '[' :: (inner ++ ']' :: rest) = '[' :: (inner ++ [']']) ++ rest := by simp
    obtain ⟨later, hlater, hfurther⟩ := passTo_further _ hfit hhandlers (hsplit ▸ hnested) (hsplit ▸ hnow)
    exact ⟨later, hlater, walkOver_branch_samePlace hinner hunder hclosing hbelow hfurther⟩
  · rintro rest rfl habove
    obtain ⟨later, hlater, hfurther⟩ := passTo_further ['['] hfit hhandlers hnested hnow
    exact ⟨later, hlater, step_flat_open hunder habove hfurther⟩
  · rintro rest rfl habove
    obtain ⟨later, hlater, hfurther⟩ := passTo_further [']'] hfit hhandlers hnested hnow
    obtain ⟨outer, houter, _⟩ := (closing_close_iff _ _).1 hclosing
    exact ⟨later, hlater, step_flat_close (houter ▸ hunder) (by omega) hfurther⟩

theorem branches_in_step_markov :
    ∃ composer now later : Composer (Script Float) Float, Reached { markov := true } composer ∧ composer.corpus.isSome ∧
      composer.passTo "g[+".toList "[g]g]".toList = .ok now ∧ InStep 1 now ∧
      composer.passTo "g[+[g]".toList "g]".toList = .ok later ∧ SamePlace now later := by
  have hnested : Nested ("g[+".toList ++ "[g]g]".toList) := by decide
  obtain ⟨composer, hreached, hhandlers, hcorpus⟩ := exists_reached_markov
  obtain ⟨now, hnow, hinStep, hbranch, _⟩ := branches_in_step hreached hhandlers (by decide) hnested
  obtain ⟨later, hlater, hsame⟩ := hbranch "g".toList "g]".toList (by decide) (by decide) (by decide)
  exact ⟨composer, now, later, hreached, hcorpus, hnow, hinStep, hlater, hsame⟩

end TurtleMusic.Composer
