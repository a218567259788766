import TurtleMusic.Proofs.Composer.Underway
import TurtleMusic.Proofs.Score.Music

/-!
# Passes over other tokens

A pass writes tokens and looks at none but the newest one. In a score with other controller values further below, each act but a change of hue comes to the same and keeps the newest tokens the same.
-/

namespace TurtleMusic.Composer

open TurtleMusic.Number TurtleMusic.Chance TurtleMusic.Grammar

variable {σ W : Type} {composer after : Composer σ W} {depth outcome : Nat}

/-- The composer with other tokens in its score. -/
def rewrite (tokens : List Token) (composer : Composer σ W) : Composer σ W :=
  { composer with score := { composer.score with written := tokens } }

variable {tokens : List Token}

theorem Branched.rewrite (hbranched : Branched depth composer) : Branched depth (composer.rewrite tokens) :=
  hbranched.of_same rfl rfl rfl rfl

theorem stepPitch_rewrite {up : Bool} (hstep : composer.stepPitch up = .ok after) :
    (composer.rewrite tokens).stepPitch up = .ok (after.rewrite tokens) := by
  obtain ⟨pitch, hpitch, rfl⟩ := stepPitch_ok hstep
  exact Except.map_eq_ok_iff.2 ⟨pitch, hpitch, rfl⟩

theorem openBranch_rewrite (hbranched : Branched depth composer) (hmatched : Matched composer.score.written tokens) :
    ∃ later, (composer.rewrite tokens).openBranch = composer.openBranch.rewrite later ∧
      Matched composer.openBranch.score.written later := by
  by_cases hbelow : depth < 255
  · rw [openBranch_eq hbranched hbelow, openBranch_eq hbranched.rewrite hbelow]
    exact ⟨_, rfl, hmatched.append _⟩
  · rw [openBranch_flat hbranched (Nat.not_lt.1 hbelow), openBranch_flat hbranched.rewrite (Nat.not_lt.1 hbelow)]
    exact ⟨tokens, rfl, hmatched⟩

theorem closeBranch_rewrite (hbranched : Branched (depth + 1) composer) (hmatched : Matched composer.score.written tokens)
    (hclose : composer.closeBranch = .ok after) :
    ∃ later, (composer.rewrite tokens).closeBranch = .ok (after.rewrite later) ∧ Matched after.score.written later := by
  by_cases hbelow : depth < 255
  · obtain ⟨pose, outer, houter, heq⟩ := closeBranch_eq hbranched hbelow
    have hsame : Branched (depth + 1) (composer.rewrite tokens) := hbranched.rewrite
    obtain ⟨_, _, hsameOuter, hrewritten⟩ := closeBranch_eq hsame hbelow
    cases heq.symm.trans hclose
    obtain ⟨rfl, rfl⟩ := List.cons.inj (houter.symm.trans hsameOuter)
    exact ⟨_, hrewritten, hmatched.append _⟩
  · cases (closeBranch_flat hbranched (Nat.not_lt.1 hbelow)).symm.trans hclose
    exact ⟨tokens, closeBranch_flat hbranched.rewrite (Nat.not_lt.1 hbelow), hmatched⟩

theorem repeat_nextBeat_tokens (count : Nat) (score : Score) (tokens : List Token) :
    Nat.repeat Score.nextBeat count { score with written := tokens } =
      { Nat.repeat Score.nextBeat count score with written := tokens } := by
  induction count with
  | zero => rfl
  | succ count ih =>
    rw [Nat.repeat, ih]
    rfl

theorem advance_rewrite (composer : Composer σ W) (tokens : List Token) (length : Int) :
    (composer.rewrite tokens).advance length = (composer.advance length).rewrite tokens := by
  have hbeats := repeat_nextBeat_tokens
    ((composer.score.position + length) / 32 - composer.score.position / 32).toNat
    { composer.score with position := composer.score.position + length } tokens
  exact congrArg (fun score => ({ composer with turtle := composer.turtle.advance length, score } : Composer σ W)) hbeats

variable [Weight W] [Source σ W]

theorem startMeasure_rewrite (hmatched : Matched composer.score.written tokens) :
    ∃ later, (composer.rewrite tokens).startMeasure = composer.startMeasure.rewrite later ∧
      Matched composer.startMeasure.score.written later := by
  by_cases hmarked : composer.measures > 0
  · have hsame : (composer.rewrite tokens).measures > 0 := hmarked
    refine ⟨.measure :: tokens, ?_, ?_⟩
    · simp only [startMeasure, if_pos hmarked, if_pos hsame]
      rfl
    · simp only [startMeasure, if_pos hmarked]
      exact Score.append_matched hmatched .measure
  · have hsame : ¬(composer.rewrite tokens).measures > 0 := hmarked
    refine ⟨tokens, ?_, ?_⟩
    · simp only [startMeasure, if_neg hmarked, if_neg hsame]
      rfl
    · simp only [startMeasure, if_neg hmarked]
      exact hmatched

theorem takeLength_rewrite (hmatched : Matched composer.score.written tokens) :
    ∃ later, (composer.rewrite tokens).takeLength = (composer.takeLength.1, composer.takeLength.2.rewrite later) ∧
      Matched composer.takeLength.2.score.written later := by
  by_cases hmarkov : composer.config.markov = true
  · have hsame : (composer.rewrite tokens).config.markov = true := hmarkov
    rw [takeLength, takeLength, if_pos hmarkov, if_pos hsame]
    by_cases hempty : composer.durations.isEmpty = true
    · have hused : (composer.rewrite tokens).durations.isEmpty = true := hempty
      obtain ⟨later, hlater, hkept⟩ := startMeasure_rewrite hmatched
      rw [if_pos hempty, if_pos hused, hlater]
      exact ⟨later, rfl, hkept⟩
    · have hleft : ¬(composer.rewrite tokens).durations.isEmpty = true := hempty
      rw [if_neg hempty, if_neg hleft]
      exact ⟨tokens, rfl, hmatched⟩
  · have hsame : ¬(composer.rewrite tokens).config.markov = true := hmarkov
    rw [takeLength, takeLength, if_neg hmarkov, if_neg hsame]
    exact ⟨tokens, rfl, hmatched⟩

theorem followCorpus_rewrite (composer : Composer σ W) (tokens : List Token) :
    (composer.rewrite tokens).followCorpus = composer.followCorpus.map (rewrite tokens) := by
  simp only [followCorpus, rewrite]
  cases hcorpus : composer.corpus with
  | none => simp only [Except.map, pure, Except.pure, rewrite, hcorpus]
  | some corpus =>
    dsimp only
    cases corpus.next composer.score.note composer.score.previousNote composer.source with
    | error fault => rfl
    | ok drawn =>
      obtain ⟨pitchClass, source⟩ := drawn
      simp only [bind, Except.bind]
      cases pitchClass with
      | none => rfl
      | some pitchClass =>
        dsimp only
        cases Pitch.nearest composer.turtle.pose.y pitchClass.toPitch (some composer.config.low) (some composer.config.high) <;> rfl

theorem chooseChord_rewrite (composer : Composer σ W) (tokens : List Token) (progression : Progression) (length : Int) :
    (composer.rewrite tokens).chooseChord progression length =
      (composer.chooseChord progression length).map fun chosen => (chosen.1, chosen.2.rewrite tokens) := by
  simp only [chooseChord, rewrite, Score.keyClass]
  cases progression.next W composer.source with
  | error fault => rfl
  | ok drawn =>
    simp only [bind, Except.bind]
    cases drawn.1.current.triad composer.score.key.tonicClass.toPitch composer.turtle.pose.y composer.config.low
      composer.config.high <;> rfl

theorem chooseSound_rewrite (composer : Composer σ W) (tokens : List Token) (length : Int) :
    (composer.rewrite tokens).chooseSound length =
      (composer.chooseSound length).map fun chosen => (chosen.1, chosen.2.rewrite tokens) := by
  rw [chooseSound, chooseSound]
  by_cases hmarkov : composer.config.markov = true
  · have hchance : (composer.rewrite tokens).config.markov = true := hmarkov
    rw [if_pos hmarkov, if_pos hchance]
    by_cases hdue : composer.chordDue = true
    · have hsame : (composer.rewrite tokens).chordDue = true := hdue
      have hsampler : (composer.rewrite tokens).progression = composer.progression := rfl
      rw [if_pos hdue, if_pos hsame, hsampler]
      cases composer.progression with
      | none => rfl
      | some progression => exact chooseChord_rewrite composer tokens progression length
    · have hsame : ¬(composer.rewrite tokens).chordDue = true := hdue
      rw [if_neg hdue, if_neg hsame, followCorpus_rewrite]
      cases composer.followCorpus <;> rfl
  · have hplain : ¬(composer.rewrite tokens).config.markov = true := hmarkov
    rw [if_neg hmarkov, if_neg hplain]
    rfl

/-- What sounds is settled without a look at the tokens and without a change of them. -/
theorem chooseSound_written {length : Int} {stroke : Stroke} (hchoose : composer.chooseSound length = .ok (stroke, after)) :
    after.score.written = composer.score.written := by
  have hsame : composer.chooseSound length =
      (composer.chooseSound length).map fun chosen => (chosen.1, chosen.2.rewrite composer.score.written) :=
    chooseSound_rewrite composer composer.score.written length
  rw [hchoose, Except.map, Except.ok.injEq, Prod.mk.injEq] at hsame
  exact congrArg (·.score.written) hsame.2

theorem chooseStroke_rewrite (hmatched : Matched composer.score.written tokens) {sounding : Bool} {stroke : Stroke}
    (hchoose : composer.chooseStroke sounding = .ok (stroke, after)) :
    ∃ later, (composer.rewrite tokens).chooseStroke sounding = .ok (stroke, after.rewrite later) ∧
      Matched after.score.written later := by
  obtain ⟨later, hlength, hkept⟩ := takeLength_rewrite hmatched
  refine ⟨later, ?_⟩
  rw [chooseStroke, hlength]
  obtain ⟨rfl, hsound⟩ | ⟨rfl, rfl, rfl⟩ := chooseStroke_ok hchoose
  · refine ⟨?_, chooseSound_written hsound ▸ hkept⟩
    exact (chooseSound_rewrite _ later _).trans (by rw [hsound]; rfl)
  · exact ⟨rfl, hkept⟩

theorem horizontalStroke_rewrite (hmatched : Matched composer.score.written tokens) {sounding : Bool}
    (hstroke : composer.horizontalStroke sounding = .ok after) :
    ∃ later, (composer.rewrite tokens).horizontalStroke sounding = .ok (after.rewrite later) ∧
      Matched after.score.written later := by
  obtain ⟨stroke, chosen, score, hchoose, hwrite, rfl⟩ := horizontalStroke_ok hstroke
  obtain ⟨between, hrewritten, hkept⟩ := chooseStroke_rewrite hmatched hchoose
  obtain ⟨later, hlater, hwritten⟩ := Score.write_matched hkept hwrite
  refine ⟨later, ?_, ?_⟩
  · exact Except.bind_eq_ok_iff.2 ⟨_, hrewritten, Except.bind_eq_ok_iff.2 ⟨_, hlater,
      congrArg Except.ok (advance_rewrite { chosen with score } later stroke.length)⟩⟩
  · obtain ⟨beat, hbeat⟩ := advance_eq { chosen with score } stroke.length
    rw [hbeat]
    exact hwritten

/-! ### Acts -/

/-- An act that is no change of hue comes to the same with other controller values below the newest token. -/
theorem Stepped.rewrite {behind other : List Char} {act : Act} (hstepped : Stepped composer behind act depth outcome after)
    (hplain : ∀ times, act ≠ .shiftHue times) (hbranched : Branched depth composer)
    (hmatched : Matched composer.score.written tokens) :
    ∃ later, (composer.rewrite tokens).carryOut other act = .ok (after.rewrite later) ∧ Matched after.score.written later := by
  cases hstepped with
  | idle => exact ⟨tokens, rfl, hmatched⟩
  | turn times => exact ⟨tokens, rfl, hmatched⟩
  | stroke _ hstroke => exact horizontalStroke_rewrite hmatched hstroke
  | stepPitch _ hstep =>
    refine ⟨tokens, stepPitch_rewrite hstep, ?_⟩
    obtain ⟨pitch, _, rfl⟩ := stepPitch_ok hstep
    exact hmatched
  | openBranch =>
    obtain ⟨later, hopen, hkept⟩ := openBranch_rewrite hbranched hmatched
    exact ⟨later, congrArg Except.ok hopen, hkept⟩
  | closeBranch _ hclose => exact closeBranch_rewrite hbranched hmatched hclose
  | shiftHue times => exact absurd rfl (hplain times)

end TurtleMusic.Composer
