import TurtleMusic.Proofs.Composer.Branching
import TurtleMusic.Proofs.Composer.Lengths
import TurtleMusic.Proofs.Composer.Tuning
import TurtleMusic.Proofs.Composer.Walking
import TurtleMusic.Proofs.Corpus.Counting
import TurtleMusic.Proofs.Grammar.Nesting

/-!
# Passes underway

What holds right after the start of a pass and after every character of it. The number of open brackets goes along, and with it all that depends on it; everything else is the same at every depth.
-/

namespace TurtleMusic.Composer

open TurtleMusic.Number TurtleMusic.Chance TurtleMusic.Grammar

variable {σ W : Type} [Weight W] {composer before after : Composer σ W} {depth : Nat}

/-- A pass can be made with the composer. -/
structure Fit (composer : Composer σ W) : Prop where
  valid : composer.config.Valid
  corpus : ∀ model, composer.corpus = some model → model.Counted
  tempo : 0 < composer.score.tempo
  instrument : composer.score.instrument = composer.config.instrument

theorem SameSetting.fit (hsame : SameSetting before after) (hfit : before.Fit) : after.Fit where
  valid := hsame.config ▸ hfit.valid
  corpus := hsame.corpus ▸ hfit.corpus
  tempo := hsame.tempo ▸ hfit.tempo
  instrument := by rw [hsame.instrument, hsame.config, hfit.instrument]

/-- A pass with the default handlers at a place where this many brackets are open. -/
structure Underway (depth : Nat) (composer : Composer σ W) : Prop where
  fit : composer.Fit
  handlers : composer.handlers = defaultHandlers
  measure : composer.InMeasure
  tuned : composer.Tuned
  scored : composer.Scored
  branched : Branched depth composer

/-! ### The start -/

/-- The composer at the start of a pass. -/
def begun (composer : Composer σ W) : Composer σ W :=
  { composer with
    source := composer.restart.getD composer.source
    turtle := (composer.turtle.reset (some composer.config.angle)).setY
      (Pitch.clampInto composer.config.low composer.config.high composer.score.key.tonic)
    score := composer.score.start
    corpus := (composer.corpus.map fun corpus => (corpus.moveTo composer.score.keyClass).2).map (·.1)
    progression := composer.progression.map Progression.reset
    branches := []
    durations := []
    measures := 0
    chordDue := false }

theorem begin_eq_ok (hvalid : composer.config.Valid) : ∃ reports, composer.begin = .ok (composer.begun, reports) :=
  ⟨_, by rw [begin, Pitch.clamp_eq_ok hvalid.span]; rfl⟩

theorem begun_fit (hfit : composer.Fit) : composer.begun.Fit := by
  refine ⟨hfit.valid, fun model hmodel => ?_, hfit.tempo, hfit.instrument⟩
  obtain ⟨moved, hmoved, rfl⟩ := Option.map_eq_some_iff.1 hmodel
  obtain ⟨corpus, hcorpus, rfl⟩ := Option.map_eq_some_iff.1 hmoved
  exact CorpusModel.moveTo_counted (hfit.corpus corpus hcorpus) _

theorem begun_tuned (hvalid : composer.config.Valid) : composer.begun.Tuned := by
  have hbegun : composer.begun.config.Valid := hvalid
  refine ⟨allowed_tonic hbegun, (Degree.ofPitch_tonic _ ?_).symm, fun pose hpose => absurd hpose List.not_mem_nil⟩
  exact (Pitch.clampInto_emod _ _ _).trans composer.score.key.tonic_emod

theorem begun_marks (composer : Composer σ W) : ∀ mark ∈ composer.begun.score.written, mark.Composed ∧ mark.IsMark := by
  simp [begun, Score.start, Score.append, Score.reset, Token.Composed, Token.IsMark]

theorem begun_scored (composer : Composer σ W) : composer.begun.Scored := by
  refine ⟨fun token htoken => (composer.begun_marks token htoken).1, fun token htoken pitch hpitch => ?_⟩
  rw [(composer.begun_marks token htoken).2.pitches_eq] at hpitch
  exact absurd hpitch List.not_mem_nil

theorem begun_underway (hfit : composer.Fit) (hhandlers : composer.handlers = defaultHandlers) :
    Underway 0 composer.begun where
  fit := begun_fit hfit
  handlers := hhandlers
  measure := ⟨fun _ hduration => absurd hduration List.not_mem_nil, fun hdue => absurd hdue Bool.false_ne_true⟩
  tuned := begun_tuned hfit.valid
  scored := begun_scored composer
  branched := ⟨rfl, rfl, rfl, rfl⟩

/-! ### Branches -/

theorem Underway.openBranch (hunder : Underway depth composer) : Underway (depth + 1) composer.openBranch := by
  have hsame := openBranch_sameSetting composer
  have hbranched := openBranch_branched hunder.branched
  obtain ⟨marks, hwritten, hmarks⟩ := openBranch_marks hunder.branched
  have hscored := hunder.scored.of_marks hsame hwritten hmarks
  by_cases hbelow : depth < 255
  · rw [openBranch_eq hunder.branched hbelow] at hsame hbranched hscored ⊢
    exact ⟨hsame.fit hunder.fit, hunder.handlers, ⟨hunder.measure.durations, hunder.measure.chord⟩,
      hunder.tuned.of_sameHeight hsame rfl rfl fun pose hpose => List.mem_cons.1 hpose, hscored, hbranched⟩
  · rw [openBranch_flat hunder.branched (Nat.not_lt.1 hbelow)] at hsame hbranched hscored ⊢
    exact ⟨hsame.fit hunder.fit, hunder.handlers, ⟨hunder.measure.durations, hunder.measure.chord⟩,
      hunder.tuned.of_sameHeight hsame rfl rfl fun pose hpose => .inr hpose, hscored, hbranched⟩

theorem Underway.closeBranch (hunder : Underway (depth + 1) composer) (hclose : composer.closeBranch = .ok after) :
    Underway depth after := by
  have hsame := closeBranch_sameSetting hclose
  have hbranched := closeBranch_branched hunder.branched hclose
  obtain ⟨marks, hwritten, hmarks⟩ := closeBranch_marks hunder.branched hclose
  have hscored := hunder.scored.of_marks hsame hwritten hmarks
  obtain ⟨pose, outer, _, houter, rfl⟩ | ⟨_, rfl⟩ := closeBranch_cases hunder.branched hclose
  · exact ⟨hsame.fit hunder.fit, hunder.handlers, ⟨hunder.measure.durations, hunder.measure.chord⟩,
      hunder.tuned.of_scope hsame houter rfl, hscored, hbranched⟩
  · exact ⟨hsame.fit hunder.fit, hunder.handlers, ⟨hunder.measure.durations, hunder.measure.chord⟩,
      hunder.tuned.of_sameHeight hsame rfl rfl fun pose hpose => .inr hpose, hscored, hbranched⟩

/-! ### Strokes and turns -/

variable [Source σ W]

theorem horizontalStroke_branched {sounding : Bool} (hbranched : Branched depth composer)
    (hstroke : composer.horizontalStroke sounding = .ok after) : Branched depth after := by
  obtain ⟨stroke, chosen, score, hchosen, hwrite, rfl⟩ := horizontalStroke_ok hstroke
  obtain ⟨beat, hadvance⟩ := advance_eq { chosen with score } stroke.length
  have hkept := chooseStroke_chosen hchosen
  have hsame := Score.write_sameContext hwrite
  rw [hadvance]
  refine hbranched.of_same hkept.branches ?_ ?_ ?_
  · rw [hsame.voices, hkept.score]
  · rw [hsame.layers, hkept.score]
  · rw [hkept.turtle]
    rfl

theorem horizontalStroke_inMeasure {sounding : Bool} (hvalid : composer.config.Valid) (hmeasure : composer.InMeasure)
    (hstroke : composer.horizontalStroke sounding = .ok after) : after.InMeasure := by
  obtain ⟨stroke, chosen, score, hchosen, _, rfl⟩ := horizontalStroke_ok hstroke
  obtain ⟨beat, hadvance⟩ := advance_eq { chosen with score } stroke.length
  obtain ⟨hdurations, hchord⟩ := chooseStroke_inMeasure hvalid hmeasure hchosen
  rw [hadvance]
  exact ⟨hdurations, hchord⟩

theorem Underway.horizontalStroke {sounding : Bool} (hunder : Underway depth composer)
    (hstroke : composer.horizontalStroke sounding = .ok after) : Underway depth after := by
  have hsame := horizontalStroke_sameSetting hstroke
  have hvalid := hunder.fit.valid
  exact ⟨hsame.fit hunder.fit, hsame.handlers.trans hunder.handlers,
    horizontalStroke_inMeasure hvalid hunder.measure hstroke, horizontalStroke_tuned hvalid hunder.tuned hstroke,
    horizontalStroke_scored hvalid hunder.tuned hunder.scored hstroke, horizontalStroke_branched hunder.branched hstroke⟩

omit [Source σ W] in
theorem Underway.stepPitch {up : Bool} (hunder : Underway depth composer) (hstep : composer.stepPitch up = .ok after) :
    Underway depth after := by
  have htuned := stepPitch_tuned hunder.fit.valid hunder.tuned hstep
  obtain ⟨pitch, _, rfl⟩ := stepPitch_ok hstep
  have hsame : SameSetting composer { composer with
      turtle := composer.turtle.setY pitch
      score := { composer.score with
        degree := (Degree.step composer.turtle.pose.y composer.score.degree up).2 } } :=
    ⟨rfl, rfl, rfl, rfl, rfl, fun _ => rfl, rfl, rfl, rfl⟩
  exact ⟨hsame.fit hunder.fit, hunder.handlers, ⟨hunder.measure.durations, hunder.measure.chord⟩, htuned,
    hunder.scored.of_sameTokens hsame rfl, hunder.branched.of_same rfl rfl rfl rfl⟩

omit [Source σ W] in
theorem Underway.turn (hunder : Underway depth composer) (times : Int) :
    Underway depth { composer with turtle := composer.turtle.turn times } := by
  have hsame : SameSetting composer { composer with turtle := composer.turtle.turn times } :=
    ⟨rfl, rfl, rfl, rfl, rfl, fun _ => rfl, rfl, rfl, rfl⟩
  exact ⟨hsame.fit hunder.fit, hunder.handlers, ⟨hunder.measure.durations, hunder.measure.chord⟩,
    hunder.tuned.of_sameHeight hsame rfl rfl fun pose hpose => .inr hpose,
    hunder.scored.of_sameTokens hsame rfl, hunder.branched.of_same rfl rfl rfl rfl⟩

/-- Shifting the hue writes one controller token or none. -/
def hueMarks (composer : Composer σ W) (times : Int) (rest : List Char) : List Token :=
  if hueFollows rest then [] else [.control hueController (hueValue (composer.turtle.shiftHue times).pose.hue)]

omit [Source σ W] [Weight W] in
theorem shiftHue_eq (composer : Composer σ W) (times : Int) (rest : List Char) :
    composer.shiftHue times rest = { composer with
      turtle := composer.turtle.shiftHue times
      score := { composer.score with written := composer.hueMarks times rest ++ composer.score.written } } := by
  rw [shiftHue, hueMarks]
  by_cases hfollows : hueFollows rest = true
  · simp only [hfollows, if_true, List.nil_append]
  · simp only [if_neg hfollows]
    rfl

omit [Source σ W] [Weight W] in
theorem hueMarks_composed (composer : Composer σ W) (times : Int) (rest : List Char) :
    ∀ mark ∈ composer.hueMarks times rest, mark.Composed ∧ mark.IsMark := by
  rw [hueMarks]
  split <;> simp [Token.Composed, Token.IsMark]

omit [Source σ W] [Weight W] in
theorem hueMarks_plain (composer : Composer σ W) (times : Int) (rest : List Char) :
    ∀ mark ∈ composer.hueMarks times rest, mark.IsMark ∧ mark ≠ .measure := by
  rw [hueMarks]
  split <;> simp [Token.IsMark]

omit [Source σ W] in
theorem Underway.shiftHue (hunder : Underway depth composer) (times : Int) (rest : List Char) :
    Underway depth (composer.shiftHue times rest) := by
  have hsame := shiftHue_sameSetting composer times rest
  rw [shiftHue_eq] at hsame ⊢
  exact ⟨hsame.fit hunder.fit, hunder.handlers, ⟨hunder.measure.durations, hunder.measure.chord⟩,
    hunder.tuned.of_sameHeight hsame rfl rfl fun pose hpose => .inr hpose,
    hunder.scored.of_marks hsame rfl (composer.hueMarks_composed times rest), hunder.branched.of_same rfl rfl rfl rfl⟩

/-! ### Characters -/

variable {behind : List Char}

/-- Every act takes the invariant from the depth before it to the depth after it. -/
theorem Stepped.underway {act : Act} {outcome : Nat} (hstepped : Stepped composer behind act depth outcome after)
    (hunder : Underway depth composer) : Underway outcome after := by
  cases hstepped with
  | idle => exact hunder
  | turn times => exact hunder.turn times
  | stroke _ hstroke => exact hunder.horizontalStroke hstroke
  | stepPitch _ hstep => exact hunder.stepPitch hstep
  | openBranch => exact hunder.openBranch
  | closeBranch _ hclose => exact hunder.closeBranch hclose
  | shiftHue times => exact hunder.shiftHue times behind

/-- What every act keeps holds wherever a pass has come to. -/
theorem walkOver_keeps (property : Nat → Composer σ W → Prop)
    (hkeeps : ∀ {depth outcome : Nat} {before after : Composer σ W} {behind : List Char} {act : Act},
      Underway depth before → Stepped before behind act depth outcome after → property depth before →
        property outcome after)
    {text : List Char} {index : Nat} (hunder : Underway depth composer) (hclosing : Closing depth (text ++ behind))
    (hwalk : walkOver behind composer index text = .ok after) (hproperty : property depth composer) :
    Underway (depthOver depth text) after ∧ property (depthOver depth text) after := by
  induction text generalizing depth composer index with
  | nil =>
    cases hwalk
    exact ⟨hunder, hproperty⟩
  | cons symbol rest ih =>
    obtain ⟨⟨now, reports⟩, hstep, hrest⟩ := Except.bind_eq_ok_iff.1 hwalk
    have hstepped := stepped_of_carryOut hclosing (step_ok hunder.handlers hstep)
    exact ih (hstepped.underway hunder) hclosing.tail hrest (hkeeps hunder hstepped hproperty)

theorem walkOver_underway {text : List Char} {index : Nat} (hunder : Underway depth composer)
    (hclosing : Closing depth (text ++ behind)) (hwalk : walkOver behind composer index text = .ok after) :
    Underway (depthOver depth text) after :=
  (walkOver_keeps (fun _ _ => True) (fun _ _ _ => trivial) hunder hclosing hwalk trivial).1

theorem walkOver_sameSetting {text : List Char} {index : Nat} (hunder : Underway depth composer)
    (hclosing : Closing depth (text ++ behind)) (hwalk : walkOver behind composer index text = .ok after) :
    SameSetting composer after :=
  (walkOver_keeps (fun _ now => SameSetting composer now)
    (fun _ hstepped hsame => hsame.trans hstepped.sameSetting) hunder hclosing hwalk (SameSetting.refl composer)).2

end TurtleMusic.Composer
