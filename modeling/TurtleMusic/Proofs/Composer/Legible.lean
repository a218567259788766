import TurtleMusic.Proofs.Composer.Underway
import TurtleMusic.Proofs.Score.Reading
import TurtleMusic.Proofs.Turtle.Hue

/-!
# Scores that can be read back

While a pass is underway, the score can be read at every place of it, and reading stands in the voice and the layer that the composer writes in. Branches are the only thing that moves both, and they move them alike.
-/

namespace TurtleMusic.Composer

open TurtleMusic.Number TurtleMusic.Chance TurtleMusic.Grammar

variable {σ W : Type} [Weight W] {composer before after : Composer σ W} {depth : Nat}

/-- The voice and the layer that the composer writes in. -/
def slot (composer : Composer σ W) : Slot := (composer.score.voices - 1, composer.score.layers - 1)

/-- The voice and the layer that belong to a number of open branches. -/
def slotAt (depth : Nat) : Slot := (((depth / 16 : Nat) : Int), ((depth % 16 : Nat) : Int))

/-- The numbers in the score can be read, and reading stands where the composer writes. -/
structure Legible (composer : Composer σ W) : Prop where
  numbers : ∀ token ∈ composer.score.written, token.NumbersNonneg
  slot : (Reading.through composer.score.written).slot = composer.slot

theorem begun_legible (hfit : composer.Fit) (hinstrument : 0 ≤ composer.config.instrument) : composer.begun.Legible where
  numbers := by
    have htempo := Int.le_of_lt hfit.tempo
    have hprogram : 0 ≤ composer.score.instrument := hfit.instrument ▸ hinstrument
    simpa [begun, Score.start, Score.append, Score.reset, Token.NumbersNonneg] using ⟨hprogram, htempo⟩
  slot := rfl

/-! ### Branches -/

theorem openingMarks_numbers {instrument : Int} (hinstrument : 0 ≤ instrument) (depth : Nat) :
    ∀ mark ∈ openingMarks depth instrument, mark.NumbersNonneg := by
  rw [openingMarks]
  split
  · simpa [Token.NumbersNonneg] using ⟨hinstrument, by omega⟩
  · simpa [Token.NumbersNonneg] using by omega

theorem closingMarks_numbers (depth : Nat) : ∀ mark ∈ closingMarks depth, mark.NumbersNonneg := by
  rw [closingMarks]
  split
  · simpa [Token.NumbersNonneg] using ⟨by omega, by omega⟩
  · simpa [Token.NumbersNonneg] using by omega

/-- Where reading stands after the tokens that open a branch. -/
theorem slot_openingMarks (instrument : Int) {written : List Token}
    (hslot : (Reading.through written).slot = slotAt depth) :
    (Reading.through (openingMarks depth instrument ++ written)).slot =
      slotAt (depth + 1) := by
  rw [openingMarks]
  split
  · next hlast =>
    have hnext : (depth + 1) % 16 = 0 := by omega
    rw [slotAt, hnext]
    rfl
  · next hroom =>
    have hvoice : (depth + 1) / 16 = depth / 16 := by omega
    have hstands : (Reading.through written).voice = (depth / 16 : Nat) := congrArg Prod.fst hslot
    rw [slotAt, hvoice, ← hstands]
    rfl

/-- Where reading stands after the tokens that close a branch. -/
theorem slot_closingMarks {written : List Token}
    (hslot : (Reading.through written).slot = slotAt (depth + 1)) :
    (Reading.through (closingMarks depth ++ written)).slot = slotAt depth := by
  rw [closingMarks]
  split
  · rfl
  · next hroom =>
    have hvoice : (depth + 1) / 16 = depth / 16 := by omega
    have hstands : (Reading.through written).voice = ((depth + 1) / 16 : Nat) := congrArg Prod.fst hslot
    rw [slotAt, ← hvoice, ← hstands]
    rfl

omit [Weight W] in
theorem Branched.slot_eq (hbranched : Branched depth composer) :
    composer.slot = slotAt (min depth 255) := by
  rw [slot, slotAt, hbranched.voices, hbranched.layers, Int.add_sub_cancel, Int.add_sub_cancel]

theorem Legible.openBranch (hlegible : composer.Legible) (hunder : Underway depth composer)
    (hinstrument : 0 ≤ composer.config.instrument) : composer.openBranch.Legible := by
  by_cases hbelow : depth < 255
  · have hprogram : 0 ≤ composer.score.instrument := hunder.fit.instrument ▸ hinstrument
    have hslot := hlegible.slot.trans hunder.branched.slot_eq
    have hopened := (openBranch_branched hunder.branched).slot_eq
    rw [show min depth 255 = depth by omega] at hslot
    rw [show min (depth + 1) 255 = depth + 1 by omega] at hopened
    rw [openBranch_eq hunder.branched hbelow] at hopened ⊢
    refine ⟨List.forall_mem_append.2 ⟨openingMarks_numbers hprogram depth, hlegible.numbers⟩, ?_⟩
    exact (slot_openingMarks _ hslot).trans hopened.symm
  · rw [openBranch_flat hunder.branched (Nat.not_lt.1 hbelow)]
    exact ⟨hlegible.numbers, hlegible.slot⟩

theorem Legible.closeBranch (hlegible : composer.Legible) (hunder : Underway (depth + 1) composer)
    (hclose : composer.closeBranch = .ok after) : after.Legible := by
  have hclosed := (closeBranch_branched hunder.branched hclose).slot_eq
  obtain ⟨pose, outer, hbelow, _, rfl⟩ | ⟨_, rfl⟩ := closeBranch_cases hunder.branched hclose
  · have hslot := hlegible.slot.trans hunder.branched.slot_eq
    rw [show min (depth + 1) 255 = depth + 1 by omega] at hslot
    rw [show min depth 255 = depth by omega] at hclosed
    refine ⟨List.forall_mem_append.2 ⟨closingMarks_numbers depth, hlegible.numbers⟩, ?_⟩
    exact (slot_closingMarks hslot).trans hclosed.symm
  · exact ⟨hlegible.numbers, hlegible.slot⟩

/-! ### Hues -/

omit [Weight W] in
theorem hueMarks_numbers (composer : Composer σ W) (times : Int) (rest : List Char) :
    ∀ mark ∈ composer.hueMarks times rest, mark.NumbersNonneg := by
  rw [hueMarks]
  split
  · simp
  · have hhue := (Hue.visible_mem (composer.turtle.pose.hue + times * composer.turtle.hueStep)).2
    have hvalue : 0 ≤ hueValue (composer.turtle.shiftHue times).pose.hue :=
      Int.ediv_nonneg (Int.sub_nonneg.2 hhue) (by decide)
    simpa [Token.NumbersNonneg, hueController] using hvalue

omit [Weight W] in
theorem Legible.shiftHue (hlegible : composer.Legible) (times : Int) (rest : List Char) :
    (composer.shiftHue times rest).Legible := by
  have hslot : (Reading.through (composer.hueMarks times rest ++ composer.score.written)).slot =
      (Reading.through composer.score.written).slot := by
    rw [hueMarks]
    split <;> rfl
  rw [shiftHue_eq]
  exact ⟨List.forall_mem_append.2 ⟨hueMarks_numbers composer times rest, hlegible.numbers⟩, hslot.trans hlegible.slot⟩

/-! ### Strokes -/

omit [Weight W] in
theorem Chosen.legible (hchosen : Chosen before after) (hlegible : before.Legible) : after.Legible := by
  obtain ⟨count, hwritten⟩ := hchosen.written
  constructor
  · rw [hwritten]
    refine List.forall_mem_append.2 ⟨fun mark hmark => ?_, hlegible.numbers⟩
    rw [List.eq_of_mem_replicate hmark]
    trivial
  · rw [hwritten, Reading.slot_measures, hlegible.slot, slot, slot, hchosen.score]

variable [Source σ W]

theorem Legible.horizontalStroke {sounding : Bool} (hlegible : composer.Legible) (hunder : Underway depth composer)
    (hstroke : composer.horizontalStroke sounding = .ok after) : after.Legible := by
  obtain ⟨stroke, chosen, score, hchosen, hwrite, rfl⟩ := horizontalStroke_ok hstroke
  have hkept := chooseStroke_chosen hchosen
  have hbefore := hkept.legible hlegible
  have hwrites := Score.write_writes (hkept.scored hunder.scored).composed hwrite
  have hcontext := Score.write_sameContext hwrite
  obtain ⟨beat, hadvance⟩ := advance_eq { chosen with score } stroke.length
  rw [hadvance]
  refine ⟨hwrites.numbersNonneg hbefore.numbers, ?_⟩
  have hslot : (Reading.through score.written).slot = chosen.slot := (Reading.slot_of_writes hwrites).trans hbefore.slot
  dsimp only [slot]
  rw [hcontext.voices, hcontext.layers]
  exact hslot

/-! ### Characters -/

theorem Stepped.legible {behind : List Char} {act : Act} {outcome : Nat}
    (hstepped : Stepped composer behind act depth outcome after) (hunder : Underway depth composer)
    (hinstrument : 0 ≤ composer.config.instrument) (hlegible : composer.Legible) : after.Legible := by
  cases hstepped with
  | idle => exact hlegible
  | turn => exact ⟨hlegible.numbers, hlegible.slot⟩
  | stroke _ hstroke => exact hlegible.horizontalStroke hunder hstroke
  | stepPitch _ hstep =>
    obtain ⟨pitch, _, rfl⟩ := stepPitch_ok hstep
    exact ⟨hlegible.numbers, hlegible.slot⟩
  | openBranch => exact hlegible.openBranch hunder hinstrument
  | closeBranch _ hclose => exact hlegible.closeBranch hunder hclose
  | shiftHue times => exact hlegible.shiftHue times behind

theorem walkOver_legible {text behind : List Char} {index : Nat} (hunder : Underway depth composer)
    (hclosing : Closing depth (text ++ behind)) (hinstrument : 0 ≤ composer.config.instrument)
    (hlegible : composer.Legible) (hwalk : walkOver behind composer index text = .ok after) : after.Legible :=
  (walkOver_keeps (fun _ now => 0 ≤ now.config.instrument ∧ now.Legible)
    (fun hunder hstepped hboth =>
      ⟨hstepped.sameSetting.config ▸ hboth.1, hstepped.legible hunder hboth.1 hboth.2⟩)
    hunder hclosing hwalk ⟨hinstrument, hlegible⟩).2.2

omit [Source σ W] in
theorem Underway.readable (hunder : Underway depth composer) (hlegible : composer.Legible) :
    ∀ token ∈ composer.score.written, token.Readable :=
  fun token htoken => (hunder.scored.composed token htoken).readable (hlegible.numbers token htoken)

/-- What a pass over a whole production has written can be read. -/
theorem readable_of_walkOver (hfit : composer.Fit) (hhandlers : composer.handlers = defaultHandlers)
    (hinstrument : 0 ≤ composer.config.instrument) {production : List Char} (hnested : Nested production)
    (hwalk : walkOver [] composer.begun 0 production = .ok after) : ∀ token ∈ after.score.written, token.Readable := by
  have hwhole : Closing 0 (production ++ []) := by rwa [List.append_nil]
  have hbegun := begun_underway hfit hhandlers
  have hlegible := walkOver_legible hbegun hwhole hinstrument (begun_legible hfit hinstrument) hwalk
  exact (walkOver_underway hbegun hwhole hwalk).readable hlegible

end TurtleMusic.Composer
