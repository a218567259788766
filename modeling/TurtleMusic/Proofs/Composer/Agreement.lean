import TurtleMusic.Proofs.Composer.Legible
import TurtleMusic.Proofs.Composer.Totality
import TurtleMusic.Proofs.Score.Laying

/-!
# The score means what was played

Composing writes strokes, each in the voice and the layer that the composer is in; reading the finished score gives events. Both describe the same music: in every slot the strokes laid end to end let sound exactly what the events let sound.
-/

namespace TurtleMusic.Composer

open TurtleMusic.Number TurtleMusic.Chance TurtleMusic.Grammar

variable {σ W : Type} [Weight W] [Source σ W] {composer after : Composer σ W} {depth : Nat}

/-! ### The strokes of a pass -/

/-- The stroke that is written along the time axis, if the turtle heads along it. -/
def horizontal? (composer : Composer σ W) (sounding : Bool) : Option Stroke :=
  if composer.turtle.direction.isHorizontal then (composer.chooseStroke sounding).toOption.map (·.1) else none

/-- The stroke that a character writes, if it writes one. -/
def strokeOf? (composer : Composer σ W) (symbol : Char) : Option Stroke :=
  match composer.handler? symbol with
  | some .draw => composer.horizontal? true
  | some .move | some .rest => composer.horizontal? false
  | _ => none

/-- The strokes that characters write one after the other, each with the slot it is written in. -/
def strokesFrom (composer : Composer σ W) (index : Nat) : List Char → List (Slot × Stroke)
  | [] => []
  | symbol :: rest =>
    match composer.step index symbol rest with
    | .error _ => []
    | .ok (after, _) =>
      ((composer.strokeOf? symbol).map (composer.slot, ·)).toList ++ strokesFrom after (index + 1) rest

/-- The strokes of a pass over a production. -/
def strokesOf (composer : Composer σ W) (production : List Char) : List (Slot × Stroke) :=
  match composer.begin with
  | .error _ => []
  | .ok (begun, _) => begun.strokesFrom 0 production

/-- The stroke that an act writes, if it writes one. -/
def strokeBy? (composer : Composer σ W) : Act → Option Stroke
  | .stroke sounding => (composer.chooseStroke sounding).toOption.map (·.1)
  | _ => none

theorem strokeBy?_strokeAct (composer : Composer σ W) (sounding : Bool) :
    composer.strokeBy? (composer.strokeAct sounding) = composer.horizontal? sounding := by
  rw [strokeAct, horizontal?]
  split
  · rfl
  · split <;> rfl

theorem strokeOf?_eq (hhandlers : composer.handlers = defaultHandlers) (symbol : Char) :
    composer.strokeOf? symbol = composer.strokeBy? (composer.act symbol) := by
  rw [strokeOf?, handler?, hhandlers, act]
  cases hlookup : defaultHandlers.lookup symbol with
  | none => rfl
  | some handler =>
    cases handler with
    | draw => exact (composer.strokeBy?_strokeAct true).symm
    | move => exact (composer.strokeBy?_strokeAct false).symm
    | rest =>
      dsimp only
      rw [actOf, horizontal?]
      split <;> rfl
    | _ => rfl

/-! ### What an act writes -/

/-- What becomes of a score: a stroke is written behind bar lines and where the score stands, or marks alone are written. -/
inductive Wrote (before after : Score) : Option Stroke → Prop
  | stroke {stroke : Stroke} {ready done : Score} {bars : Nat}
      (hready : ready = { before with
        written := List.replicate bars .measure ++ before.written, degree := ready.degree })
      (hpos : 0 < stroke.length) (hwrite : ready.write stroke = .ok done) (hdone : after.written = done.written) :
      Wrote before after (some stroke)
  | marks {marks : List Token} (hmarks : ∀ mark ∈ marks, mark.IsMark)
      (hwritten : after.written = marks ++ before.written) : Wrote before after none

/-- An act writes its stroke and nothing else that takes time. -/
theorem Stepped.wrote {behind : List Char} {act : Act} {outcome : Nat}
    (hstepped : Stepped composer behind act depth outcome after) (hunder : Underway depth composer) :
    Wrote composer.score after.score (composer.strokeBy? act) := by
  have hnone : ∀ mark ∈ ([] : List Token), mark.IsMark := fun _ hmark => absurd hmark List.not_mem_nil
  cases hstepped with
  | stroke _ hstroke =>
    obtain ⟨stroke, chosen, score, hchosen, hwrite, rfl⟩ := horizontalStroke_ok hstroke
    obtain ⟨beat, hadvance⟩ := advance_eq { chosen with score } stroke.length
    have hkept := chooseStroke_chosen hchosen
    obtain ⟨bars, hmeasures⟩ := hkept.written
    have hready := hkept.score
    rw [hmeasures] at hready
    rw [hadvance, strokeBy?, hchosen]
    exact Wrote.stroke hready (chooseStroke_length_pos hunder.fit.valid hunder.measure hchosen) hwrite rfl
  | idle | turn => exact Wrote.marks hnone rfl
  | stepPitch _ hstep =>
    obtain ⟨pitch, _, rfl⟩ := stepPitch_ok hstep
    exact Wrote.marks hnone rfl
  | openBranch =>
    obtain ⟨marks, hwritten, hmarks⟩ := openBranch_marks hunder.branched
    exact Wrote.marks (fun mark hmark => (hmarks mark hmark).2) hwritten
  | closeBranch _ hclose =>
    obtain ⟨marks, hwritten, hmarks⟩ := closeBranch_marks hunder.branched hclose
    exact Wrote.marks (fun mark hmark => (hmarks mark hmark).2) hwritten
  | shiftHue times =>
    rw [shiftHue_eq]
    exact Wrote.marks (fun mark hmark => (composer.hueMarks_composed times behind mark hmark).2) rfl

/-! ### Keeping the agreement -/

/-- A stroke written where reading stands goes to the end of its slot. -/
theorem Wrote.agrees {before after : Score} {stroke? : Option Stroke} {strokes : List (Slot × Stroke)} {slot : Slot}
    (hwrote : Wrote before after stroke?) (hcomposed : ∀ token ∈ before.written, token.Composed)
    (hslot : (Reading.through before.written).slot = slot) (hagrees : Agrees before.written strokes) :
    Agrees after.written (strokes ++ (stroke?.map (slot, ·)).toList) := by
  cases hwrote with
  | @stroke stroke ready done bars hready hpos hwrite hdone =>
    have hwritten : ready.written = List.replicate bars .measure ++ before.written := by rw [hready]
    have hreadyComposed : ∀ token ∈ ready.written, token.Composed := by
      intro token htoken
      rcases List.mem_append.1 (hwritten ▸ htoken) with hbar | hold
      · exact List.eq_of_mem_replicate hbar ▸ trivial
      · exact hcomposed token hold
    have hmarked : Agrees ready.written strokes :=
      hwritten ▸ hagrees.of_marks fun mark hmark => List.eq_of_mem_replicate hmark ▸ trivial
    have hstands : (Reading.through ready.written).slot = slot := by
      rw [hwritten, Reading.slot_measures, hslot]
    have hafter := hmarked.of_writes (Score.write_writes hreadyComposed hwrite) hpos
    rw [hstands] at hafter
    rw [hdone]
    exact hafter
  | marks hmarks hwritten =>
    rw [hwritten, Option.map_none, Option.toList_none, List.append_nil]
    exact hagrees.of_marks hmarks

theorem strokesFrom_agrees {text : List Char} {index : Nat} {strokes : List (Slot × Stroke)}
    (hunder : Underway depth composer) (hclosing : Closing depth text) (hinstrument : 0 ≤ composer.config.instrument)
    (hlegible : composer.Legible) (hagrees : Agrees composer.score.written strokes)
    (hwalk : walkOver [] composer index text = .ok after) :
    Agrees after.score.written (strokes ++ composer.strokesFrom index text) := by
  induction text generalizing composer depth index strokes with
  | nil =>
    cases hwalk
    rw [strokesFrom, List.append_nil]
    exact hagrees
  | cons symbol rest ih =>
    obtain ⟨⟨now, reports⟩, hstep, hrest⟩ := Except.bind_eq_ok_iff.1 hwalk
    rw [List.append_nil] at hstep
    have hstepped := stepped_of_carryOut hclosing (step_ok hunder.handlers hstep)
    have hnow := (hstepped.wrote hunder).agrees hunder.scored.composed hlegible.slot hagrees
    rw [← strokeOf?_eq hunder.handlers] at hnow
    have hafter := ih (hstepped.underway hunder) hclosing.tail (hstepped.sameSetting.config ▸ hinstrument)
      (hstepped.legible hunder hinstrument hlegible) hnow hrest
    rw [strokesFrom, hstep, ← List.append_assoc]
    exact hafter

omit [Source σ W] in
theorem begun_agrees (composer : Composer σ W) : Agrees composer.begun.score.written [] := by
  simpa using Agrees.nil.of_marks fun mark hmark => (composer.begun_marks mark hmark).2

variable [LawfulWeight W]

/-- The finished score is read without a fault, and at every time the notes read in a slot sound at the pitches of the stroke that covers the time when the strokes written in that slot are laid end to end. -/
theorem score_agrees_with_strokes {config : Config} (hreached : Reached config composer)
    (hhandlers : composer.handlers = defaultHandlers) (hinstrument : 0 ≤ config.instrument) {production : List Char}
    (hnested : Nested production) :
    ∃ events, (composer.compose production).state.score.events? = .ok events ∧
      ∀ (slot : Slot) (time : Nat) (pitch : Int),
        Event.Sounding events slot time pitch ↔ pitch ∈ pitchesAt (strokesIn slot (composer.strokesOf production)) time := by
  obtain ⟨hfit, hconfig⟩ := hreached.fitWith
  have hprogram : 0 ≤ composer.config.instrument := hconfig ▸ hinstrument
  have hbegun := begun_underway hfit hhandlers
  have hwhole : Nested (production ++ []) := by rwa [List.append_nil]
  obtain ⟨after, hpass, hwalk, hunder⟩ := passTo_isOk hfit hhandlers hwhole
  obtain ⟨reports, hcompose⟩ := compose_of_passTo ((checkBrackets_eq_ok_iff production).2 hnested) hpass
  have hlegible := begun_legible hfit hprogram
  have hread := walkOver_legible hbegun hwhole hprogram hlegible hwalk
  have hagrees := strokesFrom_agrees hbegun hnested hprogram hlegible (begun_agrees composer) hwalk
  obtain ⟨told, hbegin⟩ := begin_eq_ok hfit.valid
  rw [hcompose, strokesOf, hbegin]
  exact ⟨_, Score.events?_eq_ok (hunder.readable hread), hagrees.sounding⟩

theorem score_agrees_with_strokes_markov :
    ∃ (composer : Composer (Script Float) Float) (events : List Event), Reached { markov := true } composer ∧
      composer.corpus.isSome ∧ (composer.compose "gg[+gf]r".toList).state.score.events? = .ok events ∧
      ∀ slot time pitch, Event.Sounding events slot time pitch ↔
        pitch ∈ pitchesAt (strokesIn slot (composer.strokesOf "gg[+gf]r".toList)) time := by
  have hnested : Nested "gg[+gf]r".toList := by decide
  obtain ⟨composer, hreached, hhandlers, hcorpus⟩ := exists_reached_markov
  obtain ⟨events, hevents, hagrees⟩ := score_agrees_with_strokes hreached hhandlers (by decide) hnested
  exact ⟨composer, events, hreached, hcorpus, hevents, hagrees⟩

end TurtleMusic.Composer
