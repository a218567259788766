import TurtleMusic.Chance.Script
import TurtleMusic.Proofs.Chance.Rolls
import TurtleMusic.Proofs.Corpus.Frequencies

/-!
# Every continuation is drawn

The chances of a model are positive just for the notes it may let follow. What it draws is therefore always one of these, and with exact shares each of them is drawn by some draw on the unit scale. Nothing is drawn only before the first note and after a note that nothing ever followed: where nothing follows the last note, nothing follows the last two.
-/

namespace TurtleMusic

open TurtleMusic.Number TurtleMusic.Chance

namespace CorpusModel

open Corpus

/-- A note has a chance just if it may follow. -/
theorem chances_pos_iff {W : Type} [Weight W] [SharingWeight W] {model : CorpusModel W} (hcounted : model.Counted)
    {previous : Option PitchClass} {current next : PitchClass} :
    0 < (model.chances current previous).get next ↔ Continues model.order model.heard previous current next := by
  by_cases hpair : ∃ earlier other, model.order = .two ∧ previous = some earlier ∧ Heard model.heard [earlier, current, other]
  · obtain ⟨earlier, other, horder, rfl, hheard⟩ := hpair
    rw [chances_of_pair hcounted horder hheard, share_pos_iff, count_triples_pos]
    constructor
    · exact fun hnext => .inl ⟨earlier, horder, rfl, hnext⟩
    · rintro (⟨_, _, heq, hnext⟩ | ⟨_, hunheard⟩)
      · cases heq
        exact hnext
      · exact absurd hheard (hunheard earlier horder rfl other)
  · have hunheard : ∀ earlier, model.order = .two → previous = some earlier →
        ∀ other, ¬Heard model.heard [earlier, current, other] :=
      fun earlier horder hprevious other hheard => hpair ⟨earlier, other, horder, hprevious, hheard⟩
    rw [chances_of_last hcounted hunheard, share_pos_iff, count_pairs_pos]
    constructor
    · exact fun hnext => .inr ⟨hnext, hunheard⟩
    · rintro (⟨earlier, horder, hprevious, hnext⟩ | ⟨hnext, _⟩)
      · exact absurd hnext (hunheard earlier horder hprevious next)
      · exact hnext

/-- Nothing is drawn just if nothing was heard after the last note. -/
theorem next_none_iff {σ W : Type} [Weight W] [SharingWeight W] [Source σ W] {model : CorpusModel W} (hcounted : model.Counted)
    {previous : Option PitchClass} {current : PitchClass} {source after : σ} {drawn : Option PitchClass}
    (hnext : model.next (some current) previous source = .ok (drawn, after)) :
    drawn = none ↔ ∀ next, ¬Heard model.heard [current, next] := by
  rcases next_ok hcounted hnext with ⟨rfl, hnone⟩ | ⟨next, rfl, hcontinues⟩
  · exact iff_of_true rfl hnone
  · exact iff_of_false (Option.some_ne_none next) fun hnone => hnone next hcontinues.heard

/-- A note that may follow is drawn by some draw on the unit scale. -/
theorem exists_draw_next {model : CorpusModel Rat} (hcounted : model.Counted) {previous : Option PitchClass}
    {current next : PitchClass} (hcontinues : Continues model.order model.heard previous current next) :
    ∃ draw : Rat, 0 ≤ draw ∧ draw ≤ 1 ∧ ∀ (σ : Type) [Source σ Rat] (source : σ),
      (Source.unit source : Rat × σ).1 = draw → ∃ after, model.next (some current) previous source = .ok (some next, after) := by
  have hrow : ∀ chance ∈ (model.chances current previous).toList, 0 ≤ chance :=
    fun chance hchance => not_lt.1 (chances_not_neg hcounted current previous chance hchance)
  have hcolumn : next.val < (model.chances current previous).toList.length := by
    rw [Vector.length_toList]
    exact next.isLt
  have hweight : 0 < (model.chances current previous).toList[next.val] := by
    rw [Vector.getElem_toList]
    exact (chances_pos_iff hcounted).2 hcontinues
  obtain ⟨draw, hlow, hhigh, hdraws⟩ := exists_draw_column hrow hcolumn hweight
  refine ⟨draw, hlow, hhigh, fun σ _ source hdraw => ?_⟩
  obtain ⟨after, hchoose⟩ := hdraws σ source hdraw
  refine ⟨after, Except.map_eq_ok_iff.2 ⟨_, hchoose, ?_⟩⟩
  exact congrArg (some · , after) (PitchClass.ofPitch_toPitch next)

/-- However a model was updated, it counts what its source lists under its key. -/
theorem afterUpdates_counted {W : Type} [Weight W] {source : CorpusSource} {key : KeyRef} {order : Int}
    {made : CorpusModel W × List Report} (hmade : make source key order = .ok made) (updates : List Update) :
    (made.1.afterUpdates updates).Counted ∧
      (made.1.afterUpdates updates).heard = source.linesIn (made.1.afterUpdates updates).key := by
  obtain ⟨number, filed, active, _, hfiled, _, rfl⟩ := make_ok hmade
  rw [afterUpdates_ofFiled]
  exact ⟨ofFiled_counted _ _ _, CorpusSource.inKey_of_file hfiled _⟩

/-- However a model was made and updated, and whatever is rolled, a draw succeeds. It gives nothing just if there is no last note, the last note is negative or nothing follows it in a melody of the active key; and else one of the notes that may follow, each of which is given by some draw on the unit scale. -/
theorem next_draws_continuations {source : CorpusSource} {key : KeyRef} {order : Int} {made : CorpusModel Rat × List Report}
    (hmade : make source key order = .ok made) (updates : List Update) (current previous : Option Int) :
    let model := made.1.afterUpdates updates
    let lines := source.linesIn model.key
    let last := current.bind PitchClass.heard?
    let earlier := previous.bind PitchClass.heard?
    (∀ (σ : Type) [Source σ Rat] (chance : σ), ∃ drawn after, model.next last earlier chance = .ok (drawn, after) ∧
      (drawn = none ↔ ∀ pitch, current = some pitch → 0 ≤ pitch → ∀ next, ¬Heard lines [PitchClass.ofPitch pitch, next]) ∧
      ∀ next, drawn = some next →
        ∃ pitch, current = some pitch ∧ 0 ≤ pitch ∧ Continues model.order lines earlier (PitchClass.ofPitch pitch) next) ∧
    ∀ pitch next, current = some pitch → 0 ≤ pitch → Continues model.order lines earlier (PitchClass.ofPitch pitch) next →
      ∃ draw : Rat, 0 ≤ draw ∧ draw ≤ 1 ∧ ∀ (σ : Type) [Source σ Rat] (chance : σ),
        (Source.unit chance : Rat × σ).1 = draw → ∃ after, model.next last earlier chance = .ok (some next, after) := by
  intro model lines last earlier
  obtain ⟨hcounted, hheard⟩ := afterUpdates_counted hmade updates
  have hlines : model.heard = lines := hheard
  refine ⟨fun σ _ chance => ?_, fun pitch next hcurrent hpitch hcontinues => ?_⟩
  · obtain ⟨⟨drawn, after⟩, hnext⟩ := next_isOk hcounted last earlier chance
    refine ⟨drawn, after, hnext, ?_⟩
    by_cases hsounding : ∃ pitch, current = some pitch ∧ 0 ≤ pitch
    · obtain ⟨pitch, rfl, hpitch⟩ := hsounding
      have hlast : last = some (PitchClass.ofPitch pitch) := if_pos hpitch
      rw [hlast] at hnext
      have hnone := next_none_iff hcounted hnext
      rw [hlines] at hnone
      refine ⟨hnone.trans ⟨fun hunheard => ?_, fun hunheard => hunheard pitch rfl hpitch⟩, fun next hdrawn => ?_⟩
      · rintro _ ⟨⟩ _
        exact hunheard
      · rcases next_ok hcounted hnext with ⟨hsilent, _⟩ | ⟨note, hnote, hcontinues⟩
        · rw [hsilent] at hdrawn
          cases hdrawn
        · rw [hnote] at hdrawn
          cases hdrawn
          exact ⟨pitch, rfl, hpitch, hlines ▸ hcontinues⟩
    · have hlast : last = none := by
        refine Option.bind_eq_none_iff.2 fun pitch hcurrent => if_neg fun hpitch => hsounding ⟨pitch, hcurrent, hpitch⟩
      rw [hlast] at hnext
      cases hnext
      exact ⟨iff_of_true rfl fun pitch hcurrent hpitch => absurd ⟨pitch, hcurrent, hpitch⟩ hsounding, nofun⟩
  · subst hcurrent
    have hlast : last = some (PitchClass.ofPitch pitch) := if_pos hpitch
    rw [hlast]
    rw [← hlines] at hcontinues
    exact exists_draw_next hcounted hcontinues

/-- Melodies in which D goes on differently behind C and behind G. -/
def forked : CorpusSource := [(.name "C", [.text "C5q D5q E5q", .notes [.integer 67, .text "D", .integer 60]])]

example : forked.linesIn 0 = [[0, 2, 4], [7, 2, 0]] := by rfl

/-- Behind C and D only E is drawn, but behind D alone C is drawn as well, and behind E nothing. -/
theorem next_draws_continuations_forked :
    ∃ made : CorpusModel Rat × List Report, make forked (.name "C") 2 = .ok made ∧
      (∀ chance : Script Rat, ∃ after, made.1.next (PitchClass.heard? 74) (PitchClass.heard? 60) chance = .ok (some 4, after)) ∧
      (∃ draw : Rat, 0 ≤ draw ∧ draw ≤ 1 ∧ ∀ chance : Script Rat, (Source.unit chance : Rat × Script Rat).1 = draw →
        ∃ after, made.1.next (PitchClass.heard? 74) (PitchClass.heard? (-1)) chance = .ok (some 0, after)) ∧
      ∀ chance : Script Rat, ∃ after, made.1.next (PitchClass.heard? 64) (PitchClass.heard? 62) chance = .ok (none, after) := by
  have hmade : make forked (.name "C") 2 = .ok ((ofFiled .two [(0, [[0, 2, 4], [7, 2, 0]])] 0 : CorpusModel Rat), []) := rfl
  refine ⟨_, hmade, fun chance => ?_, ?_, fun chance => ?_⟩
  · obtain ⟨drawn, after, hnext, hnone, hsome⟩ := (next_draws_continuations hmade [] (some 74) (some 60)).1 (Script Rat) chance
    cases drawn with
    | none =>
      have hheard : Heard (forked.linesIn 0) [2, 4] := by decide
      exact absurd hheard (hnone.1 rfl 74 rfl (by decide) 4)
    | some next =>
      obtain ⟨pitch, hpitch, _, hcontinues⟩ := hsome next rfl
      cases hpitch
      have honly : ∀ next, Continues .two (forked.linesIn 0) (some 0) 2 next → next = 4 := by decide
      obtain rfl := honly next hcontinues
      exact ⟨after, hnext⟩
  · have hcontinues : Continues .two (forked.linesIn 0) ((some (-1)).bind PitchClass.heard?) (PitchClass.ofPitch 74) 0 := by
      decide
    obtain ⟨draw, hlow, hhigh, hdraws⟩ :=
      (next_draws_continuations hmade [] (some 74) (some (-1))).2 74 0 rfl (by decide) hcontinues
    exact ⟨draw, hlow, hhigh, hdraws (Script Rat)⟩
  · obtain ⟨drawn, after, hnext, hnone, _⟩ := (next_draws_continuations hmade [] (some 64) (some 62)).1 (Script Rat) chance
    have hunheard : ∀ next, ¬Heard (forked.linesIn 0) [4, next] := by decide
    have hdrawn : drawn = none := hnone.2 fun pitch hpitch _ => by
      cases hpitch
      exact hunheard
    subst hdrawn
    exact ⟨after, hnext⟩

end CorpusModel

end TurtleMusic
