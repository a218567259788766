import TurtleMusic.Proofs.Corpus.Counting
import TurtleMusic.Proofs.Number.Tally

/-!
# What a corpus lets follow

A note is drawn from a corpus only if it was heard there after the last two notes, or after the last one where nothing was heard after both; and if anything was heard after the last note, a note is drawn. Between the melodies and the draw stand counts, shares of counts and running totals, none of which loses a note that was heard or brings in one that was not.
-/

namespace TurtleMusic

open TurtleMusic.Number TurtleMusic.Chance

namespace PitchClass

theorem ofPitch_of_emod_eq {pitch other : Int} (hclass : pitch % 12 = other % 12) : ofPitch pitch = ofPitch other := by
  apply Fin.ext
  simp only [ofPitch, hclass]

theorem ofPitch_toPitch (pc : PitchClass) : ofPitch pc.toPitch = pc := by
  apply Fin.ext
  simp only [ofPitch, toPitch]
  omega

end PitchClass

namespace Corpus

/-- The notes stand in a row somewhere in one of the lines. -/
def Heard (lines : List Line) (notes : Line) : Prop := ∃ line ∈ lines, notes <:+: line

instance (lines : List Line) (notes : Line) : Decidable (Heard lines notes) :=
  inferInstanceAs (Decidable (∃ line ∈ lines, notes <:+: line))

/-- What a model may let follow: what was heard after the last two notes if it looks that far back and anything was, and else what was heard after the last note. -/
def Continues (order : MarkovOrder) (lines : List Line) (previous : Option PitchClass) (current next : PitchClass) : Prop :=
  (∃ earlier, order = .two ∧ previous = some earlier ∧ Heard lines [earlier, current, next]) ∨
    Heard lines [current, next] ∧
      ∀ earlier, order = .two → previous = some earlier → ∀ other, ¬Heard lines [earlier, current, other]

instance (order : MarkovOrder) (lines : List Line) (previous : Option PitchClass) (current next : PitchClass) :
    Decidable (Continues order lines previous current next) :=
  inferInstanceAs (Decidable (_ ∨ _ ∧ _))

variable {lines : List Line} {previous current next : PitchClass}

theorem Heard.tail {note : PitchClass} {notes : Line} (hheard : Heard lines (note :: notes)) : Heard lines notes := by
  obtain ⟨line, hline, hinfix⟩ := hheard
  exact ⟨line, hline, (List.suffix_cons note notes).isInfix.trans hinfix⟩

theorem Continues.heard {order : MarkovOrder} {previous : Option PitchClass}
    (hcontinues : Continues order lines previous current next) : Heard lines [current, next] := by
  rcases hcontinues with ⟨_, _, _, hheard⟩ | ⟨hheard, _⟩
  · exact hheard.tail
  · exact hheard

/-! ### Counts -/

theorem mem_pairs {line : Line} : (current, next) ∈ pairs line ↔ [current, next] <:+: line := by
  induction line with
  | nil => simp [pairs]
  | cons first rest ih =>
    rw [List.infix_cons_iff, ← ih]
    cases rest <;> simp [pairs, List.prefix_cons_iff]

theorem mem_triples {line : Line} : (previous, current, next) ∈ triples line ↔ [previous, current, next] <:+: line := by
  induction line with
  | nil => simp [triples]
  | cons first rest ih =>
    rw [List.infix_cons_iff, ← ih]
    rcases rest with _ | ⟨second, _ | ⟨third, later⟩⟩ <;> simp [triples, List.prefix_cons_iff]

theorem count_pairs_pos : 0 < (lines.flatMap pairs).count (current, next) ↔ Heard lines [current, next] := by
  rw [List.count_pos_iff, List.mem_flatMap]
  simp [Heard, mem_pairs]

theorem count_triples_pos :
    0 < (lines.flatMap triples).count (previous, current, next) ↔ Heard lines [previous, current, next] := by
  rw [List.count_pos_iff, List.mem_flatMap]
  simp [Heard, mem_triples]

/-! ### Shares -/

variable {σ W : Type} [Weight W] [SharingWeight W] {counts : PitchClass → Nat}

omit [SharingWeight W] in
theorem shares_get (counts : PitchClass → Nat) (next : PitchClass) :
    (shares counts : Row W).get next =
      if sum ((List.ofFn counts).map (tally : Nat → W)) ≤ 0 then 0
      else tally (counts next) / sum ((List.ofFn counts).map (tally : Nat → W)) := by
  have hrow : (Vector.ofFn fun next => (tally (counts next) : W)).toList = (List.ofFn counts).map tally := by
    rw [Vector.toList_ofFn, List.map_ofFn]
    rfl
  rw [shares, normalize, hrow, Vector.get_eq_getElem, Vector.getElem_map, Vector.getElem_ofFn]

/-- A count that is not nought has a positive share. -/
theorem share_pos (hpos : 0 < counts next) : 0 < (shares counts : Row W).get next := by
  have hmem : counts next ∈ List.ofFn counts := List.mem_ofFn.2 ⟨next, rfl⟩
  rw [shares_get, if_neg (sum_tally_not_nonpos hmem hpos)]
  exact SharingWeight.share_pos (List.length_ofFn.le) hmem hpos

theorem sum_replicate_zero (count : Nat) : sum (List.replicate count (0 : W)) = 0 := by
  induction count with
  | zero => rfl
  | succ count ih =>
    rw [sum, List.replicate_succ, List.foldl_cons, SharingWeight.zero_add_zero]
    exact ih

theorem share_nonpos (hzero : counts next = 0) : (shares counts : Row W).get next ≤ 0 := by
  rw [shares_get, hzero]
  split
  · exact SharingWeight.zero_nonpos
  · next hsum =>
    obtain ⟨other, hother⟩ : ∃ other, 0 < counts other := by
      by_contra hnone
      have hall : (List.ofFn counts).map (tally : Nat → W) = List.replicate 12 0 := by
        rw [List.eq_replicate_iff]
        refine ⟨by simp, fun weight hweight => ?_⟩
        obtain ⟨_, hcount, rfl⟩ := List.mem_map.1 hweight
        obtain ⟨other, rfl⟩ := List.mem_ofFn.1 hcount
        rw [Nat.eq_zero_of_not_pos fun hpos => hnone ⟨other, hpos⟩]
        rfl
      rw [hall, sum_replicate_zero] at hsum
      exact hsum SharingWeight.zero_nonpos
    exact SharingWeight.share_nonpos (List.length_ofFn.le) (List.mem_ofFn.2 ⟨other, rfl⟩) hother

theorem share_pos_iff : 0 < (shares counts : Row W).get next ↔ 0 < counts next := by
  refine ⟨fun hshare => Nat.pos_of_ne_zero fun hzero => ?_, share_pos⟩
  exact LawfulWeight.not_nonpos_of_pos hshare (share_nonpos hzero)

theorem any_share_pos_iff :
    ((shares counts : Row W).toList.any fun share => 0 < share) = true ↔ ∃ next, 0 < counts next := by
  rw [List.any_eq_true]
  constructor
  · rintro ⟨share, hshare, hpos⟩
    obtain ⟨index, hindex, rfl⟩ := Vector.mem_iff_getElem.1 (Vector.mem_toList_iff.1 hshare)
    exact ⟨⟨index, hindex⟩, share_pos_iff.1 (of_decide_eq_true hpos)⟩
  · rintro ⟨next, hpos⟩
    exact ⟨(shares counts).get next, Vector.mem_toList_iff.2 (Vector.getElem_mem next.isLt), decide_eq_true (share_pos hpos)⟩

/-- Drawn from shares of counts is a note that was counted, or none if none was. -/
theorem chooseColumn_shares [Source σ W] {source after : σ} {drawn : Option Nat}
    (hchoose : chooseColumn (shares counts : Row W).toList source = .ok (drawn, after)) :
    (drawn = none ∧ ∀ next, counts next = 0) ∨ ∃ next : PitchClass, drawn = some next.val ∧ 0 < counts next := by
  rcases chooseColumn_ok hchoose with ⟨rfl, hnone⟩ | ⟨column, hcolumn, rfl, hweight⟩
  · refine .inl ⟨rfl, fun next => Nat.eq_zero_of_not_pos fun hpos => ?_⟩
    exact hnone _ (Vector.mem_toList_iff.2 (Vector.getElem_mem next.isLt)) (share_pos hpos)
  · rw [Vector.length_toList] at hcolumn
    refine .inr ⟨⟨column, hcolumn⟩, rfl, Nat.pos_of_ne_zero fun hzero => hweight ?_⟩
    rw [Vector.getElem_toList]
    exact share_nonpos hzero

end Corpus

namespace CorpusModel

open Corpus

variable {σ W : Type} [Weight W] [SharingWeight W] {model : CorpusModel W} {current : PitchClass} {previous : Option PitchClass}

theorem chances_of_pair (hcounted : model.Counted) {earlier other : PitchClass} (horder : model.order = .two)
    (hheard : Heard model.heard [earlier, current, other]) :
    model.chances current (some earlier) =
      shares fun next => (model.heard.flatMap triples).count (earlier, current, next) := by
  unfold chances
  rw [horder]
  dsimp only
  rw [hcounted.pairTable_get, if_pos (any_share_pos_iff.2 ⟨other, count_triples_pos.2 hheard⟩)]

theorem chances_of_last (hcounted : model.Counted)
    (hunheard : ∀ earlier, model.order = .two → previous = some earlier → ∀ other, ¬Heard model.heard [earlier, current, other]) :
    model.chances current previous = shares fun next => (model.heard.flatMap pairs).count (current, next) := by
  unfold chances
  split
  · next earlier horder =>
    dsimp only
    rw [hcounted.pairTable_get, if_neg, hcounted.table_get]
    intro hany
    obtain ⟨other, hpos⟩ := any_share_pos_iff.1 hany
    exact hunheard earlier horder rfl other (count_triples_pos.1 hpos)
  · exact hcounted.table_get current

/-- A note that is drawn may follow, and none is drawn only if nothing was heard after the last note. -/
theorem next_ok [Source σ W] (hcounted : model.Counted) {source after : σ} {drawn : Option PitchClass}
    (hnext : model.next (some current) previous source = .ok (drawn, after)) :
    (drawn = none ∧ ∀ next, ¬Heard model.heard [current, next]) ∨
      ∃ next, drawn = some next ∧ Continues model.order model.heard previous current next := by
  obtain ⟨⟨column, source⟩, hchoose, hresult⟩ := Except.map_eq_ok_iff.1 hnext
  cases hresult
  -- The last two notes decide if anything was heard after them.
  by_cases hpair : ∃ earlier other, model.order = .two ∧ previous = some earlier ∧ Heard model.heard [earlier, current, other]
  · obtain ⟨earlier, other, horder, rfl, hheard⟩ := hpair
    rw [chances_of_pair hcounted horder hheard] at hchoose
    rcases chooseColumn_shares hchoose with ⟨_, hnone⟩ | ⟨next, rfl, hpos⟩
    · exact absurd (hnone other) (Nat.ne_of_gt (count_triples_pos.2 hheard))
    · refine .inr ⟨next, congrArg some (PitchClass.ofPitch_toPitch next), .inl ⟨earlier, horder, rfl, count_triples_pos.1 hpos⟩⟩
  · have hunheard : ∀ earlier, model.order = .two → previous = some earlier →
        ∀ other, ¬Heard model.heard [earlier, current, other] :=
      fun earlier horder hprevious other hheard => hpair ⟨earlier, other, horder, hprevious, hheard⟩
    rw [chances_of_last hcounted hunheard] at hchoose
    rcases chooseColumn_shares hchoose with ⟨rfl, hnone⟩ | ⟨next, rfl, hpos⟩
    · exact .inl ⟨rfl, fun next hheard => Nat.ne_of_gt (count_pairs_pos.2 hheard) (hnone next)⟩
    · exact .inr ⟨next, congrArg some (PitchClass.ofPitch_toPitch next), .inr ⟨count_pairs_pos.1 hpos, hunheard⟩⟩

end CorpusModel

end TurtleMusic
