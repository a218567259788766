import TurtleMusic.Chance.Draw
import TurtleMusic.Proofs.Number.Sign
import TurtleMusic.Proofs.Outcome

/-!
# Draws that succeed

A draw is refused only if its options are no options: none at all, a negative weight, or nothing but weightless ones. A list without negative weights in which one option has weight can be drawn from, whatever is rolled, and what is drawn has weight.
-/

namespace TurtleMusic.Chance

open TurtleMusic.Number

variable {α σ W : Type} [Weight W]

theorem pick_ne_none {options : List (α × W)} (hpos : ∃ option ∈ options, 0 < option.2) (roll : W) :
    pick options roll ≠ none := by
  intro hnone
  rw [pick, Option.or_eq_none_iff, Option.map_eq_none_iff, List.getLast?_eq_none_iff, List.filter_eq_nil_iff] at hnone
  obtain ⟨option, hmem, hweight⟩ := hpos
  exact hnone.2 option hmem (decide_eq_true hweight)

/-- A roll reaches options with weight only. -/
theorem reach_weighty {roll reached : W} {options : List (α × W)} {drawn : α} (hreach : reach roll reached options = some drawn) :
    ∃ option ∈ options, option.1 = drawn ∧ ¬option.2 ≤ 0 := by
  induction options generalizing reached with
  | nil => cases hreach
  | cons option rest ih =>
    rw [reach] at hreach
    split at hreach
    · obtain ⟨found, hfound, hdrawn⟩ := ih hreach
      exact ⟨found, List.mem_cons_of_mem option hfound, hdrawn⟩
    · next hweight =>
      split at hreach
      · exact ⟨option, List.mem_cons_self, Option.some.inj hreach, hweight⟩
      · obtain ⟨found, hfound, hdrawn⟩ := ih hreach
        exact ⟨found, List.mem_cons_of_mem option hfound, hdrawn⟩

variable [LawfulWeight W]

/-- One option with weight gives the whole list weight. -/
theorem totalWeight_not_nonpos {options : List (α × W)} (hoptions : ∀ option ∈ options, ¬option.2 < 0)
    (hpos : ∃ option ∈ options, 0 < option.2) : ¬totalWeight options ≤ 0 := by
  obtain ⟨option, hmem, hweight⟩ := hpos
  have hsum : totalWeight options = sum (options.map (·.2)) := List.foldl_map.symm
  rw [hsum]
  apply sum_not_nonpos _ (List.mem_map_of_mem hmem) (LawfulWeight.not_nonpos_of_pos hweight)
  intro weight hweight
  obtain ⟨other, hother, rfl⟩ := List.mem_map.1 hweight
  exact hoptions other hother

/-! ### Drawing -/

theorem refusal?_eq_none {options : List (α × W)} (hoptions : ∀ option ∈ options, ¬option.2 < 0)
    (hpos : ∃ option ∈ options, 0 < option.2) : refusal? options = none := by
  have hnonempty : options ≠ [] := by
    rintro rfl
    obtain ⟨_, hmem, _⟩ := hpos
    exact absurd hmem List.not_mem_nil
  have hneg : (options.any fun option => option.2 < 0) = false := by
    simpa only [List.any_eq_false, decide_eq_true_eq] using hoptions
  rw [refusal?, if_neg (by simpa using hnonempty), hneg, if_neg (by decide), if_neg (totalWeight_not_nonpos hoptions hpos)]

theorem choose_isOk [Source σ W] {options : List (α × W)} (hoptions : ∀ option ∈ options, ¬option.2 < 0)
    (hpos : ∃ option ∈ options, 0 < option.2) (source : σ) : ∃ drawn, choose options source = .ok drawn := by
  rw [choose_eq, refusal?_eq_none hoptions hpos]
  dsimp only
  split
  · exact ⟨_, rfl⟩
  · rename_i hnone
    exact absurd hnone (pick_ne_none hpos _)

theorem pick_weighty {options : List (α × W)} {roll : W} {drawn : α} (hpick : pick options roll = some drawn) :
    ∃ option ∈ options, option.1 = drawn ∧ ¬option.2 ≤ 0 := by
  rw [pick, Option.or_eq_some_iff] at hpick
  rcases hpick with hreach | ⟨_, hlast⟩
  · exact reach_weighty hreach
  · obtain ⟨option, hoption, rfl⟩ := Option.map_eq_some_iff.1 hlast
    obtain ⟨hmem, hweight⟩ := List.mem_filter.1 (List.mem_of_getLast? hoption)
    exact ⟨option, hmem, rfl, LawfulWeight.not_nonpos_of_pos (of_decide_eq_true hweight)⟩

theorem choose_weighty [Source σ W] {options : List (α × W)} {source : σ} {drawn : α × σ}
    (hchoose : choose options source = .ok drawn) : ∃ option ∈ options, option.1 = drawn.1 ∧ ¬option.2 ≤ 0 := by
  rw [choose_eq] at hchoose
  split at hchoose
  · cases hchoose
  · dsimp only at hchoose
    split at hchoose
    · next hpick =>
      cases hchoose
      exact pick_weighty hpick
    · cases hchoose

theorem chooseColumn_isOk [Source σ W] {row : List W} (hrow : ∀ weight ∈ row, ¬weight < 0) (source : σ) :
    ∃ drawn, chooseColumn row source = .ok drawn := by
  rw [chooseColumn]
  split
  · rename_i hany
    obtain ⟨weight, hweight, hpos⟩ := List.any_eq_true.1 hany
    have hcolumns : ∀ option ∈ columns row, ¬option.2 < 0 := by
      intro option hoption
      obtain ⟨entry, hentry, rfl⟩ := List.mem_map.1 hoption
      exact hrow _ (List.fst_mem_of_mem_zipIdx hentry)
    have hsome : ∃ option ∈ columns row, 0 < option.2 := by
      obtain ⟨index, hindex, hget⟩ := List.mem_iff_getElem.1 hweight
      refine ⟨(index, weight), List.mem_map.2 ⟨(weight, index), ?_, rfl⟩, of_decide_eq_true hpos⟩
      exact List.mk_mem_zipIdx_iff_getElem?.2 (hget ▸ List.getElem?_eq_getElem hindex)
    obtain ⟨drawn, hdrawn⟩ := choose_isOk hcolumns hsome source
    exact ⟨_, by rw [hdrawn]; rfl⟩
  · exact ⟨_, rfl⟩

/-- A column is drawn unless no entry of the row is positive, and the column drawn has weight. -/
theorem chooseColumn_ok [Source σ W] {row : List W} {source after : σ} {drawn : Option Nat}
    (hchoose : chooseColumn row source = .ok (drawn, after)) :
    (drawn = none ∧ ∀ weight ∈ row, ¬0 < weight) ∨
      ∃ (column : Nat) (hcolumn : column < row.length), drawn = some column ∧ ¬row[column] ≤ 0 := by
  rw [chooseColumn] at hchoose
  split at hchoose
  · obtain ⟨⟨column, source⟩, hdrawn, hresult⟩ := Except.map_eq_ok_iff.1 hchoose
    cases hresult
    obtain ⟨option, hoption, hfirst, hweight⟩ := choose_weighty hdrawn
    obtain ⟨⟨weight, index⟩, hentry, rfl⟩ := List.mem_map.1 hoption
    cases hfirst
    obtain ⟨hindex, hget⟩ := List.getElem?_eq_some_iff.1 (List.mk_mem_zipIdx_iff_getElem?.1 hentry)
    refine .inr ⟨column, hindex, rfl, ?_⟩
    rw [hget]
    exact hweight
  · next hnone =>
    cases hchoose
    refine .inl ⟨rfl, fun weight hweight hpos => hnone ?_⟩
    exact List.any_eq_true.2 ⟨weight, hweight, decide_eq_true hpos⟩

end TurtleMusic.Chance
