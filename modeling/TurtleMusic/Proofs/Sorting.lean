import Mathlib.Data.List.Nodup
import Mathlib.Data.List.Pairwise

/-!
# Stable sorting

Sorting keeps what it need not change: items that count as equal stay in the order they were in, and items that were in order already are not moved past each other, whatever stands between them.
-/

namespace List

variable {α : Type} {le : α → α → Bool}

theorem nodup_eraseDups [BEq α] [LawfulBEq α] (items : List α) : items.eraseDups.Nodup := by
  cases items with
  | nil => exact nodup_nil
  | cons first rest =>
    rw [eraseDups_cons, nodup_cons, mem_eraseDups]
    exact ⟨by simp, nodup_eraseDups _⟩
termination_by items.length
decreasing_by exact Nat.lt_succ_of_le (length_filter_le _ _)

section Sorted

variable (htrans : ∀ a b c : α, le a b → le b c → le a c) (htotal : ∀ a b : α, le a b || le b a)
include htrans htotal

/-- The items that are in order already come out in that order. -/
theorem filter_mergeSort {items : List α} {keep : α → Bool} (hsorted : (items.filter keep).Pairwise fun a b => le a b) :
    (items.mergeSort le).filter keep = items.filter keep := by
  have hsublist : (items.filter keep).Sublist (items.mergeSort le) :=
    sublist_mergeSort htrans htotal hsorted filter_sublist
  have hkept : (items.filter keep).Sublist ((items.mergeSort le).filter keep) := by
    have hfiltered := hsublist.filter keep
    rwa [filter_filter, filter_congr fun item _ => Bool.and_self (keep item)] at hfiltered
  exact (hkept.eq_of_length ((mergeSort_perm items le).filter keep).length_eq.symm).symm

/-- What is read from some of the items comes out in the order it was in, if those items were in order already. -/
theorem filterMap_mergeSort {β : Type} {read : α → Option β} {items : List α}
    (hsorted : (items.filter fun item => (read item).isSome).Pairwise fun a b => le a b) :
    (items.mergeSort le).filterMap read = items.filterMap read := by
  have hread : ∀ items : List α, (items.filter fun item => (read item).isSome).filterMap read = items.filterMap read := by
    intro items
    rw [filterMap_filter]
    refine filterMap_congr fun item _ => ?_
    split
    · rfl
    · next hnone => rw [Option.not_isSome_iff_eq_none.1 hnone]
  rw [← hread, filter_mergeSort htrans htotal hsorted, hread]

/-- Items that count as equal keep the relation that earlier items have to later ones. -/
theorem pairwise_mergeSort_of_pairwise {items : List α} {before : α → α → Prop} (hbefore : items.Pairwise before) :
    (items.mergeSort le).Pairwise fun a b => le a b ∧ (le b a → before a b) := by
  rw [← mergeSort_zipIdx, pairwise_map]
  have hsorted := pairwise_mergeSort (zipIdxLE_trans htrans) (zipIdxLE_total htotal) items.zipIdx
  have hperm := mergeSort_perm items.zipIdx (zipIdxLE le)
  have hpositions : (items.zipIdx.map Prod.snd).Nodup := by
    rw [zipIdx_map_snd]
    exact nodup_range'
  have hapart : (items.zipIdx.mergeSort (zipIdxLE le)).Pairwise fun a b => a.2 ≠ b.2 :=
    pairwise_map.1 ((hperm.map Prod.snd).nodup_iff.2 hpositions)
  refine (hsorted.and hapart).imp_of_mem ?_
  rintro ⟨a, i⟩ ⟨b, j⟩ ha hb ⟨hle, hne⟩
  obtain ⟨hi, hai⟩ := getElem?_eq_some_iff.1 (mem_zipIdx_iff_getElem?.1 (hperm.mem_iff.1 ha))
  obtain ⟨hj, hbj⟩ := getElem?_eq_some_iff.1 (mem_zipIdx_iff_getElem?.1 (hperm.mem_iff.1 hb))
  dsimp only at hi hai hj hbj hne ⊢
  rw [zipIdxLE] at hle
  dsimp only at hle
  split at hle
  · next hforth =>
    refine ⟨hforth, fun hback => ?_⟩
    rw [if_pos hback, decide_eq_true_eq] at hle
    rw [← hai, ← hbj]
    exact pairwise_iff_getElem.1 hbefore i j hi hj (Nat.lt_of_le_of_ne hle hne)
  · cases hle

end Sorted

end List
