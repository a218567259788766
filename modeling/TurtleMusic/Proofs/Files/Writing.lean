import TurtleMusic.Files.Tree
import TurtleMusic.Proofs.Outcome

/-!
# Files written and read back

Putting a file into a tree takes no folder away, so a path that led to a place still leads there, and what was put at the place is found at the end of the path.
-/

namespace TurtleMusic.Files.Tree

variable {tree : Tree} {path : String} {place : Place} {content : List UInt8}

theorem mem_places_put {other : Place} (hother : other ∈ tree.places) : other ∈ (tree.put place content).places := by
  simp only [places, put, List.map_cons, List.cons_append, List.mem_cons, List.mem_append] at hother ⊢
  by_cases hplace : other = place
  · exact .inl hplace
  · rcases hother with hfile | hfolder
    · obtain ⟨file, hmem, rfl⟩ := List.mem_map.1 hfile
      have hkept : file ∈ tree.files.filter fun file => file.1 != place :=
        List.mem_filter.2 ⟨hmem, by simpa using hplace⟩
      exact .inr (.inl (List.mem_map_of_mem hkept))
    · exact .inr (.inr hfolder)

theorem isFolder_put {folder : Place} (hfolder : tree.isFolder folder = true) :
    (tree.put place content).isFolder folder = true := by
  simp only [isFolder, Bool.or_eq_true, List.any_eq_true] at hfolder ⊢
  rcases hfolder with hown | ⟨other, hother, hbelow⟩
  · exact .inl hown
  · exact .inr ⟨other, mem_places_put hother, hbelow⟩

theorem follow_put {start found : Place} {parts : List String} (hfollow : tree.follow path start parts = .ok found) :
    (tree.put place content).follow path start parts = .ok found := by
  induction parts generalizing start with
  | nil => exact hfollow
  | cons part rest ih =>
    rw [follow] at hfollow ⊢
    split at hfollow
    · cases hfollow
    · next hfolder =>
      rw [Bool.not_eq_true', Bool.not_eq_false] at hfolder
      split at hfollow
      · cases hfollow
      · next hlength =>
        rw [isFolder_put hfolder, if_neg (by decide), if_neg hlength]
        exact ih hfollow

theorem locate_put {found : Place} (hlocate : tree.locate path = .ok found) :
    (tree.put place content).locate path = .ok found := by
  rw [locate, followFrom] at hlocate ⊢
  split at hlocate
  · cases hlocate
  · split at hlocate
    · cases hlocate
    · split at hlocate
      · cases hlocate
      · next hnull hempty hlong =>
        rw [if_neg hnull, if_neg hempty, if_neg hlong]
        exact follow_put hlocate

/-- A file is written where the path leads. -/
theorem write_eq_ok {written : Tree} (hwrite : tree.write path content = .ok written) :
    ∃ place, tree.locate path = .ok place ∧ written = tree.put place content := by
  rw [write] at hwrite
  split at hwrite
  · obtain ⟨_, _, hwrite⟩ := Except.bind_eq_ok_iff.1 hwrite
    cases hwrite
  · obtain ⟨place, hplace, hwrite⟩ := Except.bind_eq_ok_iff.1 hwrite
    split at hwrite
    · cases hwrite
    · cases hwrite
      exact ⟨place, hplace, rfl⟩

/-- What was written at the end of a path is read there. -/
theorem read_write {written : Tree} (hwrite : tree.write path content = .ok written) :
    ∃ place, written.read path = .ok (place, content) := by
  obtain ⟨place, hplace, rfl⟩ := write_eq_ok hwrite
  have hfile : (tree.put place content).file? place = some content := by
    rw [file?, put, List.lookup_cons, beq_self_eq_true]
  refine ⟨place, Except.bind_eq_ok_iff.2 ⟨place, locate_put hplace, ?_⟩⟩
  rw [hfile]
  rfl

end TurtleMusic.Files.Tree
