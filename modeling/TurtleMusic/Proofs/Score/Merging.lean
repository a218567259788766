import TurtleMusic.Proofs.Score.Writing
import Mathlib.Algebra.Ring.Nat
import Mathlib.Data.List.Chain
import Mathlib.Data.List.Forall2

/-!
# Scores without needless tokens

A rest that follows a rest becomes one with it and is encoded anew, and a note that may lengthen the one before it does so where the pitches are the same. So no two tokens stand side by side that could be one: of rests this holds in every score that strokes are written into, of notes where each of them may lengthen the one before it.
-/

namespace TurtleMusic

namespace Token

/-- The token is one note or several. -/
def isNotes : Token → Bool
  | notes _ _ => true
  | _ => false

theorem restUnits?_of_mark {token : Token} (hcomposed : token.Composed) (hmark : token.IsMark) : token.restUnits? = none := by
  cases token with
  | notes | pause => exact hmark.elim
  | verbatim => exact hcomposed.elim
  | _ => rfl

theorem isNotes_of_mark {token : Token} (hmark : token.IsMark) : token.isNotes = false := by
  cases token with
  | notes => exact hmark.elim
  | _ => rfl

theorem solePitch?_of_not_isNotes {token : Token} (hcomposed : token.Composed) (hnotes : token.isNotes = false) :
    token.solePitch? = none := by
  cases token with
  | notes => cases hnotes
  | verbatim => exact hcomposed.elim
  | _ => rfl

end Token

variable {tokens : List Token} {token : Token}

/-! ### Rests -/

/-- No rest follows a rest, and each is encoded the way its length is. -/
structure Merged (tokens : List Token) : Prop where
  apart : tokens.IsChain fun left right => left.restUnits? = none ∨ right.restUnits? = none
  encoded : ∀ token ∈ tokens, ∀ length, token.restUnits? = some length →
    ∃ codes, Codes.ofLength length = .ok codes ∧ token = .pause codes

namespace Merged

theorem nil : Merged [] := ⟨List.isChain_nil, by simp⟩

theorem cons (hmerged : Merged tokens) (hother : token.restUnits? = none) : Merged (token :: tokens) := by
  constructor
  · exact List.isChain_cons.2 ⟨fun _ _ => .inl hother, hmerged.apart⟩
  · simpa [hother] using hmerged.encoded

theorem cons_pause (hmerged : Merged tokens) {length : Int} {codes : Codes} (hcodes : Codes.ofLength length = .ok codes)
    (hnewest : ∀ newest ∈ tokens.head?, newest.restUnits? = none) : Merged (.pause codes :: tokens) := by
  obtain ⟨_, hnonempty, hunits⟩ := Codes.ofLength_ok hcodes
  constructor
  · exact List.isChain_cons.2 ⟨fun newest hhead => .inr (hnewest newest hhead), hmerged.apart⟩
  · rw [List.forall_mem_cons]
    refine ⟨fun own hown => ⟨codes, ?_, rfl⟩, hmerged.encoded⟩
    simp only [Token.restUnits?, List.isEmpty_eq_false_iff.2 hnonempty, Bool.false_eq_true, if_false,
      Option.some.injEq] at hown
    rwa [← hown, hunits]

theorem tail (hmerged : Merged (token :: tokens)) : Merged tokens :=
  ⟨(List.isChain_cons.1 hmerged.apart).2, (List.forall_mem_cons.1 hmerged.encoded).2⟩

theorem of_marks {marks : List Token} (hmerged : Merged tokens) (hmarks : ∀ mark ∈ marks, mark.Composed ∧ mark.IsMark) :
    Merged (marks ++ tokens) := by
  induction marks with
  | nil => exact hmerged
  | cons mark rest ih =>
    rw [List.forall_mem_cons] at hmarks
    exact (ih hmarks.2).cons (Token.restUnits?_of_mark hmarks.1.1 hmarks.1.2)

theorem reverse (hmerged : Merged tokens) : Merged tokens.reverse := by
  constructor
  · rw [List.isChain_reverse]
    exact hmerged.apart.imp fun _ _ => Or.symm
  · exact fun token htoken => hmerged.encoded token (List.mem_reverse.1 htoken)

end Merged

namespace Score

variable {score after : Score}

theorem addRest_merged (hcomposed : ∀ token ∈ score.written, token.Composed) (hmerged : Merged score.written) {length : Int}
    (hwrite : score.addRest length true = .ok after) : Merged after.written := by
  obtain ⟨codes, longer, older, hlonger, hbefore, hafter⟩ | ⟨codes, hcodes, hnewest, hafter⟩ :=
    addRest_written hcomposed hwrite
  · rw [hbefore] at hmerged hcomposed
    have hold : codes ≠ [] := (List.forall_mem_cons.1 hcomposed).1
    rw [hafter]
    apply hmerged.tail.cons_pause hlonger
    intro next hnext
    -- The rest that grows longer had no rest before it.
    simpa [Token.restUnits?, hold] using (List.isChain_cons.1 hmerged.apart).1 next hnext
  · rw [hafter]
    apply hmerged.cons_pause hcodes
    intro newest hhead
    by_contra hrest
    obtain ⟨length, hlength⟩ := Option.ne_none_iff_exists'.1 hrest
    obtain ⟨old, rfl, _⟩ := Token.eq_pause_of_restUnits? (hcomposed _ (List.mem_of_head? hhead)) hlength
    exact hnewest old hhead

/-- Whatever stroke is written, rests stay apart and encoded as their lengths are. -/
theorem write_merged (hcomposed : ∀ token ∈ score.written, token.Composed) (hmerged : Merged score.written) {stroke : Stroke}
    (hwrite : score.write stroke = .ok after) : Merged after.written := by
  cases stroke with
  | note pitch length extend =>
    obtain ⟨noted, hnote, rfl⟩ := Except.map_eq_ok_iff.1 hwrite
    obtain ⟨added, _, ⟨codes, older, hbefore, hafter⟩ | ⟨_, hafter⟩⟩ := addNote_written hcomposed hnote
    · rw [hbefore] at hmerged
      exact hafter ▸ hmerged.tail.cons rfl
    · exact hafter ▸ hmerged.cons rfl
  | harmony pitches length =>
    cases pitches with
    | nil => exact addRest_merged hcomposed hmerged hwrite
    | cons first others =>
      rw [write, addHarmony_cons] at hwrite
      obtain ⟨codes, _, rfl⟩ := Except.map_eq_ok_iff.1 hwrite
      exact hmerged.cons rfl
  | rest length => exact addRest_merged hcomposed hmerged hwrite

end Score

/-! ### Notes -/

/-- Single notes of one length, each as many times as it was struck in a row, come to this many strokes in all; neighbours are of different pitches. -/
structure Struck (unit : Codes) (strokes : Nat) (tokens : List Token) : Prop where
  apart : tokens.IsChain fun left right => ∀ pitch, left.solePitch? = some pitch → right.solePitch? ≠ some pitch
  repeated : ∃ counts : List Nat, counts.sum = strokes ∧ List.Forall₂ (fun token count => 0 < count ∧
    ∃ pitch, token = .notes ⟨pitch, (List.replicate count unit).flatten⟩ []) (tokens.filter Token.isNotes) counts

namespace Struck

variable {unit : Codes} {strokes : Nat}

theorem nil (unit : Codes) : Struck unit 0 [] := ⟨List.isChain_nil, [], rfl, List.Forall₂.nil⟩

theorem cons (hstruck : Struck unit strokes tokens) (hcomposed : token.Composed) (hother : token.isNotes = false) :
    Struck unit strokes (token :: tokens) := by
  have hnone := Token.solePitch?_of_not_isNotes hcomposed hother
  constructor
  · refine List.isChain_cons.2 ⟨fun next _ pitch hpitch => ?_, hstruck.apart⟩
    rw [hnone] at hpitch
    cases hpitch
  · rw [List.filter_cons_of_neg (by simp [hother])]
    exact hstruck.repeated

theorem tail (hstruck : Struck unit strokes (token :: tokens)) (hother : token.isNotes = false) :
    Struck unit strokes tokens := by
  refine ⟨(List.isChain_cons.1 hstruck.apart).2, ?_⟩
  have hrepeated := hstruck.repeated
  rwa [List.filter_cons_of_neg (by simp [hother])] at hrepeated

theorem of_marks {marks : List Token} (hstruck : Struck unit strokes tokens)
    (hmarks : ∀ mark ∈ marks, mark.Composed ∧ mark.IsMark) : Struck unit strokes (marks ++ tokens) := by
  induction marks with
  | nil => exact hstruck
  | cons mark rest ih =>
    rw [List.forall_mem_cons] at hmarks
    exact (ih hmarks.2).cons hmarks.1.1 (Token.isNotes_of_mark hmarks.1.2)

theorem strike (hstruck : Struck unit strokes tokens) {pitch : Int}
    (hnewest : ∀ newest ∈ tokens.head?, newest.solePitch? ≠ some pitch) :
    Struck unit (strokes + 1) (.notes ⟨pitch, unit⟩ [] :: tokens) := by
  obtain ⟨counts, hsum, hcounts⟩ := hstruck.repeated
  constructor
  · refine List.isChain_cons.2 ⟨fun newest hhead own hown => ?_, hstruck.apart⟩
    obtain ⟨_, rfl⟩ : 0 ≤ pitch ∧ pitch = own := by simpa [Token.solePitch?] using hown
    exact hnewest newest hhead
  · refine ⟨1 :: counts, by rw [List.sum_cons, hsum, Nat.add_comm], ?_⟩
    rw [List.filter_cons_of_pos rfl]
    exact List.Forall₂.cons ⟨Nat.one_pos, pitch, by simp⟩ hcounts

theorem strike_again {pitch : Int} {codes : Codes} (hstruck : Struck unit strokes (.notes ⟨pitch, codes⟩ [] :: tokens)) :
    Struck unit (strokes + 1) (.notes ⟨pitch, codes ++ unit⟩ [] :: tokens) := by
  obtain ⟨counts, hsum, hcounts⟩ := hstruck.repeated
  rw [List.filter_cons_of_pos rfl] at hcounts
  obtain ⟨count, others, ⟨_, own, hown⟩, hothers, rfl⟩ := List.forall₂_cons_left_iff.1 hcounts
  simp only [Token.notes.injEq, WrittenNote.mk.injEq, and_true] at hown
  obtain ⟨rfl, rfl⟩ := hown
  constructor
  · exact List.isChain_cons.2 (List.isChain_cons.1 hstruck.apart)
  · refine ⟨(count + 1) :: others, by rw [← hsum, List.sum_cons, List.sum_cons, Nat.add_right_comm], ?_⟩
    rw [List.filter_cons_of_pos rfl]
    refine List.Forall₂.cons ⟨Nat.succ_pos count, pitch, ?_⟩ hothers
    rw [List.replicate_succ', List.flatten_concat]

theorem reverse (hstruck : Struck unit strokes tokens) : Struck unit strokes tokens.reverse := by
  obtain ⟨counts, hsum, hcounts⟩ := hstruck.repeated
  constructor
  · rw [List.isChain_reverse]
    exact hstruck.apart.imp fun _ _ hapart pitch hright hleft => hapart pitch hleft hright
  · refine ⟨counts.reverse, by rw [List.sum_reverse, hsum], ?_⟩
    rw [List.filter_reverse]
    exact List.forall₂_reverse_iff.2 hcounts

end Struck

namespace Score

variable {score after : Score} {unit : Codes}

/-- A note of the one length, which may lengthen the note before it, is one more strike. -/
theorem write_note_struck (hcomposed : ∀ token ∈ score.written, token.Composed)
    (hstruck : Struck unit score.events score.written) {pitch length : Int} (hunit : Codes.ofLength length = .ok unit)
    (hwrite : score.write (.note pitch length true) = .ok after) : Struck unit after.events after.written := by
  have hevents : after.events = score.events + 1 := (write_counts hwrite).2
  obtain ⟨noted, hnote, rfl⟩ := Except.map_eq_ok_iff.1 hwrite
  obtain ⟨added, hadded, hcases⟩ := addNote_written hcomposed hnote
  cases hunit.symm.trans hadded
  rw [hevents]
  obtain ⟨codes, older, hbefore, hafter⟩ | ⟨hnewest, hafter⟩ := hcases
  · rw [hbefore] at hstruck
    exact hafter ▸ hstruck.strike_again
  · refine hafter ▸ hstruck.strike fun newest hhead hpitch => ?_
    obtain ⟨codes, rfl⟩ := Token.eq_notes_of_solePitch? (hcomposed _ (List.mem_of_head? hhead)) hpitch
    exact hnewest rfl codes hhead

theorem write_rest_struck (hcomposed : ∀ token ∈ score.written, token.Composed)
    (hstruck : Struck unit score.events score.written) {length : Int}
    (hwrite : score.write (.rest length) = .ok after) : Struck unit after.events after.written := by
  have hevents : after.events = score.events := (write_counts hwrite).2
  rw [hevents]
  obtain ⟨codes, longer, older, hlonger, hbefore, hafter⟩ | ⟨codes, hcodes, _, hafter⟩ := addRest_written hcomposed hwrite
  · rw [hbefore] at hstruck
    exact hafter ▸ (hstruck.tail rfl).cons (Codes.ofLength_ok hlonger).2.1 rfl
  · exact hafter ▸ hstruck.cons (Codes.ofLength_ok hcodes).2.1 rfl

end Score

end TurtleMusic
