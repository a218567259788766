import TurtleMusic.Proofs.Score.Writing
import Mathlib.Algebra.Ring.Nat

/-!
# Time between bar lines

A score is cut into pieces at its bar lines. While it is written only its newest token changes, so the piece it is in is the only one whose time still grows; the pieces before the last bar line are done.
-/

namespace TurtleMusic

/-- The time a token takes up; notes that start together take it up once. -/
def Token.span : Token → Nat
  | notes first _ => first.codes.units
  | pause codes => codes.units
  | _ => 0

/-- The time some tokens take up one after the other. -/
def span (tokens : List Token) : Nat := (tokens.map Token.span).sum

/-- The tokens of a score, cut at the bar lines. -/
def Score.pieces (score : Score) : List (List Token) := score.tokens.splitOn .measure

def Score.bars (score : Score) : Nat := score.tokens.count .measure

theorem span_cons (token : Token) (tokens : List Token) : span (token :: tokens) = token.span + span tokens := rfl

theorem span_reverse (tokens : List Token) : span tokens.reverse = span tokens := by
  rw [span, span, List.map_reverse, List.sum_reverse]

theorem Token.IsMark.span_eq {token : Token} (hmark : token.IsMark) : token.span = 0 := by
  cases token with
  | notes | pause => exact hmark.elim
  | _ => rfl

theorem span_marks {marks : List Token} (hmarks : ∀ mark ∈ marks, mark.IsMark) (written : List Token) :
    span (marks ++ written) = span written := by
  induction marks with
  | nil => rfl
  | cons mark rest ih =>
    rw [List.forall_mem_cons] at hmarks
    rw [List.cons_append, span_cons, hmarks.1.span_eq, Nat.zero_add, ih hmarks.2]

/-- A stroke adds its length to the time that the tokens take up, also where it makes the newest token longer. -/
theorem Writes.span_eq {stroke : Stroke} {before after : List Token} (hwrites : Writes stroke before after) :
    (span after : Int) = span before + stroke.length := by
  cases hwrites with
  | @notes codes first others _ _ _ hlength =>
    have htoken : (Score.harmony codes first others).span = codes.units := rfl
    rw [span_cons, htoken]
    omega
  | @longerNote pitch codes added older _ hlength =>
    simp only [span_cons, Token.span, Codes.units_append]
    omega
  | rest _ _ hlength =>
    simp only [span_cons, Token.span]
    omega
  | longerRest _ _ hlength =>
    simp only [span_cons, Token.span]
    omega

/-- Tokens, newest first, with this many bar lines, each behind a whole measure, and with this much time behind the last. -/
inductive Barred (whole : Int) : (bars : Nat) → (running : Int) → List Token → Prop
  | first {running : Int} {newest : List Token} (hplain : .measure ∉ newest) (hspan : (span newest : Int) = running) :
      Barred whole 0 running newest
  | next {bars : Nat} {running : Int} {newest older : List Token} (hplain : .measure ∉ newest)
      (hspan : (span newest : Int) = running) (hfull : Barred whole bars whole older) :
      Barred whole (bars + 1) running (newest ++ .measure :: older)

namespace Barred

variable {whole running : Int} {bars : Nat} {written : List Token}

theorem running_nonneg (hbarred : Barred whole bars running written) : 0 ≤ running := by
  cases hbarred with
  | first _ hspan | next _ hspan =>
    rw [← hspan]
    exact Int.natCast_nonneg _

theorem cons (hbarred : Barred whole bars running written) (token : Token) (hne : token ≠ .measure) :
    Barred whole bars (running + token.span) (token :: written) := by
  cases hbarred with
  | first hplain hspan =>
    apply Barred.first
    · exact List.not_mem_cons_of_ne_of_not_mem hne.symm hplain
    · rw [span_cons]
      omega
  | @next bars _ newest older hplain hspan hfull =>
    rw [← List.cons_append]
    apply Barred.next
    · exact List.not_mem_cons_of_ne_of_not_mem hne.symm hplain
    · rw [span_cons]
      omega
    · exact hfull

/-- Taking the newest token away takes its time away. -/
theorem of_cons {token : Token} (hbarred : Barred whole bars running (token :: written)) (hne : token ≠ .measure) :
    Barred whole bars (running - token.span) written := by
  generalize hall : token :: written = all at hbarred
  cases hbarred with
  | first hplain hspan =>
    subst hall
    rw [span_cons] at hspan
    exact Barred.first (List.not_mem_of_not_mem_cons hplain) (by omega)
  | @next bars _ newest older hplain hspan hfull =>
    cases newest with
    | nil => exact absurd (List.cons.inj hall).1 hne
    | cons _ rest =>
      obtain ⟨rfl, rfl⟩ := List.cons.inj hall
      rw [span_cons] at hspan
      exact Barred.next (List.not_mem_of_not_mem_cons hplain) (by omega) hfull

/-- A bar line goes behind a whole measure. -/
theorem bar (hbarred : Barred whole bars whole written) : Barred whole (bars + 1) 0 (.measure :: written) :=
  Barred.next List.not_mem_nil rfl hbarred

theorem of_marks (hbarred : Barred whole bars running written) {marks : List Token}
    (hmarks : ∀ mark ∈ marks, mark.IsMark ∧ mark ≠ .measure) : Barred whole bars running (marks ++ written) := by
  induction marks with
  | nil => exact hbarred
  | cons mark rest ih =>
    rw [List.forall_mem_cons] at hmarks
    have hcons := (ih hmarks.2).cons mark hmarks.1.2
    rw [hmarks.1.1.span_eq] at hcons
    exact (Int.add_zero running) ▸ hcons

/-- Writing a stroke takes up its length, whether the newest token gets longer or a new one is written. -/
theorem of_writes (hbarred : Barred whole bars running written) {stroke : Stroke} {after : List Token}
    (hwrites : Writes stroke written after) : Barred whole bars (running + stroke.length) after := by
  cases hwrites with
  | @notes codes first others _ _ _ hlength =>
    rw [← hlength]
    exact hbarred.cons (Score.harmony codes first others) (by simp [Score.harmony])
  | @rest codes _ _ _ hlength =>
    rw [← hlength]
    exact hbarred.cons (.pause codes) (by simp)
  | @longerNote pitch codes added older _ hlength =>
    have hlonger := (hbarred.of_cons (by simp)).cons (.notes ⟨pitch, codes ++ added⟩ []) (by simp)
    simp only [Token.span, Codes.units_append] at hlonger
    have hsum : running - codes.units + (codes.units + added.units : Nat) = running + stroke.length := by omega
    exact hsum ▸ hlonger
  | @longerRest codes longer older _ _ hlength =>
    have hlonger := (hbarred.of_cons (by simp)).cons (.pause longer) (by simp)
    have hsum : running - codes.units + longer.units = running + stroke.length := by omega
    exact hsum ▸ hlonger

/-! ### Read from the front -/

theorem count_eq (hbarred : Barred whole bars running written) : written.count .measure = bars := by
  induction hbarred with
  | first hplain => exact List.count_eq_zero_of_not_mem hplain
  | next hplain _ _ ih => rw [List.count_append, List.count_eq_zero_of_not_mem hplain, List.count_cons_self, ih, Nat.zero_add]

theorem pieces_eq (hbarred : Barred whole bars running written) :
    ∃ full last, written.reverse.splitOn .measure = full ++ [last] ∧ (∀ piece ∈ full, (span piece : Int) = whole) ∧
      (span last : Int) = running := by
  induction hbarred with
  | @first _ newest hplain hspan =>
    refine ⟨[], newest.reverse, ?_, by simp, by rwa [span_reverse]⟩
    exact List.splitOn_eq_singleton (by rwa [List.mem_reverse])
  | @next bars _ newest older hplain hspan _ ih =>
    obtain ⟨full, last, hpieces, hfull, hlast⟩ := ih
    refine ⟨full ++ [last], newest.reverse, ?_, ?_, by rwa [span_reverse]⟩
    · rw [List.reverse_append, List.reverse_cons, List.append_assoc, List.singleton_append,
        List.splitOn_append_cons_self, hpieces, List.splitOn_eq_singleton (by rwa [List.mem_reverse])]
    · intro piece hpiece
      rcases List.mem_append.1 hpiece with hmem | hmem
      · exact hfull piece hmem
      · rw [List.mem_singleton.1 hmem, hlast]

end Barred

end TurtleMusic
