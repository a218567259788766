import Mathlib.Data.List.Nodup
import TurtleMusic.Proofs.Score.Length

/-!
# Shortest codes

Two equal codes below the whole note can be exchanged for the one that is worth both, which leaves the length as it is and saves a code. Codes in which nothing can be exchanged any more are carried: like the digits of a binary number, none below the whole note is there twice, so that the length tells how often each is there. The codes that are written for a length are carried. Hence no codes of that length are fewer, and as many are the same ones in another order.
-/

namespace TurtleMusic

/-- The code worth twice as much; there is none for the whole note. -/
def LengthCode.double? : LengthCode → Option LengthCode
  | o => some x
  | x => some t
  | t => some s
  | s => some i
  | i => some q
  | q => some h
  | h => some w
  | w => none

theorem LengthCode.units_double {code double : LengthCode} (hdouble : code.double? = some double) :
    double.units = code.units + code.units := by
  cases code <;> cases hdouble <;> rfl

theorem LengthCode.double?_isSome {code : LengthCode} (hcode : code ≠ .w) : ∃ double, code.double? = some double := by
  cases code with
  | w => exact absurd rfl hcode
  | _ => exact ⟨_, rfl⟩

namespace Codes

/-! ### Codes by their number -/

/-- How often each code is there tells the length. -/
theorem units_eq_counts (codes : Codes) :
    units codes = codes.count .o + 2 * codes.count .x + 4 * codes.count .t + 8 * codes.count .s + 16 * codes.count .i +
      32 * codes.count .q + 64 * codes.count .h + 128 * codes.count .w := by
  induction codes with
  | nil => rfl
  | cons code rest ih =>
    rw [units, ih]
    cases code <;> simp [LengthCode.units] <;> omega

theorem units_eq_of_perm {left right : Codes} (hperm : left.Perm right) : units left = units right := by
  simp only [units_eq_counts, hperm.count_eq]

/-- No code below the whole note is there twice. -/
def Carried (codes : Codes) : Prop := ∀ code, code ≠ .w → codes.count code ≤ 1

/-- Carried codes are told by their length, but for their order. -/
theorem Carried.perm {left right : Codes} (hleft : left.Carried) (hright : right.Carried)
    (hunits : units left = units right) : left.Perm right := by
  have hbounds : ∀ {codes : Codes}, codes.Carried → codes.count .o ≤ 1 ∧ codes.count .x ≤ 1 ∧ codes.count .t ≤ 1 ∧
      codes.count .s ≤ 1 ∧ codes.count .i ≤ 1 ∧ codes.count .q ≤ 1 ∧ codes.count .h ≤ 1 := fun hcarried =>
    ⟨hcarried _ (by decide), hcarried _ (by decide), hcarried _ (by decide), hcarried _ (by decide),
      hcarried _ (by decide), hcarried _ (by decide), hcarried _ (by decide)⟩
  have hbefore := hbounds hleft
  have hafter := hbounds hright
  rw [units_eq_counts, units_eq_counts] at hunits
  rw [List.perm_iff_count]
  intro code
  cases code <;> omega

/-! ### Exchanging -/

/-- Codes that are not carried can do with one code less. -/
theorem exists_fewer {codes : Codes} (hcodes : ¬codes.Carried) :
    ∃ fewer : Codes, units fewer = units codes ∧ fewer.length + 1 = codes.length := by
  simp only [Carried, not_forall, Nat.not_le] at hcodes
  obtain ⟨code, hbelow, htwice⟩ := hcodes
  obtain ⟨double, hdouble⟩ := LengthCode.double?_isSome hbelow
  obtain ⟨others, hperm⟩ := (List.replicate_sublist_iff.2 (Nat.succ_le_of_lt htwice)).exists_perm_append
  refine ⟨double :: others, ?_, ?_⟩
  · rw [units_eq_of_perm hperm, units_append, units, LengthCode.units_double hdouble]
    rfl
  · rw [hperm.length_eq, List.length_cons, List.length_append, List.length_replicate]
    omega

/-! ### Written codes -/

theorem belowWhole_sublist (codes : List LengthCode) (length : Nat) : (belowWhole.go codes length).Sublist codes := by
  induction codes generalizing length with
  | nil => exact List.Sublist.refl []
  | cons code rest ih =>
    rw [belowWhole.go]
    split
    · exact (ih _).cons_cons code
    · exact (ih _).cons code

theorem ofUnits_carried (length : Nat) : (ofUnits length).Carried := by
  intro code hcode
  rw [ofUnits, List.count_append, List.count_replicate, if_neg (by simpa using hcode.symm), Nat.zero_add]
  exact Nat.le_trans ((belowWhole_sublist _ _).count_le code) (List.nodup_iff_count_le_one.1 (by decide) code)

/-- No codes of a length are fewer than those that are written for it, and as many are the same ones in another order. -/
theorem length_ofUnits_le (codes : Codes) :
    (ofUnits (units codes)).length ≤ codes.length ∧
      ((ofUnits (units codes)).length = codes.length → codes.Perm (ofUnits (units codes))) := by
  by_cases hcarried : codes.Carried
  · have hperm := hcarried.perm (ofUnits_carried _) (units_ofUnits (units codes)).symm
    exact ⟨Nat.le_of_eq hperm.length_eq.symm, fun _ => hperm⟩
  · -- An exchange saves a code, so fewer of them remain to be looked at.
    obtain ⟨fewer, hunits, hfewer⟩ := exists_fewer hcarried
    have hshort := (length_ofUnits_le fewer).1
    rw [hunits] at hshort
    exact ⟨by omega, by omega⟩
termination_by codes.length
decreasing_by omega

/-! ### Texts -/

/-- A text in the eight letters is the text of some codes. -/
theorem exists_text_eq {text : List Char} (htext : ∀ c ∈ text, c ∈ ['o', 'x', 't', 's', 'i', 'q', 'h', 'w']) :
    ∃ codes : Codes, codes.text = text := by
  have hletter : ∀ c ∈ ['o', 'x', 't', 's', 'i', 'q', 'h', 'w'], ∃ code : LengthCode, code.letter = c := by
    simp only [List.forall_mem_cons]
    exact ⟨⟨.o, rfl⟩, ⟨.x, rfl⟩, ⟨.t, rfl⟩, ⟨.s, rfl⟩, ⟨.i, rfl⟩, ⟨.q, rfl⟩, ⟨.h, rfl⟩, ⟨.w, rfl⟩, List.forall_mem_nil _⟩
  induction text with
  | nil => exact ⟨[], rfl⟩
  | cons c rest ih =>
    rw [List.forall_mem_cons] at htext
    obtain ⟨code, rfl⟩ := hletter c htext.1
    obtain ⟨codes, rfl⟩ := ih htext.2
    exact ⟨code :: codes, rfl⟩

/-- What is written for a positive length reads as that length, and no other length can be written. A text in the eight letters that is not empty reads as a length for which no more letters are written than it has; if they are as many, it is made of the same letters. -/
theorem ofLength_shortest :
    (∀ length : Int, 0 < length →
      ∃ codes, ofLength length = .ok codes ∧ (read codes.text).map units = .ok length.toNat) ∧
    (∀ length : Int, length ≤ 0 → ∃ fault, ofLength length = .error fault ∧ fault.kind = .value) ∧
    ∀ text : List Char, text ≠ [] → (∀ c ∈ text, c ∈ ['o', 'x', 't', 's', 'i', 'q', 'h', 'w']) →
      ∃ length shortest, (read text).map units = .ok length ∧ ofLength length = .ok shortest ∧
        shortest.text.length ≤ text.length ∧ (shortest.text.length = text.length → text.Perm shortest.text) := by
  refine ⟨fun length hpos => ?_, fun length hpos => ?_, fun text hnonempty hletters => ?_⟩
  · refine ⟨_, ofLength_eq_ok hpos, ?_⟩
    rw [read_text, Except.map, units_ofUnits]
  · exact ⟨.lengthNotPositive length, if_pos hpos, rfl⟩
  · obtain ⟨codes, rfl⟩ := exists_text_eq hletters
    have hcodes : codes ≠ [] := by
      rintro rfl
      exact hnonempty rfl
    obtain ⟨hshort, htied⟩ := length_ofUnits_le codes
    refine ⟨units codes, ofUnits (units codes), by rw [read_text, Except.map], ?_, ?_, fun hlength => ?_⟩
    · exact ofLength_eq_ok (Int.natCast_pos.2 (units_pos hcodes))
    · rwa [text, text, List.length_map, List.length_map]
    · rw [text, text, List.length_map, List.length_map] at hlength
      exact (htied hlength).map LengthCode.letter

/-- The letters of a length in another order, and a length of which there are fewer letters. -/
theorem ofLength_shortest_tied :
    (∃ shortest, ofLength 145 = .ok shortest ∧ (shortest.text.length = 3 → List.Perm ['o', 'i', 'w'] shortest.text)) ∧
      ∃ shortest, ofLength 21 = .ok shortest ∧ shortest.text.length ≤ 5 := by
  obtain ⟨_, _, hshortest⟩ := ofLength_shortest
  constructor
  · obtain ⟨length, shortest, hread, hwritten, _, htied⟩ := hshortest ['o', 'i', 'w'] (by simp) (by simp)
    cases hread
    exact ⟨shortest, hwritten, htied⟩
  · obtain ⟨length, shortest, hread, hwritten, hshort, _⟩ := hshortest ['s', 'x', 'o', 'x', 's'] (by simp) (by simp)
    cases hread
    exact ⟨shortest, hwritten, hshort⟩

end Codes

end TurtleMusic
