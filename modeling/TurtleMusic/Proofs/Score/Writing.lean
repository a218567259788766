import TurtleMusic.Score.Basic
import TurtleMusic.Proofs.Outcome
import TurtleMusic.Proofs.Score.Token

/-!
# What writing a stroke does

A stroke is written in one of four ways: its notes or its rest become a new token, or it makes the newest note or the newest rest longer. Everything proved about scores goes through these four cases. The rest of the score is left alone but for the notes remembered and the count of events.
-/

namespace TurtleMusic

/-- The pitches that a stroke lets sound; none for a rest. -/
def Stroke.pitches : Stroke → List Int
  | note pitch _ _ => [pitch]
  | harmony pitches _ => pitches
  | rest _ => []

/-- The pitch of a note of the melody. -/
def Stroke.pitch? : Stroke → Option Int
  | note pitch _ _ => some pitch
  | harmony _ _ | rest _ => none

theorem Stroke.mem_pitches_of_pitch? {stroke : Stroke} {pitch : Int} (hpitch : stroke.pitch? = some pitch) :
    pitch ∈ stroke.pitches := by
  cases stroke with
  | note own _ _ =>
    cases hpitch
    exact List.mem_singleton_self _
  | harmony | rest => cases hpitch

/-- The pitches written in a token. -/
def Token.pitches : Token → List Int
  | notes first others => (first :: others).map (·.pitch)
  | _ => []

/-- How a stroke changes the tokens of a score, newest first. -/
inductive Writes (stroke : Stroke) : List Token → List Token → Prop
  | notes {codes : Codes} {first : Int} {others : List Int} {before : List Token}
      (hpitches : stroke.pitches = first :: others) (hcodes : codes ≠ []) (hlength : (codes.units : Int) = stroke.length) :
      Writes stroke before (Score.harmony codes first others :: before)
  | longerNote {pitch : Int} {codes added : Codes} {older : List Token}
      (hpitches : stroke.pitches = [pitch]) (hlength : (added.units : Int) = stroke.length) :
      Writes stroke (.notes ⟨pitch, codes⟩ [] :: older) (.notes ⟨pitch, codes ++ added⟩ [] :: older)
  | rest {codes : Codes} {before : List Token}
      (hpitches : stroke.pitches = []) (hcodes : codes ≠ []) (hlength : (codes.units : Int) = stroke.length) :
      Writes stroke before (.pause codes :: before)
  | longerRest {codes longer : Codes} {older : List Token}
      (hpitches : stroke.pitches = []) (hcodes : longer ≠ [])
      (hlength : (longer.units : Int) = codes.units + stroke.length) :
      Writes stroke (.pause codes :: older) (.pause longer :: older)

namespace Token

/-- The token is one that composing writes: no text of a caller, and notes and rests such as reading expects them. -/
def Composed : Token → Prop
  | notes first others => first.Readable ∧ ∀ note ∈ others, note.Readable
  | pause codes => codes ≠ []
  | verbatim _ => False
  | _ => True

/-- The token takes no time; at most it chooses a voice or a layer. -/
def IsMark : Token → Prop
  | notes _ _ | pause _ => False
  | _ => True

theorem IsMark.pitches_eq {token : Token} (hmark : token.IsMark) : token.pitches = [] := by
  cases token with
  | notes => exact hmark.elim
  | _ => rfl

/-- The numbers that choose a tempo, a voice, a layer, an instrument or a controller are not negative. -/
def NumbersNonneg : Token → Prop
  | tempo number | voice number | layer number | instrument number => 0 ≤ number
  | control controller value => 0 ≤ controller ∧ 0 ≤ value
  | _ => True

theorem Composed.readable {token : Token} (hcomposed : token.Composed) (hnumbers : token.NumbersNonneg) :
    token.Readable := by
  cases token with
  | notes | pause | verbatim => exact hcomposed
  | _ => exact hnumbers

theorem eq_notes_of_solePitch? {token : Token} (htoken : token.Composed) {pitch : Int}
    (hpitch : token.solePitch? = some pitch) : ∃ codes, token = notes ⟨pitch, codes⟩ [] := by
  cases token with
  | notes first others =>
    cases others with
    | nil =>
      rw [solePitch?, if_pos htoken.1.1, Option.some.injEq] at hpitch
      exact ⟨first.codes, by rw [← hpitch]⟩
    | cons => simp [solePitch?] at hpitch
  | verbatim text => exact htoken.elim
  | _ => simp [solePitch?] at hpitch

theorem eq_pause_of_restUnits? {token : Token} (htoken : token.Composed) {length : Nat}
    (hlength : token.restUnits? = some length) : ∃ codes, token = pause codes ∧ codes.units = length := by
  cases token with
  | pause codes =>
    have hcodes : codes.isEmpty = false := List.isEmpty_eq_false_iff.2 htoken
    rw [restUnits?, hcodes, if_neg (by decide), Option.some.injEq] at hlength
    exact ⟨codes, rfl, hlength⟩
  | verbatim text => exact htoken.elim
  | _ => simp [restUnits?] at hlength

end Token

namespace Score

variable {score after : Score}

/-- A note is joined to the newest token if it may be and that is a note of the same pitch; otherwise it becomes a token. -/
theorem addNote_written (hcomposed : ∀ token ∈ score.written, token.Composed) {pitch length : Int} {extend : Bool}
    (hwrite : score.addNote pitch length extend = .ok after) :
    ∃ added, Codes.ofLength length = .ok added ∧
      ((∃ codes older, score.written = .notes ⟨pitch, codes⟩ [] :: older ∧
          after.written = .notes ⟨pitch, codes ++ added⟩ [] :: older) ∨
        ((extend = true → ∀ codes, score.written.head? ≠ some (.notes ⟨pitch, codes⟩ [])) ∧
          after.written = .notes ⟨pitch, added⟩ [] :: score.written)) := by
  rw [addNote_eq] at hwrite
  obtain ⟨added, hadded, rfl⟩ := Except.map_eq_ok_iff.1 hwrite
  refine ⟨added, hadded, ?_⟩
  cases hlonger : score.written.head?.filter fun newest => extend && newest.solePitch? == some pitch with
  | none =>
    refine .inr ⟨fun hextend codes hhead => ?_, rfl⟩
    have hreadable : (Token.notes ⟨pitch, codes⟩ []).Composed := hcomposed _ (List.mem_of_head? hhead)
    have hpitch : 0 ≤ pitch := hreadable.1.1
    simp [hhead, hextend, Token.solePitch?, hpitch] at hlonger
  | some newest =>
    obtain ⟨hhead, hsole⟩ := Option.filter_eq_some_iff.1 hlonger
    obtain ⟨older, hwritten⟩ := List.head?_eq_some_iff.1 hhead
    rw [Bool.and_eq_true, beq_iff_eq] at hsole
    obtain ⟨codes, rfl⟩ := Token.eq_notes_of_solePitch? (hcomposed _ (hwritten ▸ List.mem_cons_self)) hsole.2
    refine .inl ⟨codes, older, hwritten, ?_⟩
    simp only [replaceNewest, hwritten, List.tail_cons, Token.lengthen]

/-- A rest is joined to the newest token if that is one too, and both are encoded anew as one length. -/
theorem addRest_written (hcomposed : ∀ token ∈ score.written, token.Composed) {length : Int}
    (hwrite : score.addRest length true = .ok after) :
    (∃ codes longer older, Codes.ofLength (length + codes.units) = .ok longer ∧
        score.written = .pause codes :: older ∧ after.written = .pause longer :: older) ∨
      ∃ codes, Codes.ofLength length = .ok codes ∧ (∀ old, score.written.head? ≠ some (.pause old)) ∧
        after.written = .pause codes :: score.written := by
  rw [addRest_eq, if_pos rfl] at hwrite
  cases hbefore : score.written.head?.bind Token.restUnits? with
  | none =>
    rw [hbefore] at hwrite
    obtain ⟨codes, hcodes, rfl⟩ := Except.map_eq_ok_iff.1 hwrite
    refine .inr ⟨codes, hcodes, fun old hhead => ?_, rfl⟩
    have hold : old ≠ [] := hcomposed _ (List.mem_of_head? hhead)
    simp [hhead, Token.restUnits?, hold] at hbefore
  | some before =>
    rw [hbefore] at hwrite
    obtain ⟨newest, hhead, hrest⟩ := Option.bind_eq_some_iff.1 hbefore
    obtain ⟨older, hwritten⟩ := List.head?_eq_some_iff.1 hhead
    obtain ⟨codes, rfl, rfl⟩ := Token.eq_pause_of_restUnits? (hcomposed _ (hwritten ▸ List.mem_cons_self)) hrest
    obtain ⟨longer, hlonger, rfl⟩ := Except.map_eq_ok_iff.1 hwrite
    refine .inl ⟨codes, longer, older, hlonger, hwritten, ?_⟩
    simp only [replaceNewest, hwritten, List.tail_cons]

theorem addNote_writes (hcomposed : ∀ token ∈ score.written, token.Composed) {stroke : Stroke} {pitch length : Int}
    {extend : Bool} (hpitches : stroke.pitches = [pitch]) (hlength : stroke.length = length)
    (hwrite : score.addNote pitch length extend = .ok after) : Writes stroke score.written after.written := by
  obtain ⟨added, hadded, ⟨codes, older, hbefore, hafter⟩ | ⟨_, hafter⟩⟩ := addNote_written hcomposed hwrite
  all_goals obtain ⟨_, hnonempty, hunits⟩ := Codes.ofLength_ok hadded
  · rw [hbefore, hafter]
    exact Writes.longerNote hpitches (hunits.trans hlength.symm)
  · rw [hafter]
    exact Writes.notes hpitches hnonempty (hunits.trans hlength.symm)

theorem addRest_writes (hcomposed : ∀ token ∈ score.written, token.Composed) {stroke : Stroke} {length : Int}
    (hpitches : stroke.pitches = []) (hlength : stroke.length = length)
    (hwrite : score.addRest length true = .ok after) : Writes stroke score.written after.written := by
  obtain ⟨codes, longer, older, hlonger, hbefore, hafter⟩ | ⟨codes, hcodes, _, hafter⟩ := addRest_written hcomposed hwrite
  · obtain ⟨_, hnonempty, hunits⟩ := Codes.ofLength_ok hlonger
    rw [hbefore, hafter]
    exact Writes.longerRest hpitches hnonempty (by omega)
  · obtain ⟨_, hnonempty, hunits⟩ := Codes.ofLength_ok hcodes
    rw [hafter]
    exact Writes.rest hpitches hnonempty (hunits.trans hlength.symm)

/-- Writing does one of the four things. -/
theorem write_writes (hcomposed : ∀ token ∈ score.written, token.Composed) {stroke : Stroke}
    (hwrite : score.write stroke = .ok after) : Writes stroke score.written after.written := by
  cases stroke with
  | note pitch length extend =>
    obtain ⟨noted, hnote, rfl⟩ := Except.map_eq_ok_iff.1 hwrite
    have hwrites : Writes (.note pitch length extend) score.written noted.written :=
      addNote_writes hcomposed rfl rfl hnote
    exact hwrites
  | harmony pitches length =>
    cases pitches with
    | nil => exact addRest_writes hcomposed rfl rfl hwrite
    | cons first others =>
      rw [write, addHarmony_cons] at hwrite
      obtain ⟨codes, hcodes, rfl⟩ := Except.map_eq_ok_iff.1 hwrite
      obtain ⟨_, hnonempty, hunits⟩ := Codes.ofLength_ok hcodes
      exact Writes.notes rfl hnonempty hunits
  | rest length => exact addRest_writes hcomposed rfl rfl hwrite

/-- What writing leaves alone. -/
structure SameContext (before after : Score) : Prop where
  key : after.key = before.key
  tempo : after.tempo = before.tempo
  instrument : after.instrument = before.instrument
  degree : after.degree = before.degree
  voices : after.voices = before.voices
  layers : after.layers = before.layers
  position : after.position = before.position

theorem addNote_sameContext {pitch length : Int} {extend : Bool}
    (hwrite : score.addNote pitch length extend = .ok after) : SameContext score after := by
  rw [addNote_eq] at hwrite
  obtain ⟨codes, _, rfl⟩ := Except.map_eq_ok_iff.1 hwrite
  dsimp only
  split <;> exact ⟨rfl, rfl, rfl, rfl, rfl, rfl, rfl⟩

theorem addRest_sameContext {length : Int} {merge : Bool} (hwrite : score.addRest length merge = .ok after) :
    SameContext score after := by
  rw [addRest_eq] at hwrite
  split at hwrite <;>
  · obtain ⟨codes, _, rfl⟩ := Except.map_eq_ok_iff.1 hwrite
    exact ⟨rfl, rfl, rfl, rfl, rfl, rfl, rfl⟩

theorem write_sameContext {stroke : Stroke} (hwrite : score.write stroke = .ok after) : SameContext score after := by
  cases stroke with
  | note pitch length extend =>
    obtain ⟨noted, hnote, rfl⟩ := Except.map_eq_ok_iff.1 hwrite
    obtain ⟨hkey, htempo, hinstrument, hdegree, hvoices, hlayers, hposition⟩ := addNote_sameContext hnote
    exact ⟨hkey, htempo, hinstrument, hdegree, hvoices, hlayers, hposition⟩
  | harmony pitches length =>
    cases pitches with
    | nil => exact addRest_sameContext hwrite
    | cons first others =>
      rw [write, addHarmony_cons] at hwrite
      obtain ⟨codes, _, rfl⟩ := Except.map_eq_ok_iff.1 hwrite
      exact ⟨rfl, rfl, rfl, rfl, rfl, rfl, rfl⟩
  | rest length => exact addRest_sameContext hwrite

/-! ### The notes remembered -/

theorem addNote_notes {pitch length : Int} {extend : Bool} (hwrite : score.addNote pitch length extend = .ok after) :
    after.note = score.note ∧ after.previousNote = score.previousNote := by
  rw [addNote_eq] at hwrite
  obtain ⟨codes, _, rfl⟩ := Except.map_eq_ok_iff.1 hwrite
  dsimp only
  split <;> exact ⟨rfl, rfl⟩

theorem addRest_notes {length : Int} {merge : Bool} (hwrite : score.addRest length merge = .ok after) :
    after.note = score.note ∧ after.previousNote = score.previousNote := by
  rw [addRest_eq] at hwrite
  split at hwrite <;>
  · obtain ⟨codes, _, rfl⟩ := Except.map_eq_ok_iff.1 hwrite
    exact ⟨rfl, rfl⟩

theorem write_note {stroke : Stroke} {pitch : Int} (hpitch : stroke.pitch? = some pitch)
    (hwrite : score.write stroke = .ok after) :
    after.note = PitchClass.heard? pitch ∧ after.previousNote = score.note := by
  cases stroke with
  | note own length extend =>
    obtain ⟨noted, hnote, rfl⟩ := Except.map_eq_ok_iff.1 hwrite
    cases hpitch
    exact ⟨rfl, (addNote_notes hnote).1⟩
  | harmony | rest => cases hpitch

/-- Chords and rests leave the notes of the melody remembered. -/
theorem write_other {stroke : Stroke} (hother : stroke.pitch? = none) (hwrite : score.write stroke = .ok after) :
    after.note = score.note ∧ after.previousNote = score.previousNote := by
  cases stroke with
  | note => cases hother
  | harmony pitches length =>
    cases pitches with
    | nil => exact addRest_notes hwrite
    | cons first others =>
      rw [write, addHarmony_cons] at hwrite
      obtain ⟨codes, _, rfl⟩ := Except.map_eq_ok_iff.1 hwrite
      exact ⟨rfl, rfl⟩
  | rest length => exact addRest_notes hwrite

/-! ### Beat and events -/

/-- Writing counts one event for a stroke that lets pitches sound and leaves the beat alone. -/
theorem write_counts {stroke : Stroke} (hwrite : score.write stroke = .ok after) :
    after.beat = score.beat ∧ after.events = score.events + if stroke.pitches = [] then 0 else 1 := by
  have hrest : ∀ {length rested}, score.addRest length true = .ok rested →
      rested.beat = score.beat ∧ rested.events = score.events := by
    intro length rested hrested
    rw [addRest_eq] at hrested
    split at hrested <;>
    · obtain ⟨codes, _, rfl⟩ := Except.map_eq_ok_iff.1 hrested
      exact ⟨rfl, rfl⟩
  cases stroke with
  | note pitch length extend =>
    obtain ⟨noted, hnote, rfl⟩ := Except.map_eq_ok_iff.1 hwrite
    rw [addNote_eq] at hnote
    obtain ⟨codes, _, rfl⟩ := Except.map_eq_ok_iff.1 hnote
    simp only [setNote, Stroke.pitches, List.cons_ne_nil, if_false]
    split <;> exact ⟨rfl, rfl⟩
  | harmony pitches length =>
    cases pitches with
    | nil => exact hrest hwrite
    | cons first others =>
      rw [write, addHarmony_cons] at hwrite
      obtain ⟨codes, _, rfl⟩ := Except.map_eq_ok_iff.1 hwrite
      exact ⟨rfl, rfl⟩
  | rest length => exact hrest hwrite

/-! ### What can be written -/

/-- Whatever has a positive length can be written. -/
theorem write_isOk {stroke : Stroke} (hlength : 0 < stroke.length) (score : Score) :
    ∃ after, score.write stroke = .ok after := by
  have hrest : ∀ length, 0 < length → ∃ after, score.addRest length true = .ok after := by
    intro length hpos
    rw [addRest_eq]
    split
    · exact ⟨_, by rw [Codes.ofLength_eq_ok (by omega)]; rfl⟩
    · exact ⟨_, by rw [Codes.ofLength_eq_ok hpos]; rfl⟩
  cases stroke with
  | note pitch length extend =>
    have hpos : 0 < length := hlength
    exact ⟨_, by rw [write, addNote_eq, Codes.ofLength_eq_ok hpos]; rfl⟩
  | harmony pitches length =>
    have hpos : 0 < length := hlength
    cases pitches with
    | nil => exact hrest length hpos
    | cons first others => exact ⟨_, by rw [write, addHarmony_cons, Codes.ofLength_eq_ok hpos]; rfl⟩
  | rest length => exact hrest length hlength

end Score

/-! ### Tokens after writing -/

namespace Writes

variable {stroke : Stroke} {before after : List Token}

theorem harmony_pitches (codes : Codes) (first : Int) (others : List Int) :
    (Score.harmony codes first others).pitches = first :: others := by
  simp [Score.harmony, Token.pitches, Function.comp_def]

/-- A pitch in the tokens was there before or belongs to the stroke. -/
theorem pitches (hwrites : Writes stroke before after) {property : Int → Prop}
    (hbefore : ∀ token ∈ before, ∀ pitch ∈ token.pitches, property pitch) (hstroke : ∀ pitch ∈ stroke.pitches, property pitch) :
    ∀ token ∈ after, ∀ pitch ∈ token.pitches, property pitch := by
  cases hwrites with
  | notes hpitches =>
    rw [List.forall_mem_cons, harmony_pitches]
    exact ⟨hpitches ▸ hstroke, hbefore⟩
  | longerNote hpitches =>
    rw [List.forall_mem_cons] at hbefore ⊢
    exact hbefore
  | rest => exact List.forall_mem_cons.2 ⟨fun pitch hmem => absurd hmem List.not_mem_nil, hbefore⟩
  | longerRest =>
    rw [List.forall_mem_cons] at hbefore ⊢
    exact hbefore

theorem composed (hwrites : Writes stroke before after) (hbefore : ∀ token ∈ before, token.Composed)
    (hstroke : ∀ pitch ∈ stroke.pitches, 0 ≤ pitch) : ∀ token ∈ after, token.Composed := by
  cases hwrites with
  | notes hpitches hcodes =>
    rw [hpitches, List.forall_mem_cons] at hstroke
    refine List.forall_mem_cons.2 ⟨⟨⟨hstroke.1, hcodes⟩, fun note hnote => ?_⟩, hbefore⟩
    obtain ⟨pitch, hpitch, rfl⟩ := List.mem_map.1 hnote
    exact ⟨hstroke.2 pitch hpitch, hcodes⟩
  | longerNote =>
    rw [List.forall_mem_cons] at hbefore ⊢
    obtain ⟨⟨⟨hpitch, hcodes⟩, hothers⟩, holder⟩ := hbefore
    exact ⟨⟨⟨hpitch, by simp [hcodes]⟩, hothers⟩, holder⟩
  | rest _ hcodes => exact List.forall_mem_cons.2 ⟨hcodes, hbefore⟩
  | longerRest _ hcodes =>
    rw [List.forall_mem_cons] at hbefore ⊢
    exact ⟨hcodes, hbefore.2⟩

theorem numbersNonneg (hwrites : Writes stroke before after) (hbefore : ∀ token ∈ before, token.NumbersNonneg) :
    ∀ token ∈ after, token.NumbersNonneg := by
  cases hwrites with
  | notes | rest => exact List.forall_mem_cons.2 ⟨trivial, hbefore⟩
  | longerNote | longerRest => exact List.forall_mem_cons.2 ⟨trivial, (List.forall_mem_cons.1 hbefore).2⟩

end Writes

end TurtleMusic
