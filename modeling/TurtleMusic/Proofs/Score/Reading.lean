import TurtleMusic.Score.Event
import TurtleMusic.Proofs.Score.Writing

/-!
# What reading makes of written strokes

A score is read from its first token on but written at its end, so reading is followed here over the tokens newest first: where it stands after them, and which events it has made of them. A written stroke moves one clock by its length and lets its pitches sound meanwhile, whether it became a token of its own or made the newest one longer. Every other token only chooses a voice and a layer.
-/

namespace TurtleMusic

/-- A voice and one of its layers. -/
abbrev Slot := Int × Int

/-- The event is a note of a pitch that sounds at a time in a slot. -/
def Event.Sounds (event : Event) (slot : Slot) (time : Nat) (pitch : Int) : Prop :=
  (event.voice, event.layer) = slot ∧
    ∃ length, event.kind = .note pitch length ∧ event.start ≤ time ∧ time < event.start + length

/-- One of the events is a note of a pitch that sounds at a time in a slot. -/
def Event.Sounding (events : List Event) (slot : Slot) (time : Nat) (pitch : Int) : Prop :=
  ∃ event ∈ events, event.Sounds slot time pitch

theorem Event.sounding_append (left right : List Event) (slot : Slot) (time : Nat) (pitch : Int) :
    Event.Sounding (left ++ right) slot time pitch ↔
      Event.Sounding left slot time pitch ∨ Event.Sounding right slot time pitch := by
  simp only [Sounding, List.mem_append, or_and_right, exists_or]

namespace Reading

/-- Where reading stands after tokens, newest first. -/
def through : List Token → Reading
  | [] => {}
  | newest :: older => ((through older).step newest).2

/-- The events of tokens, newest first. -/
def heard : List Token → List Event
  | [] => []
  | newest :: older => heard older ++ ((through older).step newest).1

def slot (reading : Reading) : Slot := (reading.voice, reading.layer)

def clock (reading : Reading) (asked : Slot) : Nat := reading.clocks.get asked 0

/-- Where reading stands after tokens in the order they were written. -/
def past (reading : Reading) (tokens : List Token) : Reading :=
  tokens.foldl (fun reading token => (reading.step token).2) reading

theorem past_append (reading : Reading) (left right : List Token) :
    reading.past (left ++ right) = (reading.past left).past right :=
  List.foldl_append

theorem run_append (reading : Reading) (left right : List Token) :
    reading.run (left ++ right) = reading.run left ++ (reading.past left).run right := by
  induction left generalizing reading with
  | nil => rfl
  | cons token rest ih =>
    rw [List.cons_append, run, ih, run, List.append_assoc]
    rfl

theorem past_reverse (written : List Token) : past {} written.reverse = through written := by
  induction written with
  | nil => rfl
  | cons newest older ih =>
    rw [List.reverse_cons, past_append, ih]
    rfl

theorem heard_eq (written : List Token) : heard written = Event.ofTokens written.reverse := by
  induction written with
  | nil => rfl
  | cons newest older ih =>
    rw [heard, ih, List.reverse_cons, Event.ofTokens, Event.ofTokens, run_append, past_reverse, run, run,
      List.append_nil]

/-! ### Clocks -/

theorem now_eq (reading : Reading) : reading.now = reading.clock reading.slot := rfl

theorem clock_pass (reading : Reading) (length : Nat) (asked : Slot) :
    (reading.pass length).clock asked = reading.clock asked + if asked = reading.slot then length else 0 := by
  rw [clock, pass, Kept.get_set]
  change (if asked = reading.slot then reading.now + length else reading.clock asked) = _
  by_cases hasked : asked = reading.slot
  · rw [if_pos hasked, if_pos hasked, hasked, now_eq]
  · rw [if_neg hasked, if_neg hasked, Nat.add_zero]

theorem longest_harmony (codes : Codes) (first : Int) (others : List Int) :
    longest (⟨first, codes⟩ :: others.map fun pitch => ⟨pitch, codes⟩) = codes.units := by
  have hfold : ∀ others : List Int,
      (others.map fun pitch => (⟨pitch, codes⟩ : WrittenNote)).foldl (fun length note => max length note.codes.units)
        codes.units = codes.units := by
    intro others
    induction others with
    | nil => rfl
    | cons pitch rest ih => simpa using ih
  rw [longest, List.foldl_cons, Nat.zero_max, hfold]

/-! ### Strokes -/

/-- The slot is the chosen one, and the time lies in a span of it that starts now. -/
def Covers (reading : Reading) (length : Nat) (slot : Slot) (time : Nat) : Prop :=
  slot = reading.slot ∧ reading.clock slot ≤ time ∧ time < reading.clock slot + length

theorem sounding_notes (reading : Reading) (codes : Codes) (pitches : List Int) (slot : Slot) (time : Nat) (pitch : Int) :
    Event.Sounding (pitches.map fun pitch => reading.event (.note pitch codes.units)) slot time pitch ↔
      pitch ∈ pitches ∧ reading.Covers codes.units slot time := by
  constructor
  · rintro ⟨event, hevent, hslot, length, hkind, hstart, hend⟩
    obtain ⟨own, hown, rfl⟩ := List.mem_map.1 hevent
    obtain ⟨rfl, rfl⟩ := EventKind.note.inj hkind
    subst hslot
    exact ⟨hown, rfl, hstart, hend⟩
  · rintro ⟨hmem, rfl, hstart, hend⟩
    exact ⟨_, List.mem_map_of_mem hmem, rfl, codes.units, rfl, hstart, hend⟩

theorem not_sounding_nil {slot : Slot} {time : Nat} {pitch : Int} : ¬Event.Sounding [] slot time pitch :=
  fun ⟨_, hevent, _⟩ => List.not_mem_nil hevent

theorem step_harmony (reading : Reading) (codes : Codes) (first : Int) (others : List Int) :
    reading.step (Score.harmony codes first others) =
      ((first :: others).map fun pitch => reading.event (.note pitch codes.units), reading.pass codes.units) := by
  simp only [Score.harmony, step, longest_harmony, List.map_cons, List.map_map, Function.comp_def]

theorem step_note (reading : Reading) (codes : Codes) (pitch : Int) :
    reading.step (.notes ⟨pitch, codes⟩ []) =
      ([pitch].map fun pitch => reading.event (.note pitch codes.units), reading.pass codes.units) :=
  step_harmony reading codes pitch []

section Writes

variable {stroke : Stroke} {before after : List Token}

theorem slot_of_writes (hwrites : Writes stroke before after) : (through after).slot = (through before).slot := by
  cases hwrites with
  | notes | longerNote | rest | longerRest => rfl

/-- A stroke moves the clock of the chosen slot by its length. -/
theorem clock_of_writes (hwrites : Writes stroke before after) (asked : Slot) :
    ((through after).clock asked : Int) =
      (through before).clock asked + if asked = (through before).slot then stroke.length else 0 := by
  cases hwrites with
  | notes _ _ hlength =>
    rw [through, step_harmony, clock_pass]
    split <;> omega
  | @longerNote pitch codes added older _ hlength =>
    have hslot : (through (.notes ⟨pitch, codes⟩ [] :: older)).slot = (through older).slot := rfl
    rw [hslot, through, through, step_note, step_note, clock_pass, clock_pass, Codes.units_append]
    split <;> omega
  | rest _ _ hlength =>
    rw [through, step, clock_pass]
    split <;> omega
  | @longerRest codes longer older _ _ hlength =>
    have hslot : (through (.pause codes :: older)).slot = (through older).slot := rfl
    rw [hslot, through, through, step, step, clock_pass, clock_pass]
    split <;> omega

/-- A stroke lets its pitches sound in the chosen slot for its length, from the time of the clock on. -/
theorem sounding_of_writes (hwrites : Writes stroke before after) (slot : Slot) (time : Nat) (pitch : Int) :
    Event.Sounding (heard after) slot time pitch ↔
      Event.Sounding (heard before) slot time pitch ∨
        pitch ∈ stroke.pitches ∧ (through before).Covers stroke.length.toNat slot time := by
  cases hwrites with
  | @notes codes first others _ hpitches _ hlength =>
    rw [heard, Event.sounding_append, step_harmony, sounding_notes, hpitches, ← hlength, Int.toNat_natCast]
  | @longerNote own codes added older hpitches hlength =>
    have hclock := clock_pass (through older) codes.units slot
    rw [heard, heard, Event.sounding_append, Event.sounding_append, step_note, step_note, sounding_notes,
      sounding_notes, hpitches, ← hlength, Int.toNat_natCast, through, step_note, Codes.units_append, or_assoc]
    apply or_congr_right
    rw [← and_or_left]
    apply and_congr_right
    intro _
    have hslot : ((through older).pass codes.units).slot = (through older).slot := rfl
    simp only [Covers, hslot, ← and_or_left]
    apply and_congr_right
    intro hown
    rw [if_pos hown] at hclock
    omega
  | rest hpitches =>
    rw [heard, Event.sounding_append, hpitches]
    simp [step, not_sounding_nil]
  | longerRest hpitches =>
    rw [heard, heard, hpitches]
    simp [step]

end Writes

end Reading

/-! ### Marks -/

namespace Reading

variable {mark : Token} (hmark : mark.IsMark) (older : List Token)
include hmark

theorem clock_mark (asked : Slot) : (through (mark :: older)).clock asked = (through older).clock asked := by
  cases mark with
  | notes | pause => exact hmark.elim
  | _ => rfl

theorem sounding_mark (slot : Slot) (time : Nat) (pitch : Int) :
    Event.Sounding (heard (mark :: older)) slot time pitch ↔ Event.Sounding (heard older) slot time pitch := by
  rw [heard, Event.sounding_append, or_iff_left]
  rintro ⟨event, hevent, _, length, hkind, _⟩
  cases mark with
  | notes | pause => exact hmark.elim
  | tempo | instrument | control =>
    rw [List.mem_singleton.1 hevent] at hkind
    cases hkind
  | _ => exact List.not_mem_nil hevent

end Reading

namespace Reading

variable {marks : List Token} (hmarks : ∀ mark ∈ marks, mark.IsMark) (older : List Token)
include hmarks

theorem clock_marks (asked : Slot) : (through (marks ++ older)).clock asked = (through older).clock asked := by
  induction marks with
  | nil => rfl
  | cons mark rest ih =>
    rw [List.forall_mem_cons] at hmarks
    rw [List.cons_append, clock_mark hmarks.1, ih hmarks.2]

theorem sounding_marks (slot : Slot) (time : Nat) (pitch : Int) :
    Event.Sounding (heard (marks ++ older)) slot time pitch ↔ Event.Sounding (heard older) slot time pitch := by
  induction marks with
  | nil => rfl
  | cons mark rest ih =>
    rw [List.forall_mem_cons] at hmarks
    rw [List.cons_append, sounding_mark hmarks.1, ih hmarks.2]

omit hmarks in
theorem slot_measures (count : Nat) : (through (List.replicate count .measure ++ older)).slot = (through older).slot := by
  induction count with
  | zero => rfl
  | succ count ih => exact ih

end Reading

/-! ### Scores -/

theorem mapM_read_text {tokens : List Token} (htokens : ∀ token ∈ tokens, token.Readable) :
    (tokens.map Token.text).mapM Token.read = .ok tokens := by
  induction tokens with
  | nil => rfl
  | cons token rest ih =>
    rw [List.forall_mem_cons] at htokens
    rw [List.map_cons, List.mapM_cons, Token.read_text htokens.1, ih htokens.2]
    rfl

/-- The texts of readable tokens are read back. -/
theorem Score.mapM_read_tokenTexts {score : Score} (hreadable : ∀ token ∈ score.written, token.Readable) :
    score.tokenTexts.mapM Token.read = .ok score.tokens :=
  mapM_read_text fun token hmem => hreadable token (List.mem_reverse.1 hmem)

/-- A score of readable tokens is read. -/
theorem Score.events?_eq_ok {score : Score} (hreadable : ∀ token ∈ score.written, token.Readable) :
    score.events? = .ok (Reading.heard score.written) := by
  rw [Score.events?, Event.ofTexts, score.mapM_read_tokenTexts hreadable, Reading.heard_eq]
  rfl

end TurtleMusic
