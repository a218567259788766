import TurtleMusic.Proofs.Score.Reading

/-!
# Events in time

No clock ever goes back, and a token that lets notes sound moves the clock of its slot past the longest of them. So in each slot what comes later in the score starts when everything of the tokens before it has stopped; only the notes of one token may overlap, and those start together.
-/

namespace TurtleMusic

/-- The time that an event takes; only notes take any. -/
def EventKind.length : EventKind → Nat
  | .note _ length => length
  | _ => 0

def EventKind.pitch? : EventKind → Option Int
  | .note pitch _ => some pitch
  | _ => none

/-- The time that a token takes. Notes that start together take as long as the longest of them. -/
def Token.length : Token → Nat
  | notes first others => (others.map (·.codes.units)).foldl max first.codes.units
  | pause codes => codes.units
  | _ => 0

namespace Event

def slot (event : Event) : Slot := (event.voice, event.layer)

def stop (event : Event) : Nat := event.start + event.kind.length

end Event

namespace Reading

/-! ### Clocks and events -/

theorem le_longest {written : List WrittenNote} {note : WrittenNote} (hnote : note ∈ written) :
    note.codes.units ≤ longest written := by
  have hfold : ∀ (written : List WrittenNote) (most : Nat),
      most ≤ written.foldl (fun length note => max length note.codes.units) most ∧
        ∀ note ∈ written, note.codes.units ≤ written.foldl (fun length note => max length note.codes.units) most := by
    intro written
    induction written with
    | nil => exact fun most => ⟨Nat.le_refl most, List.forall_mem_nil _⟩
    | cons first rest ih =>
      intro most
      obtain ⟨hmost, hrest⟩ := ih (max most first.codes.units)
      exact ⟨by rw [List.foldl_cons]; omega, List.forall_mem_cons.2 ⟨by rw [List.foldl_cons]; omega, hrest⟩⟩
  exact (hfold written 0).2 note hnote

/-- A token moves the clock of the chosen slot by its length, and no other clock. -/
theorem clock_step (reading : Reading) (token : Token) (asked : Slot) :
    (reading.step token).2.clock asked = reading.clock asked + if asked = reading.slot then token.length else 0 := by
  cases token with
  | notes first others =>
    rw [step, clock_pass, longest, List.foldl_cons, Nat.zero_max, Token.length, List.foldl_map]
  | pause => exact clock_pass reading _ asked
  | _ => exact (ite_self 0).symm ▸ rfl

theorem clock_le_step (reading : Reading) (token : Token) (asked : Slot) :
    reading.clock asked ≤ (reading.step token).2.clock asked := by
  rw [clock_step]
  exact Nat.le_add_right _ _

/-- An event of a token starts at the clock of its slot and has stopped at the clock after the token. -/
theorem span_of_mem_step {reading : Reading} {token : Token} {event : Event} (hevent : event ∈ (reading.step token).1) :
    event.slot = reading.slot ∧ event.start = reading.clock event.slot ∧
      event.stop ≤ (reading.step token).2.clock event.slot := by
  cases token with
  | notes first others =>
    obtain ⟨note, hnote, rfl⟩ := List.mem_map.1 hevent
    refine ⟨rfl, rfl, ?_⟩
    rw [step, clock_pass, if_pos (show Event.slot (reading.event _) = reading.slot from rfl)]
    exact Nat.add_le_add_left (le_longest hnote) _
  | tempo | instrument | control =>
    rw [List.mem_singleton.1 hevent]
    exact ⟨rfl, rfl, Nat.le_refl _⟩
  | _ => exact absurd hevent List.not_mem_nil

theorem clock_le_start {tokens : List Token} {reading : Reading} {event : Event} (hevent : event ∈ reading.run tokens) :
    reading.clock event.slot ≤ event.start := by
  induction tokens generalizing reading with
  | nil => exact absurd hevent List.not_mem_nil
  | cons token rest ih =>
    rw [run, List.mem_append] at hevent
    rcases hevent with hown | hlater
    · exact Nat.le_of_eq (span_of_mem_step hown).2.1.symm
    · exact Nat.le_trans (clock_le_step reading token event.slot) (ih hlater)

/-- Every event of a run is one of a token, read where reading then stands. -/
theorem exists_step_of_mem_run {tokens : List Token} {reading : Reading} {event : Event}
    (hevent : event ∈ reading.run tokens) : ∃ before token after, tokens = before ++ token :: after ∧
      event ∈ ((reading.past before).step token).1 := by
  induction tokens generalizing reading with
  | nil => exact absurd hevent List.not_mem_nil
  | cons token rest ih =>
    rw [run, List.mem_append] at hevent
    rcases hevent with hown | hlater
    · exact ⟨[], token, rest, rfl, hown⟩
    · obtain ⟨before, later, after, rfl, hstep⟩ := ih hlater
      exact ⟨token :: before, later, after, rfl, hstep⟩

/-- A relation holds between earlier and later events if it holds among those of one token and wherever the later one of a slot waits for the earlier one to stop. -/
theorem pairwise_run {before : Event → Event → Prop} {tokens : List Token}
    (hwithin : ∀ token ∈ tokens, ∀ reading : Reading, (reading.step token).1.Pairwise before)
    (hafter : ∀ earlier later : Event, (earlier.slot = later.slot → earlier.stop ≤ later.start) → before earlier later)
    (reading : Reading) : (reading.run tokens).Pairwise before := by
  induction tokens generalizing reading with
  | nil => exact List.Pairwise.nil
  | cons token rest ih =>
    rw [List.forall_mem_cons] at hwithin
    rw [run, List.pairwise_append]
    refine ⟨hwithin.1 reading, ih hwithin.2 _, fun earlier hearlier later hlater => hafter _ _ fun hslot => ?_⟩
    have hstop := (span_of_mem_step hearlier).2.2
    rw [hslot] at hstop
    exact Nat.le_trans hstop (clock_le_start hlater)

end Reading

namespace Event

/-! ### Events of one slot -/

/-- Within a slot, events stand in the order of their starts. -/
theorem pairwise_start_ofTokens (tokens : List Token) :
    (ofTokens tokens).Pairwise fun earlier later => earlier.slot = later.slot → earlier.start ≤ later.start := by
  refine Reading.pairwise_run (fun token _ reading => ?_) (fun earlier later hafter hslot => ?_) {}
  · refine List.pairwise_of_forall_mem_list fun earlier hearlier later hlater hslot => ?_
    have hsame : earlier.start = later.start := by
      rw [(Reading.span_of_mem_step hearlier).2.1, (Reading.span_of_mem_step hlater).2.1, hslot]
    exact Nat.le_of_eq hsame
  · exact Nat.le_trans (Nat.le_add_right _ _) (hafter hslot)

/-- Within a slot, a note has stopped when its pitch is played again, unless one token names a pitch twice. -/
theorem pairwise_stop_ofTokens {tokens : List Token} (hdistinct : ∀ token ∈ tokens, token.pitches.Nodup) :
    (ofTokens tokens).Pairwise fun earlier later => earlier.slot = later.slot →
      earlier.kind.pitch? = later.kind.pitch? → earlier.kind.pitch? ≠ none → earlier.stop ≤ later.start := by
  refine Reading.pairwise_run (fun token htoken reading => ?_) (fun earlier later hafter hslot _ _ => hafter hslot) {}
  cases token with
  | notes first others =>
    have hpitches := hdistinct _ htoken
    rw [Token.pitches, List.nodup_iff_pairwise_ne, List.pairwise_map] at hpitches
    exact List.pairwise_map.2 (hpitches.imp fun hother _ hsame => absurd (Option.some.inj hsame) hother)
  | tempo | instrument | control => exact List.pairwise_singleton _ _
  | _ => exact List.Pairwise.nil

/-- A note that was read from text takes time. -/
theorem length_pos_of_mapM_read {texts : List (List Char)} {tokens : List Token}
    (htokens : texts.mapM Token.read = .ok tokens) {event : Event} (hevent : event ∈ ofTokens tokens)
    (hpitch : event.kind.pitch? ≠ none) : 0 < event.kind.length := by
  obtain ⟨before, token, after, hsplit, hown⟩ := Reading.exists_step_of_mem_run hevent
  obtain ⟨text, _, hread⟩ :=
    Except.exists_of_mem_of_mapM htokens (hsplit ▸ List.mem_append_right before List.mem_cons_self)
  have hreadable := Token.readable_of_read hread
  cases token with
  | notes first others =>
    obtain ⟨note, hnote, rfl⟩ := List.mem_map.1 hown
    exact Codes.units_pos (List.forall_mem_cons.2 hreadable note hnote).2
  | tempo | instrument | control =>
    rw [List.mem_singleton.1 hown] at hpitch
    exact absurd rfl hpitch
  | _ => exact absurd hown List.not_mem_nil

end Event

/-! ### Numbers of voices and layers -/

/-- The numbers by which the token chooses a voice or a layer are allowed. -/
def Token.Chooses (allowed : Int → Prop) : Token → Prop
  | voice number | layer number => allowed number
  | _ => True

namespace Reading

/-- Voice, layer and the layers to go back to are allowed. -/
structure Within (allowed : Int → Prop) (reading : Reading) : Prop where
  voice : allowed reading.voice
  layer : allowed reading.layer
  layers : ∀ voice, allowed (reading.layers.get voice 0)

variable {allowed : Int → Prop} {reading : Reading}

theorem Within.step (hwithin : reading.Within allowed) {token : Token} (htoken : token.Chooses allowed) :
    (reading.step token).2.Within allowed := by
  cases token with
  | voice number =>
    have hlayers : ∀ voice, allowed ((reading.layers.set reading.voice reading.layer).get voice 0) := by
      intro voice
      rw [Kept.get_set]
      split
      · exact hwithin.layer
      · exact hwithin.layers voice
    exact ⟨htoken, hlayers number, hlayers⟩
  | layer number => exact ⟨hwithin.voice, htoken, hwithin.layers⟩
  | _ => exact ⟨hwithin.voice, hwithin.layer, hwithin.layers⟩

theorem Within.past (hwithin : reading.Within allowed) {tokens : List Token}
    (htokens : ∀ token ∈ tokens, token.Chooses allowed) : (reading.past tokens).Within allowed := by
  induction tokens generalizing reading with
  | nil => exact hwithin
  | cons token rest ih =>
    rw [List.forall_mem_cons] at htokens
    exact ih (hwithin.step htokens.1) htokens.2

/-- Events lie in slots whose numbers are allowed, if nought is. -/
theorem slot_of_mem_ofTokens (hzero : allowed 0) {tokens : List Token} (htokens : ∀ token ∈ tokens, token.Chooses allowed)
    {event : Event} (hevent : event ∈ Event.ofTokens tokens) : allowed event.slot.1 ∧ allowed event.slot.2 := by
  obtain ⟨before, token, after, rfl, hown⟩ := exists_step_of_mem_run hevent
  have hstart : Within allowed {} := ⟨hzero, hzero, fun _ => hzero⟩
  have hwithin := hstart.past fun token htoken => htokens token (List.mem_append_left _ htoken)
  rw [(span_of_mem_step hown).1]
  exact ⟨hwithin.voice, hwithin.layer⟩

end Reading

end TurtleMusic
