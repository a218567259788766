import Mathlib
import TurtleMusic.Command.Run
import TurtleMusic.Proofs.Files.Writing
import TurtleMusic.Proofs.Midi.Playing

/-!
# Saved notes read back

A saved file is read as the notes of the score by their starts. The notes of a slot begin in the order of the score already, so its track begins them in that order; the tracks follow one another by voice and layer, and reading sorts the beginnings of all of them by time without changing their order at one time.
-/

namespace TurtleMusic.Midi

/-! ### Beginnings of notes -/

/-- The note that an event begins, at its time in ticks. -/
def onsetOf (event : Event) : Option Onset :=
  event.kind.pitch?.map fun pitch => (event.start * ticksPerUnit, pitch.toNat)

def Entry.onset? (entry : Entry) : Option Onset := entry.message.onset?.map (entry.time * ticksPerUnit, ·)

theorem Entry.onset?_eq_none {entry : Entry} (hother : entry.message.strikes?.isSome = false) : entry.onset? = none := by
  obtain ⟨time, rank, message⟩ := entry
  cases message with
  | noteOn | noteOff => cases hother
  | _ => rfl

/-- Of the two entries of a note only the first begins it. -/
theorem start_of_onset? {event : Event} {entry : Entry} (hentry : entry ∈ noteEntries event) (honset : entry.onset? ≠ none) :
    event.kind.pitch? ≠ none ∧ entry.time = event.start ∧ entry.rank = 1 := by
  obtain ⟨pitch, hpitch, ⟨htime, hrank, _⟩ | ⟨_, _, hends⟩⟩ := bounds_of_mem_noteEntries hentry
  · exact ⟨by rw [hpitch]; exact Option.some_ne_none pitch, htime, hrank⟩
  · obtain ⟨time, rank, message⟩ := entry
    cases message with
    | noteOn => cases hends
    | _ => exact absurd rfl honset

theorem filterMap_onset?_noteEntries (events : List Event) :
    (events.flatMap noteEntries).filterMap Entry.onset? = events.filterMap onsetOf := by
  induction events with
  | nil => rfl
  | cons event rest ih =>
    obtain ⟨start, voice, layer, kind⟩ := event
    rw [List.flatMap_cons, List.filterMap_append, ih]
    cases kind <;> rfl

/-- A track begins the notes of its events, if those start in the order they stand in. -/
theorem onsets_track {name : String} {events : List Event} (hentries : ∀ event ∈ events, ∃ found, entries event = .ok found)
    (hlength : ∀ event ∈ events, event.kind.pitch? ≠ none → 0 < event.kind.length)
    (hstart : events.Pairwise fun earlier later =>
      earlier.kind.pitch? ≠ none → later.kind.pitch? ≠ none → earlier.start ≤ later.start) :
    onsets (timed 0 (track name (events.flatMap entriesOf))) = events.filterMap onsetOf := by
  rw [timed_track, onsets, List.filterMap_cons_none rfl, List.filterMap_map]
  change ((events.flatMap entriesOf).mergeSort Entry.le).filterMap Entry.onset? = _
  rw [filterMap_sorted hentries (fun entry => Entry.onset?_eq_none) hlength]
  · exact filterMap_onset?_noteEntries events
  · refine hstart.imp ?_
    intro earlier later hafter left hleft right hright hleftOnset hrightOnset
    obtain ⟨hleftNote, hleftTime, hleftRank⟩ := start_of_onset? hleft hleftOnset
    obtain ⟨hrightNote, hrightTime, hrightRank⟩ := start_of_onset? hright hrightOnset
    have hgap := hafter hleftNote hrightNote
    rw [Entry.le_iff]
    omega

/-! ### The order of all notes -/

/-- The notes among events, each with its position. Events stand in the order of the tokens they come from. -/
def notesAmong (events : List Event) : List (Event × Nat) :=
  events.zipIdx.filter fun placed => placed.1.kind.pitch?.isSome

/-- The order of notes: by start, then by voice, then by layer, then by position. -/
def Precedes (left right : Event × Nat) : Prop :=
  left.1.start < right.1.start ∨ left.1.start = right.1.start ∧
    (Slot.Before left.1.slot right.1.slot ∨ left.1.slot = right.1.slot ∧ left.2 < right.2)

/-- The notes slot by slot. -/
def bySlot (events : List Event) : List (Event × Nat) :=
  (slotsOf events).flatMap fun slot => (notesAmong events).filter fun placed => placed.1.slot = slot

def startLE (left right : Event × Nat) : Bool := left.1.start ≤ right.1.start

/-- The notes in the order in which they are read back. -/
def inTime (events : List Event) : List (Event × Nat) := (bySlot events).mergeSort startLE

theorem pairwise_notesAmong (events : List Event) : (notesAmong events).Pairwise fun left right => left.2 < right.2 := by
  have hpositions : (events.zipIdx.map Prod.snd).Pairwise (· < ·) := by
    rw [List.zipIdx_map_snd]
    exact List.pairwise_lt_range'
  exact (List.pairwise_map.1 hpositions).filter _

theorem pairwise_bySlot (events : List Event) : (bySlot events).Pairwise fun left right =>
    Slot.Before left.1.slot right.1.slot ∨ left.1.slot = right.1.slot ∧ left.2 < right.2 := by
  refine List.pairwise_flatMap.2 ⟨fun slot _ => ?_, (pairwise_slotsOf events).imp fun hslots left hleft right hright => ?_⟩
  · refine ((pairwise_notesAmong events).filter _).imp_of_mem fun hleft hright hpositions => .inr ⟨?_, hpositions⟩
    rw [List.mem_filter, decide_eq_true_eq] at hleft hright
    rw [hleft.2, hright.2]
  · rw [List.mem_filter, decide_eq_true_eq] at hleft hright
    rw [hleft.2, hright.2]
    exact .inl hslots

theorem mem_of_mem_notesAmong {events : List Event} {placed : Event × Nat} (hplaced : placed ∈ notesAmong events) :
    placed.1 ∈ events ∧ placed.1.kind.pitch? ≠ none := by
  rw [notesAmong, List.mem_filter, Option.isSome_iff_ne_none] at hplaced
  exact ⟨List.fst_mem_of_mem_zipIdx hplaced.1, hplaced.2⟩

theorem isTempo_of_pitch? {event : Event} (hpitch : event.kind.pitch? ≠ none) : event.isTempo = false := by
  obtain ⟨start, voice, layer, kind⟩ := event
  cases kind with
  | tempo => exact absurd rfl hpitch
  | _ => rfl

theorem bySlot_perm (events : List Event) : (bySlot events).Perm (notesAmong events) := by
  have hslots : (bySlot events).Nodup := by
    refine (pairwise_bySlot events).imp fun hbefore => ?_
    rintro rfl
    rcases hbefore with (hvoice | ⟨_, hlayer⟩) | ⟨_, hposition⟩
    · exact Int.lt_irrefl _ hvoice
    · exact Int.lt_irrefl _ hlayer
    · exact Nat.lt_irrefl _ hposition
  have hnotes : (notesAmong events).Nodup := (pairwise_notesAmong events).imp fun hpositions heq => by
    rw [heq] at hpositions
    exact Nat.lt_irrefl _ hpositions
  refine (List.perm_ext_iff_of_nodup hslots hnotes).2 fun placed => ?_
  simp only [bySlot, List.mem_flatMap, List.mem_filter, decide_eq_true_eq]
  constructor
  · rintro ⟨_, _, hplaced, _⟩
    exact hplaced
  · intro hplaced
    obtain ⟨hevent, hpitch⟩ := mem_of_mem_notesAmong hplaced
    exact ⟨_, mem_slotsOf.2 ⟨placed.1, hevent, isTempo_of_pitch? hpitch, rfl⟩, hplaced, rfl⟩

theorem inTime_perm (events : List Event) : (inTime events).Perm (notesAmong events) :=
  (List.mergeSort_perm _ _).trans (bySlot_perm events)

theorem pairwise_inTime (events : List Event) : (inTime events).Pairwise Precedes := by
  have htrans : ∀ a b c : Event × Nat, startLE a b → startLE b c → startLE a c := by
    intro a b c hleft hright
    simp only [startLE, decide_eq_true_eq] at hleft hright ⊢
    omega
  have htotal : ∀ a b : Event × Nat, startLE a b || startLE b a := by
    intro a b
    simp only [startLE, Bool.or_eq_true, decide_eq_true_eq]
    omega
  refine (List.pairwise_mergeSort_of_pairwise htrans htotal (pairwise_bySlot events)).imp fun {left right} hsorted => ?_
  simp only [startLE, decide_eq_true_eq] at hsorted
  rcases Nat.lt_or_eq_of_le hsorted.1 with hearlier | hsame
  · exact .inl hearlier
  · exact .inr ⟨hsame, hsorted.2 (Nat.le_of_eq hsame.symm)⟩

/-! ### Reading -/

/-- The beginning of a note as it is read. -/
def onsetAt (placed : Event × Nat) : Onset :=
  (placed.1.start * ticksPerUnit, (placed.1.kind.pitch?.getD 0).toNat)

theorem map_onsetAt_slot (events : List Event) (slot : Slot) :
    ((notesAmong events).filter fun placed => placed.1.slot = slot).map onsetAt =
      (eventsIn events slot).filterMap onsetOf := by
  have hplaced : ∀ placed : List (Event × Nat),
      ((placed.filter fun placed => placed.1.kind.pitch?.isSome).filter fun placed => placed.1.slot = slot).map onsetAt =
        ((placed.map Prod.fst).filter fun event => !event.isTempo && decide (event.slot = slot)).filterMap onsetOf := by
    intro placed
    rw [List.filter_filter, List.filter_map, List.filterMap_map, List.filterMap_filter, ← List.filterMap_eq_map,
      List.filterMap_filter]
    refine List.filterMap_congr fun placed _ => ?_
    obtain ⟨⟨start, voice, layer, kind⟩, position⟩ := placed
    cases kind <;> simp [onsetAt, onsetOf, EventKind.pitch?, Event.isTempo]
  rw [notesAmong, hplaced, List.zipIdx_map_fst, eventsIn]

theorem onsets_tracks {texts : List (List Char)} {tokens : List Token} (htokens : texts.mapM Token.read = .ok tokens)
    (hentries : ∀ event ∈ Event.ofTokens tokens, ∃ found, entries event = .ok found) :
    ((tempoTrack (Event.ofTokens tokens) :: (slotsOf (Event.ofTokens tokens)).map (slotTrack (Event.ofTokens tokens))).flatMap
      fun track => onsets (timed 0 track)) = (bySlot (Event.ofTokens tokens)).map onsetAt := by
  have hlength : ∀ event ∈ Event.ofTokens tokens, event.kind.pitch? ≠ none → 0 < event.kind.length :=
    fun event hevent => Event.length_pos_of_mapM_read htokens hevent
  have htempo : onsets (timed 0 (tempoTrack (Event.ofTokens tokens))) = [] := by
    have hsilent : ∀ event ∈ (Event.ofTokens tokens).filter Event.isTempo, event.kind.pitch? = none := by
      intro event hevent
      by_contra hpitch
      have htempo := (List.mem_filter.1 hevent).2
      rw [isTempo_of_pitch? hpitch] at htempo
      cases htempo
    rw [tempoTrack, onsets_track (fun event hevent => hentries event (List.mem_of_mem_filter hevent))
      (fun event hevent => hlength event (List.mem_of_mem_filter hevent))
      (List.pairwise_of_forall_mem_list fun earlier hearlier _ _ hpitch => absurd (hsilent earlier hearlier) hpitch)]
    refine List.filterMap_eq_nil_iff.2 fun event hevent => ?_
    rw [onsetOf, hsilent event hevent]
    rfl
  have hslot : ∀ slot, onsets (timed 0 (slotTrack (Event.ofTokens tokens) slot)) =
      ((notesAmong (Event.ofTokens tokens)).filter fun placed => placed.1.slot = slot).map onsetAt := by
    intro slot
    have hstart := (Event.pairwise_start_ofTokens tokens).filter fun event => !event.isTempo && decide (event.slot = slot)
    rw [map_onsetAt_slot, slotTrack, slotEntries]
    refine onsets_track (fun event hevent => hentries event (mem_eventsIn.1 hevent).1)
      (fun event hevent => hlength event (mem_eventsIn.1 hevent).1)
      (hstart.imp_of_mem fun hearlier hlater hafter _ _ => hafter ?_)
    exact (mem_eventsIn.1 hearlier).2.2.trans (mem_eventsIn.1 hlater).2.2.symm
  rw [List.flatMap_cons, htempo, List.nil_append, List.flatMap_map, bySlot, List.map_flatMap]
  exact List.flatMap_congr fun slot _ => hslot slot

/-- The bytes of an exported file are read as its notes in the order of time. -/
theorem notes_of_ofEvents {texts : List (List Char)} {tokens : List Token} (htokens : texts.mapM Token.read = .ok tokens)
    {file : File} (hfile : File.ofEvents (Event.ofTokens tokens) = .ok file) {bytes : Bytes} (hbytes : file.encode = .ok bytes) :
    notes bytes = .ok ((inTime (Event.ofTokens tokens)).map fun placed => (onsetAt placed).2) := by
  have hread := notes_encode (fits_ofEvents hfile) hbytes
  obtain ⟨hentries, _, rfl⟩ := ofEvents_eq_ok_iff.1 hfile
  have hsort : ((bySlot (Event.ofTokens tokens)).map onsetAt).mergeSort (fun left right => left.1 ≤ right.1) =
      (inTime (Event.ofTokens tokens)).map onsetAt := by
    refine (List.map_mergeSort fun left _ right _ => ?_).symm
    rw [startLE, decide_eq_decide]
    exact (Nat.mul_le_mul_right_iff (by decide)).symm
  rw [hread, onsets_tracks htokens hentries, hsort, List.map_map]
  rfl

end TurtleMusic.Midi

namespace TurtleMusic.Command

open TurtleMusic.Files TurtleMusic.Midi

theorem change_eq_ok {tree : Tree} {changed : Except Fault Tree} {account : Account Unit}
    (hresult : (change tree changed account).account.result = .ok ()) :
    changed = .ok (change tree changed account).state ∧ account.result = .ok () := by
  cases changed with
  | error fault => cases hresult
  | ok written => exact ⟨rfl, hresult⟩

theorem andThen_eq_ok {S α β : Type} {outcome : Outcome S α} {next : S → Outcome S β} {value : β}
    (hresult : (outcome.andThen next).account.result = .ok value) :
    (outcome.andThen next).state = (next outcome.state).state ∧ (next outcome.state).account.result = .ok value := by
  rw [Outcome.andThen] at hresult ⊢
  split at hresult
  · cases hresult
  · exact ⟨rfl, hresult⟩

/-- A score that was saved was exported, and its bytes were written where the path leads. -/
theorem saveMidi_eq_ok {tree : Tree} {sheet : Sheet} {path : String}
    (hsaved : (saveMidi tree sheet (.text path)).account.result = .ok ()) :
    ∃ events file bytes emptied, sheet.events? = .ok events ∧ File.ofEvents events = .ok file ∧ file.encode = .ok bytes ∧
      Tree.write emptied path bytes = .ok (saveMidi tree sheet (.text path)).state := by
  rw [saveMidi] at hsaved ⊢
  split at hsaved
  · cases hsaved
  · next file hfile =>
    obtain ⟨events, hevents, hmade⟩ := Except.bind_eq_ok_iff.1 hfile
    generalize (Outcome.mk tree _).andThen _ = opened at hsaved ⊢
    obtain ⟨hstate, hresult⟩ := andThen_eq_ok hsaved
    obtain ⟨bytes, hbytes, hwrite⟩ := Except.bind_eq_ok_iff.1 (change_eq_ok hresult).1
    refine ⟨events, file, bytes, opened.state, hevents, hmade, hbytes, ?_⟩
    rw [hstate]
    exact hwrite

/-- A file that was saved is read back as the notes of the sheet, each once, in the order of their starts, voices, layers and positions. -/
theorem saved_notes_read_back {tree : Tree} {sheet : Sheet} {path : String}
    (hsaved : (saveMidi tree sheet (.text path)).account.result = .ok ()) :
    ∃ (events : List Event) (ordered : List (Event × Nat)) (notes : List Nat), sheet.events? = .ok events ∧
      ordered.Perm (notesAmong events) ∧ ordered.Pairwise Precedes ∧
      NamedMelodies.midiNotes (saveMidi tree sheet (.text path)).state path = .ok notes ∧
        ordered.map (fun placed => placed.1.kind.pitch?) = notes.map fun note : Nat => some (note : Int) := by
  obtain ⟨events, file, bytes, emptied, hevents, hfile, hbytes, hwrite⟩ := saveMidi_eq_ok hsaved
  obtain ⟨place, hread⟩ := Tree.read_write hwrite
  obtain ⟨tokens, htokens, rfl⟩ := Except.map_eq_ok_iff.1 hevents
  refine ⟨_, inTime (Event.ofTokens tokens), _, hevents, inTime_perm _, pairwise_inTime _,
    Except.bind_eq_ok_iff.2 ⟨_, hread, notes_of_ofEvents htokens hfile hbytes⟩, ?_⟩
  rw [List.map_map]
  refine List.map_congr_left fun placed hplaced => ?_
  obtain ⟨hevent, hsome⟩ := mem_of_mem_notesAmong ((inTime_perm _).mem_iff.1 hplaced)
  obtain ⟨pitch, hpitch⟩ := Option.ne_none_iff_exists'.1 hsome
  have hlow := (nonneg_of_entries hpitch ((ofEvents_eq_ok_iff.1 hfile).1 placed.1 hevent)).1
  rw [hpitch, Function.comp_apply, onsetAt, hpitch, Option.getD_some, Int.toNat_of_nonneg hlow]

/-- Two voices, of which the later one is written first. -/
def twoVoices : Sheet :=
  .ofTokens [['V', '1'], ['[', '6', '7', ']', 'i'], ['[', '6', '0', ']', 'i'], ['V', '0'], ['[', '6', '4', ']', 'h'],
    ['[', '6', '5', ']', 'i']]

theorem saved_notes_read_back_two_voices :
    (saveMidi {} twoVoices (.text "out.mid")).account.result = .ok () ∧
      NamedMelodies.midiNotes (saveMidi {} twoVoices (.text "out.mid")).state "out.mid" = .ok [64, 67, 60, 65] ∧
        ∃ (events : List Event) (ordered : List (Event × Nat)) (notes : List Nat), twoVoices.events? = .ok events ∧
          ordered.Perm (notesAmong events) ∧ ordered.Pairwise Precedes ∧
            NamedMelodies.midiNotes (saveMidi {} twoVoices (.text "out.mid")).state "out.mid" = .ok notes ∧
              ordered.map (fun placed => placed.1.kind.pitch?) = notes.map fun note : Nat => some (note : Int) :=
  have hsaved : (saveMidi {} twoVoices (.text "out.mid")).account.result = .ok () := by cbv
  ⟨hsaved, by cbv, saved_notes_read_back hsaved⟩

end TurtleMusic.Command
