import TurtleMusic.Midi.Export
import TurtleMusic.Proofs.Midi.Files
import TurtleMusic.Proofs.Score.Timeline
import TurtleMusic.Proofs.Sorting

/-!
# Tracks of a score

Export succeeds if every event has its messages and every slot its name, and what it makes is then told without failure: a track for the tempo and one for each slot in use, in which the messages of the events stand sorted. The deltas of a track add up to the times that its messages were given.
-/

namespace TurtleMusic

def Event.isTempo (event : Event) : Bool :=
  match event.kind with
  | .tempo _ => true
  | _ => false

namespace Midi

/-! ### Slots and their entries -/

/-- The entries of an event that has them. -/
def entriesOf (event : Event) : List Entry := (entries event).toOption.getD []

theorem entries_eq_entriesOf {event : Event} (hentries : ∃ found, entries event = .ok found) :
    entries event = .ok (entriesOf event) := by
  obtain ⟨found, hfound⟩ := hentries
  rw [entriesOf, hfound]
  rfl

/-- The slots in use, in order. -/
def slotsOf (events : List Event) : List Slot :=
  (((events.filter fun event => !event.isTempo).map Event.slot).eraseDups).mergeSort pairLE

/-- The events of the track of a slot. -/
def eventsIn (events : List Event) (slot : Slot) : List Event :=
  events.filter fun event => !event.isTempo && decide (event.slot = slot)

def slotEntries (events : List Event) (slot : Slot) : List Entry := (eventsIn events slot).flatMap entriesOf

def slotName (slot : Slot) : String := "V" ++ toString slot.1 ++ " L" ++ toString slot.2

def slotTrack (events : List Event) (slot : Slot) : Track := track (slotName slot) (slotEntries events slot)

def tempoTrack (events : List Event) : Track := track "tempo" ((events.filter Event.isTempo).flatMap entriesOf)

theorem mem_slotsOf {events : List Event} {slot : Slot} :
    slot ∈ slotsOf events ↔ ∃ event ∈ events, event.isTempo = false ∧ event.slot = slot := by
  rw [slotsOf, List.mem_mergeSort, List.mem_eraseDups, List.mem_map]
  constructor
  · rintro ⟨event, hevent, hslot⟩
    rw [List.mem_filter, Bool.not_eq_true'] at hevent
    exact ⟨event, hevent.1, hevent.2, hslot⟩
  · rintro ⟨event, hevent, htempo, hslot⟩
    exact ⟨event, List.mem_filter.2 ⟨hevent, by rw [htempo]; rfl⟩, hslot⟩

theorem mem_eventsIn {events : List Event} {slot : Slot} {event : Event} :
    event ∈ eventsIn events slot ↔ event ∈ events ∧ event.isTempo = false ∧ event.slot = slot := by
  simp [eventsIn]

/-- The order of tracks: by voice, then by layer. -/
def Slot.Before (left right : Slot) : Prop := left.1 < right.1 ∨ left.1 = right.1 ∧ left.2 < right.2

theorem pairLE_iff (left right : Slot) : pairLE left right = true ↔ Slot.Before left right ∨ left = right := by
  obtain ⟨voice, layer⟩ := left
  obtain ⟨voice', layer'⟩ := right
  simp only [pairLE, Slot.Before, Bool.or_eq_true, Bool.and_eq_true, decide_eq_true_eq, beq_iff_eq, Prod.mk.injEq]
  omega

theorem pairwise_slotsOf (events : List Event) : (slotsOf events).Pairwise Slot.Before := by
  have hsorted : (slotsOf events).Pairwise fun left right => pairLE left right := by
    refine List.pairwise_mergeSort ?_ ?_ _
    · intro left middle right hleft hright
      simp only [pairLE, Bool.or_eq_true, Bool.and_eq_true, decide_eq_true_eq, beq_iff_eq] at hleft hright ⊢
      omega
    · intro left right
      simp only [pairLE, Bool.or_eq_true, Bool.and_eq_true, decide_eq_true_eq, beq_iff_eq]
      omega
  have hnodup : (slotsOf events).Nodup := (List.mergeSort_perm _ _).nodup_iff.2 (List.nodup_eraseDups _)
  exact (hsorted.and hnodup).imp fun hslots => ((pairLE_iff _ _).1 hslots.1).resolve_right hslots.2

/-! ### What export makes -/

theorem numberText_eq_ok {number : Int} {text : String} (htext : numberText number = .ok text) :
    text = toString number ∧ text.length ≤ Fault.digitLimit + 1 := by
  rw [numberText] at htext
  split at htext
  · cases htext
  · next hdigits =>
    cases htext
    refine ⟨rfl, ?_⟩
    cases number with
    | ofNat n => exact Nat.le_succ_of_le (Nat.not_lt.1 hdigits)
    | negSucc n =>
      change ("-" ++ toString (n + 1)).length ≤ _
      rw [String.length_append, Nat.add_comm]
      exact Nat.succ_le_succ (Nat.not_lt.1 hdigits)

theorem pairName_eq_ok {slot : Slot} {name : String} (hname : pairName slot = .ok name) :
    name = slotName slot ∧ name.length ≤ longestBlock := by
  obtain ⟨voice, hvoice, hname⟩ := Except.bind_eq_ok_iff.1 hname
  obtain ⟨layer, hlayer, hname⟩ := Except.bind_eq_ok_iff.1 hname
  cases hname
  obtain ⟨rfl, hvoice⟩ := numberText_eq_ok hvoice
  obtain ⟨rfl, hlayer⟩ := numberText_eq_ok hlayer
  refine ⟨rfl, ?_⟩
  have hwords : ("V" : String).length = 1 ∧ (" L" : String).length = 2 := by decide
  have hlimits : Fault.digitLimit = 4300 ∧ longestBlock = 1000000 := ⟨rfl, rfl⟩
  rw [String.length_append, String.length_append, String.length_append]
  omega

theorem numberText_isOk {number : Int} (hnumber : number.natAbs < 10 ^ Fault.digitLimit) :
    ∃ text, numberText number = .ok text :=
  ⟨_, if_neg (Nat.not_lt.2 ((Nat.length_repr_le_iff (by decide)).2 hnumber))⟩

theorem pairName_isOk {slot : Slot} (hvoice : slot.1.natAbs < 10 ^ Fault.digitLimit)
    (hlayer : slot.2.natAbs < 10 ^ Fault.digitLimit) : ∃ name, pairName slot = .ok name :=
  Except.bind_isOk (numberText_isOk hvoice) fun _ _ => Except.bind_isOk (numberText_isOk hlayer) fun _ _ => ⟨_, rfl⟩

def Voiced.of (event : Event) : Voiced := ⟨event, entriesOf event⟩

theorem mapM_voiced_iff {events : List Event} {voiced : List Voiced} :
    (events.mapM fun event => (entries event).map (Voiced.mk event)) = .ok voiced ↔
      (∀ event ∈ events, ∃ found, entries event = .ok found) ∧ voiced = events.map Voiced.of := by
  have hvoiced : ∀ event value, (entries event).map (Voiced.mk event) = .ok value ↔
      (∃ found, entries event = .ok found) ∧ Voiced.of event = value := by
    intro event value
    rw [Except.map_eq_ok_iff]
    constructor
    · rintro ⟨found, hfound, rfl⟩
      have hown := entries_eq_entriesOf ⟨found, hfound⟩
      rw [hfound] at hown
      exact ⟨⟨found, hfound⟩, by rw [Voiced.of, ← Except.ok.inj hown]⟩
    · rintro ⟨hfound, rfl⟩
      exact ⟨_, entries_eq_entriesOf hfound, rfl⟩
  simp only [Except.mapM_eq_ok_iff, hvoiced, List.forall₂_and_left]
  rw [← List.forall₂_map_left_iff, List.forall₂_eq_eq_eq, eq_comm (a := voiced)]

theorem partition_voiced (events : List Event) :
    (events.map Voiced.of).partition Voiced.isTempo =
      ((events.filter Event.isTempo).map Voiced.of, (events.filter fun event => !event.isTempo).map Voiced.of) := by
  rw [List.partition_eq_filter_filter, List.filter_map, List.filter_map]
  rfl

theorem flatMap_voiced (events : List Event) : (events.map Voiced.of).flatMap Voiced.entries = events.flatMap entriesOf := by
  rw [List.flatMap_map]
  rfl

theorem pairsOf_voiced (events : List Event) :
    pairsOf ((events.filter fun event => !event.isTempo).map Voiced.of) = slotsOf events := by
  rw [pairsOf, List.map_map]
  rfl

theorem pairTrack_eq_ok_iff {events : List Event} {slot : Slot} {made : Track} :
    pairTrack ((events.filter fun event => !event.isTempo).map Voiced.of) slot = .ok made ↔
      (∃ name, pairName slot = .ok name) ∧ slotTrack events slot = made := by
  have hentries : (((events.filter fun event => !event.isTempo).map Voiced.of).filter
      fun voiced => voiced.pair = slot).flatMap Voiced.entries = slotEntries events slot := by
    rw [List.filter_map, flatMap_voiced, List.filter_filter, slotEntries, eventsIn]
    congr 1
    refine List.filter_congr fun event _ => ?_
    rw [Bool.and_comm]
    rfl
  rw [pairTrack, Except.map_eq_ok_iff, hentries]
  constructor
  · rintro ⟨name, hname, rfl⟩
    exact ⟨⟨name, hname⟩, by rw [(pairName_eq_ok hname).1]; rfl⟩
  · rintro ⟨⟨name, hname⟩, rfl⟩
    exact ⟨name, hname, by rw [(pairName_eq_ok hname).1]; rfl⟩

/-- Export succeeds if every event has its entries and every slot its name, and it makes the track of the tempo and those of the slots. -/
theorem ofEvents_eq_ok_iff {events : List Event} {file : File} :
    File.ofEvents events = .ok file ↔
      (∀ event ∈ events, ∃ found, entries event = .ok found) ∧
        (∀ slot ∈ slotsOf events, ∃ name, pairName slot = .ok name) ∧
          file = ⟨resolution, tempoTrack events :: (slotsOf events).map (slotTrack events)⟩ := by
  have htracks : ∀ tracks, (slotsOf events).mapM
      (pairTrack ((events.filter fun event => !event.isTempo).map Voiced.of)) = .ok tracks ↔
        (∀ slot ∈ slotsOf events, ∃ name, pairName slot = .ok name) ∧ (slotsOf events).map (slotTrack events) = tracks := by
    intro tracks
    simp only [Except.mapM_eq_ok_iff, pairTrack_eq_ok_iff, List.forall₂_and_left]
    rw [← List.forall₂_map_left_iff, List.forall₂_eq_eq_eq]
  rw [File.ofEvents, Except.bind_eq_ok_iff]
  simp only [mapM_voiced_iff]
  constructor
  · rintro ⟨_, ⟨hentries, rfl⟩, hfile⟩
    rw [partition_voiced] at hfile
    dsimp only at hfile
    rw [pairsOf_voiced] at hfile
    obtain ⟨tracks, hmade, hfile⟩ := Except.bind_eq_ok_iff.1 hfile
    obtain ⟨hnames, rfl⟩ := (htracks tracks).1 hmade
    refine ⟨hentries, hnames, (Except.ok.inj hfile).symm.trans ?_⟩
    rw [flatMap_voiced]
    rfl
  · rintro ⟨hentries, hnames, rfl⟩
    refine ⟨_, ⟨hentries, rfl⟩, ?_⟩
    rw [partition_voiced]
    dsimp only
    rw [pairsOf_voiced]
    refine Except.bind_eq_ok_iff.2 ⟨_, (htracks _).2 ⟨hnames, rfl⟩, ?_⟩
    rw [flatMap_voiced]
    rfl

theorem ofEvents_isOk {events : List Event} (hentries : ∀ event ∈ events, ∃ found, entries event = .ok found)
    (hnames : ∀ event ∈ events, ∃ name, pairName event.slot = .ok name) : ∃ file, File.ofEvents events = .ok file := by
  refine ⟨_, ofEvents_eq_ok_iff.2 ⟨hentries, fun slot hslot => ?_, rfl⟩⟩
  obtain ⟨event, hevent, _, rfl⟩ := mem_slotsOf.1 hslot
  exact hnames event hevent

/-! ### Times -/

theorem Entry.le_iff (left right : Entry) :
    Entry.le left right = true ↔ left.time < right.time ∨ left.time = right.time ∧ left.rank ≤ right.rank := by
  simp only [Entry.le, Bool.or_eq_true, Bool.and_eq_true, decide_eq_true_eq, beq_iff_eq]

theorem Entry.time_le {left right : Entry} (hle : Entry.le left right) : left.time ≤ right.time := by
  rw [Entry.le_iff] at hle
  omega

theorem Entry.le_trans (left middle right : Entry) (hleft : Entry.le left middle) (hright : Entry.le middle right) :
    Entry.le left right := by
  rw [Entry.le_iff] at hleft hright ⊢
  omega

theorem Entry.le_total (left right : Entry) : Entry.le left right || Entry.le right left := by
  rw [Bool.or_eq_true, Entry.le_iff, Entry.le_iff]
  omega

theorem pairwise_sorted (entries : List Entry) :
    (entries.mergeSort Entry.le).Pairwise fun left right => Entry.le left right :=
  List.pairwise_mergeSort Entry.le_trans Entry.le_total entries

/-- The message of an entry at its time in ticks. -/
def Entry.placed (entry : Entry) : Nat × Message := (entry.time * ticksPerUnit, entry.message)

theorem timed_deltas {entries : List Entry} {last : Nat} (hlast : ∀ entry ∈ entries, last ≤ entry.time)
    (hsorted : entries.Pairwise fun left right => Entry.le left right) :
    timed (last * ticksPerUnit) (deltas last entries) = entries.map Entry.placed := by
  induction entries generalizing last with
  | nil => rfl
  | cons entry rest ih =>
    rw [List.forall_mem_cons] at hlast
    rw [List.pairwise_cons] at hsorted
    have hnow : last * ticksPerUnit + (entry.time - last) * ticksPerUnit = entry.time * ticksPerUnit := by
      rw [← Nat.add_mul, Nat.add_sub_cancel' hlast.1]
    rw [deltas, timed, hnow, ih (fun later hlater => Entry.time_le (hsorted.1 later hlater)) hsorted.2]
    rfl

/-- The deltas of a track add up to the times of its entries. -/
theorem timed_track (name : String) (entries : List Entry) :
    timed 0 (track name entries) = (0, .trackName name) :: (entries.mergeSort Entry.le).map Entry.placed := by
  have htimed := timed_deltas (fun entry _ => Nat.zero_le entry.time) (pairwise_sorted entries)
  rw [Nat.zero_mul] at htimed
  rw [track, timed, htimed]

/-! ### Messages -/

theorem dataByte_eq_ok {value : Int} {byte : Nat} (hbyte : dataByte value = .ok byte) :
    (byte : Int) = value ∧ byte < 128 := by
  rw [dataByte] at hbyte
  split at hbyte
  · cases hbyte
    omega
  · cases hbyte

def channelOf (event : Event) : Nat := (event.voice % channels).toNat

theorem channelOf_lt (event : Event) : channelOf event < 16 := by
  have hlow := Int.emod_nonneg event.voice (show channels ≠ 0 by decide)
  have hhigh := Int.emod_lt_of_pos event.voice (show 0 < channels by decide)
  have hchannels : channels = 16 := rfl
  rw [channelOf]
  omega

/-- The messages of an event fit into their places. -/
theorem fits_of_entries {event : Event} {found : List Entry} (hfound : entries event = .ok found) {entry : Entry}
    (hentry : entry ∈ found) : entry.message.Fits := by
  have hchannel := channelOf_lt event
  rw [entries] at hfound
  split at hfound
  · obtain ⟨note, hnote, rfl⟩ := Except.map_eq_ok_iff.1 hfound
    have hlow := (dataByte_eq_ok hnote).2
    simp only [List.mem_cons, List.not_mem_nil, or_false] at hentry
    rcases hentry with rfl | rfl <;> exact ⟨hchannel, hlow, by decide⟩
  · cases hfound
    rw [List.mem_singleton] at hentry
    subst hentry
    exact ⟨hchannel, by omega⟩
  · obtain ⟨controller, hcontroller, hfound⟩ := Except.bind_eq_ok_iff.1 hfound
    obtain ⟨value, hvalue, hfound⟩ := Except.bind_eq_ok_iff.1 hfound
    cases hfound
    rw [List.mem_singleton] at hentry
    subst hentry
    exact ⟨hchannel, (dataByte_eq_ok hcontroller).2, (dataByte_eq_ok hvalue).2⟩
  · obtain ⟨length, _, rfl⟩ := Except.map_eq_ok_iff.1 hfound
    rw [List.mem_singleton] at hentry
    subst hentry
    trivial

theorem mem_of_mem_deltas {entries : List Entry} {last : Nat} {step : Nat × Message} (hstep : step ∈ deltas last entries) :
    ∃ entry ∈ entries, step.2 = entry.message := by
  induction entries generalizing last with
  | nil => exact absurd hstep List.not_mem_nil
  | cons entry rest ih =>
    rcases List.mem_cons.1 hstep with rfl | hrest
    · exact ⟨entry, List.mem_cons_self, rfl⟩
    · obtain ⟨other, hother, hmessage⟩ := ih hrest
      exact ⟨other, List.mem_cons_of_mem _ hother, hmessage⟩

theorem fits_track {name : String} {events : List Event} (hname : name.length ≤ longestBlock)
    (hentries : ∀ event ∈ events, ∃ found, entries event = .ok found) :
    ∀ step ∈ track name (events.flatMap entriesOf), step.2.Fits := by
  intro step hstep
  rcases List.mem_cons.1 hstep with rfl | hstep
  · exact hname
  · obtain ⟨entry, hentry, hmessage⟩ := mem_of_mem_deltas hstep
    obtain ⟨event, hevent, hown⟩ := List.mem_flatMap.1 (List.mem_mergeSort.1 hentry)
    rw [hmessage]
    exact fits_of_entries (entries_eq_entriesOf (hentries event hevent)) hown

/-- Every message of an exported file fits into its place. -/
theorem fits_ofEvents {events : List Event} {file : File} (hfile : File.ofEvents events = .ok file) :
    ∀ track ∈ file.tracks, ∀ step ∈ track, step.2.Fits := by
  obtain ⟨hentries, hnames, rfl⟩ := ofEvents_eq_ok_iff.1 hfile
  refine List.forall_mem_cons.2 ⟨?_, List.forall_mem_map.2 fun slot hslot => ?_⟩
  · exact fits_track (by decide) fun event hevent => hentries event (List.mem_of_mem_filter hevent)
  · obtain ⟨name, hname⟩ := hnames slot hslot
    obtain ⟨rfl, hlength⟩ := pairName_eq_ok hname
    exact fits_track hlength fun event hevent => hentries event (mem_eventsIn.1 hevent).1

end Midi

end TurtleMusic
