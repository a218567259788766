import TurtleMusic.Proofs.Midi.Tracks

/-!
# How tracks play

A note begins at its start and ends at its stop. The track of a slot holds these two messages for each of its notes and no others that begin or end notes. The notes of a pitch follow one another in the order of the score already, so sorting leaves them as they are and they alternate; where a note stops when the same one starts, the rank of the end puts it first.
-/

namespace TurtleMusic.Midi

/-- The note that the message begins or ends, and whether it begins it. -/
def Message.strikes? : Message → Option (Nat × Bool)
  | .noteOn _ note _ => some (note, true)
  | .noteOff _ note _ => some (note, false)
  | _ => none

/-- The beginning and the end of a note, at their times in 128th notes. -/
def noteEntries (event : Event) : List Entry :=
  match event.kind with
  | .note pitch length =>
    [⟨event.start, 1, .noteOn (channelOf event) pitch.toNat velocity⟩,
      ⟨event.start + length, 0, .noteOff (channelOf event) pitch.toNat 0⟩]
  | _ => []

/-! ### Messages of notes -/

theorem filter_strikes_entries {event : Event} {found : List Entry} (hfound : entries event = .ok found) :
    (found.filter fun entry => entry.message.strikes?.isSome) = noteEntries event := by
  obtain ⟨start, voice, layer, kind⟩ := event
  cases kind with
  | note pitch length =>
    obtain ⟨note, hnote, rfl⟩ := Except.map_eq_ok_iff.1 hfound
    rw [noteEntries, ← (dataByte_eq_ok hnote).1]
    rfl
  | program number =>
    cases hfound
    rfl
  | control controller value =>
    obtain ⟨_, _, hfound⟩ := Except.bind_eq_ok_iff.1 hfound
    obtain ⟨_, _, hfound⟩ := Except.bind_eq_ok_iff.1 hfound
    cases hfound
    rfl
  | tempo beatsPerMinute =>
    obtain ⟨_, _, rfl⟩ := Except.map_eq_ok_iff.1 hfound
    rfl

/-- Of the entries of events, those that begin or end notes are the entries of the notes. -/
theorem filter_strikes_flatMap {events : List Event} (hentries : ∀ event ∈ events, ∃ found, entries event = .ok found) :
    ((events.flatMap entriesOf).filter fun entry => entry.message.strikes?.isSome) = events.flatMap noteEntries := by
  rw [List.filter_flatMap]
  refine List.flatMap_congr fun event hevent => ?_
  exact filter_strikes_entries (entries_eq_entriesOf (hentries event hevent))

theorem pairwise_noteEntries {event : Event} (hlength : event.kind.pitch? ≠ none → 0 < event.kind.length) :
    (noteEntries event).Pairwise fun left right => Entry.le left right := by
  obtain ⟨start, voice, layer, kind⟩ := event
  cases kind with
  | note pitch length =>
    have hpos : 0 < length := hlength (Option.some_ne_none pitch)
    refine List.pairwise_pair.2 ((Entry.le_iff _ _).2 (.inl ?_))
    exact Nat.lt_add_of_pos_right hpos
  | _ => exact List.Pairwise.nil

/-- What is read from the entries of events is read from the entries of the notes, if only messages of notes are read. -/
theorem filterMap_flatMap_entriesOf {β : Type} {read : Entry → Option β} {events : List Event}
    (hentries : ∀ event ∈ events, ∃ found, entries event = .ok found)
    (hread : ∀ entry, entry.message.strikes?.isSome = false → read entry = none) :
    (events.flatMap entriesOf).filterMap read = (events.flatMap noteEntries).filterMap read := by
  rw [← filter_strikes_flatMap hentries, List.filterMap_filter]
  refine List.filterMap_congr fun entry _ => ?_
  split
  · rfl
  · next hother => exact hread entry (Bool.not_eq_true _ ▸ hother)

/-- The entries that are read are in order as they stand, if those of each note are, and those of earlier events precede those of later ones. -/
theorem pairwise_filter_read {β : Type} {read : Entry → Option β} {events : List Event}
    (hentries : ∀ event ∈ events, ∃ found, entries event = .ok found)
    (hread : ∀ entry, entry.message.strikes?.isSome = false → read entry = none)
    (hlength : ∀ event ∈ events, event.kind.pitch? ≠ none → 0 < event.kind.length)
    (hbefore : events.Pairwise fun earlier later => ∀ left ∈ noteEntries earlier, ∀ right ∈ noteEntries later,
      read left ≠ none → read right ≠ none → Entry.le left right) :
    ((events.flatMap entriesOf).filter fun entry => (read entry).isSome).Pairwise fun left right => Entry.le left right := by
  have hkept : ((events.flatMap entriesOf).filter fun entry => (read entry).isSome) =
      events.flatMap fun event => (noteEntries event).filter fun entry => (read entry).isSome := by
    rw [← List.filter_flatMap, ← filter_strikes_flatMap hentries, List.filter_filter]
    refine List.filter_congr fun entry _ => ?_
    cases hstrikes : entry.message.strikes?.isSome with
    | true => rw [Bool.and_true]
    | false => rw [hread entry hstrikes]; rfl
  rw [hkept]
  refine List.pairwise_flatMap.2 ⟨fun event hevent => (pairwise_noteEntries (hlength event hevent)).filter _, ?_⟩
  refine hbefore.imp fun hle left hleft right hright => ?_
  rw [List.mem_filter, Option.isSome_iff_ne_none] at hleft hright
  exact hle left hleft.1 right hright.1 hleft.2 hright.2

/-- Sorting changes nothing about what is read from the entries, if those that are read are in order as they stand. -/
theorem filterMap_sorted {β : Type} {read : Entry → Option β} {events : List Event}
    (hentries : ∀ event ∈ events, ∃ found, entries event = .ok found)
    (hread : ∀ entry, entry.message.strikes?.isSome = false → read entry = none)
    (hlength : ∀ event ∈ events, event.kind.pitch? ≠ none → 0 < event.kind.length)
    (hbefore : events.Pairwise fun earlier later => ∀ left ∈ noteEntries earlier, ∀ right ∈ noteEntries later,
      read left ≠ none → read right ≠ none → Entry.le left right) :
    ((events.flatMap entriesOf).mergeSort Entry.le).filterMap read = (events.flatMap noteEntries).filterMap read := by
  have hinOrder := pairwise_filter_read hentries hread hlength hbefore
  rw [List.filterMap_mergeSort Entry.le_trans Entry.le_total hinOrder, filterMap_flatMap_entriesOf hentries hread]

/-- An entry of a note lies between its start and its stop; the one at the start is ranked last. -/
theorem bounds_of_mem_noteEntries {event : Event} {entry : Entry} (hentry : entry ∈ noteEntries event) :
    ∃ pitch, event.kind.pitch? = some pitch ∧
      (entry.time = event.start ∧ entry.rank = 1 ∧ entry.message.strikes? = some (pitch.toNat, true) ∨
        entry.time = event.stop ∧ entry.rank = 0 ∧ entry.message.strikes? = some (pitch.toNat, false)) := by
  obtain ⟨start, voice, layer, kind⟩ := event
  cases kind with
  | note pitch length =>
    refine ⟨pitch, rfl, ?_⟩
    simp only [noteEntries, List.mem_cons, List.not_mem_nil, or_false] at hentry
    rcases hentry with rfl | rfl
    · exact .inl ⟨rfl, rfl, rfl⟩
    · exact .inr ⟨rfl, rfl, rfl⟩
  | _ => exact absurd hentry List.not_mem_nil

theorem nonneg_of_entries {event : Event} {pitch : Int} (hpitch : event.kind.pitch? = some pitch)
    (hentries : ∃ found, entries event = .ok found) : 0 ≤ pitch ∧ pitch ≤ 127 := by
  obtain ⟨found, hfound⟩ := hentries
  obtain ⟨start, voice, layer, kind⟩ := event
  cases kind with
  | note own length =>
    cases hpitch
    obtain ⟨note, hnote, _⟩ := Except.map_eq_ok_iff.1 hfound
    have hbyte := dataByte_eq_ok hnote
    omega
  | _ => cases hpitch

/-! ### Alternation -/

/-- Beginnings and ends take turns, from a beginning to an end. -/
def Alternates : List Bool → Prop
  | [] => True
  | true :: false :: rest => Alternates rest
  | _ => False

/-- Whether a message begins or ends a certain note. -/
def Message.strike? (note : Nat) (message : Message) : Option Bool :=
  message.strikes?.bind fun struck => if struck.1 = note then some struck.2 else none

theorem Message.strike?_eq_some {note : Nat} {message : Message} {begins : Bool} :
    message.strike? note = some begins ↔ message.strikes? = some (note, begins) := by
  rw [strike?, Option.bind_eq_some_iff]
  constructor
  · rintro ⟨⟨own, _⟩, hstruck, hbegins⟩
    split at hbegins
    · next hown =>
      cases hbegins
      cases hown
      exact hstruck
    · cases hbegins
  · intro hstruck
    exact ⟨_, hstruck, if_pos rfl⟩

theorem alternates_noteEntries (note : Nat) (events : List Event) :
    Alternates ((events.flatMap noteEntries).filterMap fun entry => entry.message.strike? note) := by
  induction events with
  | nil => trivial
  | cons event rest ih =>
    obtain ⟨start, voice, layer, kind⟩ := event
    rw [List.flatMap_cons, List.filterMap_append]
    cases kind with
    | note pitch length =>
      by_cases hpitch : pitch.toNat = note
      · simpa [noteEntries, Message.strike?, Message.strikes?, hpitch, Alternates] using ih
      · simpa [noteEntries, Message.strike?, Message.strikes?, hpitch] using ih
    | _ => exact ih

theorem strike?_eq_none {note : Nat} {message : Message} (hother : message.strikes?.isSome = false) :
    message.strike? note = none := by
  rw [Option.isSome_eq_false_iff, Option.isNone_iff_eq_none] at hother
  rw [Message.strike?, hother]
  rfl

/-- The entries of one note, told by its pitch. -/
theorem bounds_of_strike {note : Nat} {event : Event} (hentries : ∃ found, entries event = .ok found) {entry : Entry}
    (hentry : entry ∈ noteEntries event) (hstrike : entry.message.strike? note ≠ none) :
    event.kind.pitch? = some (note : Int) ∧
      (entry.time = event.start ∧ entry.rank = 1 ∨ entry.time = event.stop ∧ entry.rank = 0) := by
  obtain ⟨begins, hbegins⟩ := Option.ne_none_iff_exists'.1 hstrike
  rw [Message.strike?_eq_some] at hbegins
  obtain ⟨pitch, hpitch, hat⟩ := bounds_of_mem_noteEntries hentry
  have hlow := (nonneg_of_entries hpitch hentries).1
  have hnote : pitch.toNat = note := by
    rcases hat with ⟨_, _, hown⟩ | ⟨_, _, hown⟩ <;>
    · rw [hbegins] at hown
      exact (congrArg Prod.fst (Option.some.inj hown)).symm
  rw [hpitch, show pitch = note by omega]
  exact ⟨rfl, hat.imp (fun h => ⟨h.1, h.2.1⟩) fun h => ⟨h.1, h.2.1⟩⟩

/-- Sorted entries let each note alternate, if none of its events stops later than the next one starts. -/
theorem alternates_sorted {events : List Event} (hentries : ∀ event ∈ events, ∃ found, entries event = .ok found)
    (hlength : ∀ event ∈ events, event.kind.pitch? ≠ none → 0 < event.kind.length)
    (hstop : events.Pairwise fun earlier later =>
      earlier.kind.pitch? = later.kind.pitch? → earlier.kind.pitch? ≠ none → earlier.stop ≤ later.start) (note : Nat) :
    Alternates (((events.flatMap entriesOf).mergeSort Entry.le).filterMap fun entry => entry.message.strike? note) := by
  rw [filterMap_sorted hentries (fun entry => strike?_eq_none) hlength]
  · exact alternates_noteEntries note events
  · refine hstop.imp_of_mem ?_
    intro earlier later hearlier hlater hafter left hleft right hright hleftStrike hrightStrike
    obtain ⟨hpitch, hleftAt⟩ := bounds_of_strike (hentries earlier hearlier) hleft hleftStrike
    obtain ⟨hpitch', hrightAt⟩ := bounds_of_strike (hentries later hlater) hright hrightStrike
    have hsome : earlier.kind.pitch? ≠ none := by
      rw [hpitch]
      exact Option.some_ne_none _
    have hgap := hafter (hpitch.trans hpitch'.symm) hsome
    have hpos := hlength earlier hearlier hsome
    rw [Entry.le_iff]
    simp only [Event.stop] at hleftAt hrightAt hgap
    omega

/-! ### Tracks -/

/-- The messages that let an event sound, at their ticks; only notes sound. -/
def soundsOf (event : Event) : List (Nat × Message) :=
  match event.kind with
  | .note pitch length =>
    [(ticksPerUnit * event.start, .noteOn (event.voice % channels).toNat pitch.toNat velocity),
      (ticksPerUnit * (event.start + length), .noteOff (event.voice % channels).toNat pitch.toNat 0)]
  | _ => []

/-- The deltas that entries ask for as differences of their times, which nothing keeps from being negative. -/
def differences (last : Int) : List Entry → List (Int × Message)
  | [] => []
  | entry :: rest => ((entry.time - last) * ticksPerUnit, entry.message) :: differences entry.time rest

theorem map_placed_noteEntries (event : Event) : (noteEntries event).map Entry.placed = soundsOf event := by
  obtain ⟨start, voice, layer, kind⟩ := event
  cases kind with
  | note pitch length => simp [noteEntries, soundsOf, Entry.placed, channelOf, Nat.mul_comm]
  | _ => rfl

theorem deltas_eq_differences {entries : List Entry} {last : Nat} (hlast : ∀ entry ∈ entries, last ≤ entry.time)
    (hsorted : entries.Pairwise fun left right => Entry.le left right) :
    (deltas last entries).map (fun step => ((step.1 : Int), step.2)) = differences last entries := by
  induction entries generalizing last with
  | nil => rfl
  | cons entry rest ih =>
    rw [List.forall_mem_cons] at hlast
    rw [List.pairwise_cons] at hsorted
    have hrest := ih (fun later hlater => Entry.time_le (hsorted.1 later hlater)) hsorted.2
    rw [deltas, List.map_cons, hrest, differences, Int.natCast_mul, Int.natCast_sub hlast.1]

/-- The track plays the notes that the events of tokens have in a slot. -/
structure Plays (tokens : List Token) (slot : Slot) (track : Track) : Prop where
  /-- The deltas are the differences between the times of the slot's entries in some order, and none is negative. -/
  deltas : ∃ ordered : List Entry, ordered.Perm (slotEntries (Event.ofTokens tokens) slot) ∧
    (track.map fun step => ((step.1 : Int), step.2)) = (0, .trackName (slotName slot)) :: differences 0 ordered ∧
      ∀ step ∈ differences 0 ordered, 0 ≤ step.1
  /-- Each note has its two messages, at its start and at its stop. -/
  sounds : ((timed 0 track).filter fun message => message.2.strikes?.isSome).Perm
    ((eventsIn (Event.ofTokens tokens) slot).flatMap soundsOf)
  /-- A note stops after it starts, and its pitch is the note of its messages. -/
  lasting : ∀ event ∈ eventsIn (Event.ofTokens tokens) slot, ∀ pitch length, event.kind = .note pitch length →
    0 < length ∧ (pitch.toNat : Int) = pitch ∧ pitch ≤ 127
  /-- At one time, ends come before beginnings. -/
  endsFirst : (timed 0 track).Pairwise fun earlier later => earlier.1 = later.1 →
    ∀ begun ended, earlier.2.strikes? = some (begun, true) → later.2.strikes? ≠ some (ended, false)
  /-- If no token names a pitch twice, no note is begun again or ended before its time. -/
  alternates : (∀ token ∈ tokens, token.pitches.Nodup) → ∀ note,
    Alternates ((timed 0 track).filterMap fun message => message.2.strike? note)

theorem rank_of_strikes {events : List Event} (hentries : ∀ event ∈ events, ∃ found, entries event = .ok found)
    {entry : Entry} (hentry : entry ∈ events.flatMap entriesOf) {note : Nat} {begins : Bool}
    (hstrikes : entry.message.strikes? = some (note, begins)) : entry.rank = if begins then 1 else 0 := by
  have hnote : entry ∈ events.flatMap noteEntries := by
    rw [← filter_strikes_flatMap hentries, List.mem_filter]
    exact ⟨hentry, by rw [hstrikes]; rfl⟩
  obtain ⟨event, _, hown⟩ := List.mem_flatMap.1 hnote
  obtain ⟨_, _, ⟨_, hrank, hmessage⟩ | ⟨_, hrank, hmessage⟩⟩ := bounds_of_mem_noteEntries hown
  all_goals
    rw [hstrikes, Option.some.injEq, Prod.mk.injEq] at hmessage
    rw [hrank, hmessage.2]
    rfl

/-- However the entries of events are ordered, the messages among them that sound are those of the notes. -/
theorem sounds_of_perm {events : List Event} (hentries : ∀ event ∈ events, ∃ found, entries event = .ok found)
    {ordered : List Entry} (hperm : ordered.Perm (events.flatMap entriesOf)) :
    ((ordered.map Entry.placed).filter fun message => message.2.strikes?.isSome).Perm (events.flatMap soundsOf) := by
  have hsounds : events.flatMap soundsOf = (events.flatMap noteEntries).map Entry.placed := by
    rw [List.map_flatMap]
    exact List.flatMap_congr fun event _ => (map_placed_noteEntries event).symm
  rw [hsounds, ← filter_strikes_flatMap hentries, List.filter_map]
  exact (hperm.filter _).map _

theorem endsFirst_of_sorted {events : List Event} (hentries : ∀ event ∈ events, ∃ found, entries event = .ok found)
    {ordered : List Entry} (hperm : ordered.Perm (events.flatMap entriesOf))
    (hsorted : ordered.Pairwise fun left right => Entry.le left right) :
    (ordered.map Entry.placed).Pairwise fun earlier later => earlier.1 = later.1 →
      ∀ begun ended, earlier.2.strikes? = some (begun, true) → later.2.strikes? ≠ some (ended, false) := by
  refine List.pairwise_map.2 (hsorted.imp_of_mem ?_)
  intro earlier later hearlier hlater hle htime begun ended hbegun hended
  have hfirst := rank_of_strikes hentries (hperm.mem_iff.1 hearlier) hbegun
  have hsecond := rank_of_strikes hentries (hperm.mem_iff.1 hlater) hended
  have hsame : earlier.time = later.time := Nat.eq_of_mul_eq_mul_right (by decide) htime
  rw [Entry.le_iff, hfirst, hsecond, hsame] at hle
  simp at hle

theorem plays_slotTrack {texts : List (List Char)} {tokens : List Token} (htokens : texts.mapM Token.read = .ok tokens)
    (hentries : ∀ event ∈ Event.ofTokens tokens, ∃ found, entries event = .ok found) (slot : Slot) :
    Plays tokens slot (slotTrack (Event.ofTokens tokens) slot) := by
  have hevents : ∀ event ∈ eventsIn (Event.ofTokens tokens) slot, ∃ found, entries event = .ok found :=
    fun event hevent => hentries event (mem_eventsIn.1 hevent).1
  have hlength : ∀ event ∈ eventsIn (Event.ofTokens tokens) slot, event.kind.pitch? ≠ none → 0 < event.kind.length :=
    fun event hevent => Event.length_pos_of_mapM_read htokens (mem_eventsIn.1 hevent).1
  have hslots : ∀ event ∈ eventsIn (Event.ofTokens tokens) slot, event.slot = slot :=
    fun event hevent => (mem_eventsIn.1 hevent).2.2
  generalize hordered : (slotEntries (Event.ofTokens tokens) slot).mergeSort Entry.le = ordered
  have hperm : ordered.Perm (slotEntries (Event.ofTokens tokens) slot) := hordered ▸ List.mergeSort_perm _ _
  have hsorted : ordered.Pairwise fun left right => Entry.le left right := hordered ▸ pairwise_sorted _
  have htimed : timed 0 (slotTrack (Event.ofTokens tokens) slot) =
      (0, .trackName (slotName slot)) :: ordered.map Entry.placed := by
    rw [slotTrack, timed_track, hordered]
  have hdeltas : (deltas 0 ordered).map (fun step => ((step.1 : Int), step.2)) = differences 0 ordered :=
    deltas_eq_differences (fun _ _ => Nat.zero_le _) hsorted
  refine ⟨⟨ordered, hperm, ?_, ?_⟩, ?_, ?_, ?_, ?_⟩
  · rw [slotTrack, track, List.map_cons, hordered, hdeltas]
    rfl
  · rw [← hdeltas]
    exact List.forall_mem_map.2 fun step _ => Int.natCast_nonneg _
  · rw [htimed, List.filter_cons_of_neg (by simp [Message.strikes?])]
    exact sounds_of_perm hevents hperm
  · intro event hevent pitch length hkind
    have hpitch : event.kind.pitch? = some pitch := by rw [hkind]; rfl
    have hbounds := nonneg_of_entries hpitch (hevents event hevent)
    have hpos := hlength event hevent (by rw [hpitch]; exact Option.some_ne_none pitch)
    rw [hkind] at hpos
    exact ⟨hpos, Int.toNat_of_nonneg hbounds.1, hbounds.2⟩
  · rw [htimed, List.pairwise_cons]
    exact ⟨fun _ _ _ _ _ hname => absurd hname (by simp [Message.strikes?]), endsFirst_of_sorted hevents hperm hsorted⟩
  · intro hdistinct note
    have hstop := (Event.pairwise_stop_ofTokens hdistinct).filter fun event => !event.isTempo && decide (event.slot = slot)
    have halternates := alternates_sorted hevents hlength (hstop.imp_of_mem fun hearlier hlater hafter =>
      hafter ((hslots _ hearlier).trans (hslots _ hlater).symm)) note
    rw [← slotEntries, hordered] at halternates
    rw [htimed, List.filterMap_cons_none (by simp [Message.strike?, Message.strikes?]), List.filterMap_map]
    exact halternates

/-- The tracks of an exported file behind that of the tempo are those of the slots in use, and each plays the notes of its slot. -/
theorem tracks_play_slots {sheet : Sheet} {file : File} (hfile : sheet.events?.bind File.ofEvents = .ok file) :
    ∃ tokens tempo slots tracks, sheet.texts.mapM Token.read = .ok tokens ∧ file.tracks = tempo :: tracks ∧
      slots.Pairwise Slot.Before ∧
        (∀ slot, slot ∈ slots ↔ ∃ event ∈ Event.ofTokens tokens, event.isTempo = false ∧ event.slot = slot) ∧
          List.Forall₂ (Plays tokens) slots tracks := by
  obtain ⟨events, hevents, hmade⟩ := Except.bind_eq_ok_iff.1 hfile
  obtain ⟨tokens, htokens, rfl⟩ := Except.map_eq_ok_iff.1 hevents
  obtain ⟨hentries, _, rfl⟩ := ofEvents_eq_ok_iff.1 hmade
  refine ⟨tokens, _, slotsOf (Event.ofTokens tokens), _, htokens, rfl, pairwise_slotsOf _, fun slot => mem_slotsOf, ?_⟩
  exact List.forall₂_map_right_iff.2 (List.forall₂_same.2 fun slot _ => plays_slotTrack htokens hentries slot)

/-- A harmony of mixed lengths whose longer note is struck again when it stops, and a second layer with the same note. -/
def restruck : Sheet :=
  .ofTokens [['T', '9', '6'], ['V', '1', '7'], ['I', '8', '0'], ['[', '6', '0', ']', 'i', '+', '[', '6', '4', ']', 'q'],
    ['[', '6', '4', ']', 'i'], ['L', '1'], ['R', 'i'], ['[', '6', '4', ']', 'q'], ['X', '1', '=', '9']]

def restruckTokens : List Token :=
  [.tempo 96, .voice 17, .instrument 80, .notes ⟨60, [.i]⟩ [⟨64, [.q]⟩], .notes ⟨64, [.i]⟩ [], .layer 1, .pause [.i],
    .notes ⟨64, [.q]⟩ [], .control 1 9]

theorem tracks_play_slots_restruck :
    ∃ file, restruck.events?.bind File.ofEvents = .ok file ∧ (∀ token ∈ restruckTokens, token.pitches.Nodup) ∧
      ∃ tempo slots tracks, file.tracks = tempo :: tracks ∧ slots.Pairwise Slot.Before ∧
        (∀ slot, slot ∈ slots ↔ ∃ event ∈ Event.ofTokens restruckTokens, event.isTempo = false ∧ event.slot = slot) ∧
          List.Forall₂ (Plays restruckTokens) slots tracks := by
  have hread : restruck.texts.mapM Token.read = .ok restruckTokens := by decide
  have hevents : restruck.events? = .ok (Event.ofTokens restruckTokens) := by
    rw [Sheet.events?, Event.ofTexts, hread]
    rfl
  have hentries : ∀ event ∈ Event.ofTokens restruckTokens, entries event = .ok (entriesOf event) := by decide
  have hnames : ∀ event ∈ Event.ofTokens restruckTokens, pairName event.slot = .ok (slotName event.slot) := by decide
  obtain ⟨file, hmade⟩ := ofEvents_isOk (fun event hevent => ⟨_, hentries event hevent⟩) fun event hevent => ⟨_, hnames event hevent⟩
  have hfile : restruck.events?.bind File.ofEvents = .ok file := by
    rw [hevents]
    exact hmade
  obtain ⟨tokens, tempo, slots, tracks, htokens, hrest⟩ := tracks_play_slots hfile
  obtain rfl : restruckTokens = tokens := Except.ok.inj (hread.symm.trans htokens)
  exact ⟨file, hfile, by decide, tempo, slots, tracks, hrest⟩

end TurtleMusic.Midi
