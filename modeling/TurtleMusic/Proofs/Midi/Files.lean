import TurtleMusic.Proofs.Midi.Bytes

/-!
# Files read back

A file is read message by message and track by track, each leaving the bytes behind it to the next. What is kept of a track are the notes it begins, at the times that the deltas before them add up to; of the file, those of all its tracks by time.
-/

namespace TurtleMusic.Midi

/-! ### Messages -/

/-- The status bytes of channel messages: the kind is in the upper half, and it says how many data bytes follow. -/
theorem status_facts : ∀ kind ∈ [0x80, 0x90, 0xb0, 0xc0], ∀ channel : Fin 16,
    0x80 ≤ UInt8.ofNat (kind + channel) ∧ UInt8.ofNat (kind + channel) < 0xf0 ∧
      dataLength? (UInt8.ofNat (kind + channel)) = some (if kind = 0xc0 then 1 else 2) ∧
      UInt8.ofNat (kind + channel) &&& 0xf0 = UInt8.ofNat kind := by
  decide

theorem isChannel_of_kind {kind channel : Nat} (hkind : kind ∈ [0x80, 0x90, 0xb0, 0xc0]) (hchannel : channel < 16)
    {content : List Nat} (hlength : content.length = if kind = 0xc0 then 1 else 2) (hdata : ∀ value ∈ content, value < 128) :
    IsChannel (UInt8.ofNat (kind + channel)) (content.map UInt8.ofNat) := by
  obtain ⟨hleast, hmost, hdataLength, _⟩ := status_facts kind hkind ⟨channel, hchannel⟩
  refine ⟨hleast, hmost, by rw [List.length_map, hlength]; exact hdataLength, ?_, ?_⟩
  · rw [ne_eq, List.map_eq_nil_iff]
    rintro rfl
    rw [List.length_nil] at hlength
    split at hlength <;> cases hlength
  · intro byte hbyte
    obtain ⟨value, hvalue, rfl⟩ := List.mem_map.1 hbyte
    rw [ofNat_lt_iff (Nat.lt_trans (hdata value hvalue) (by decide))]
    exact hdata value hvalue

/-- Of the channel messages only beginnings of notes count, and of those only the ones with a velocity. -/
theorem onset?_of_kind (kind : Nat) (hkind : kind ∈ [0x80, 0x90, 0xb0, 0xc0]) {channel : Nat} (hchannel : channel < 16)
    {first second : Nat} (hfirst : first < 128) (hsecond : second < 128) :
    onset? (UInt8.ofNat (kind + channel)) [UInt8.ofNat first, UInt8.ofNat second] =
      if kind = 0x90 ∧ 0 < second then some first else none := by
  obtain ⟨_, _, _, hhigh⟩ := status_facts kind hkind ⟨channel, hchannel⟩
  have hnote : ∀ kind ∈ [0x80, 0x90, 0xb0, 0xc0], UInt8.ofNat kind = 0x90 ↔ kind = 0x90 := by decide
  have hvelocity : UInt8.ofNat second > 0 ↔ 0 < second := by
    rw [gt_iff_lt, UInt8.lt_iff_toNat_lt, toNat_ofNat (by omega)]
    rfl
  rw [onset?]
  dsimp only at hhigh
  rw [hhigh, toNat_ofNat (by omega)]
  simp only [Bool.and_eq_true, decide_eq_true_eq, hnote kind hkind, hvelocity]

/-- A channel message with two data bytes is read as what it is. -/
theorem readStatus_pair {kind : Nat} (hkind : kind ∈ [0x80, 0x90, 0xb0]) {channel first second : Nat} (hchannel : channel < 16)
    (hfirst : first < 128) (hsecond : second < 128) {written known : Option UInt8}
    (hknown : written = none ∨ written = known) (rest : Bytes) :
    readStatus known
        ((Form.channel (UInt8.ofNat (kind + channel)) [UInt8.ofNat first, UInt8.ofNat second]).bytes written ++ rest) =
      .ok ({ note := if kind = 0x90 ∧ 0 < second then some first else none
             running := some (UInt8.ofNat (kind + channel)), timed := true }, rest) := by
  have hlisted : ∀ kind ∈ [0x80, 0x90, 0xb0], kind ∈ [0x80, 0x90, 0xb0, 0xc0] ∧ kind ≠ 0xc0 := by decide
  obtain ⟨hmem, hlong⟩ := hlisted kind hkind
  have hform : IsChannel (UInt8.ofNat (kind + channel)) ([first, second].map UInt8.ofNat) :=
    isChannel_of_kind hmem hchannel (if_neg hlong).symm (by simp [hfirst, hsecond])
  rw [← onset?_of_kind kind hmem hchannel hfirst hsecond]
  exact readStatus_channel hform hknown rest

/-- A message whose values fit is read as what it is. -/
theorem readStatus_message {message : Message} (hfits : message.Fits) {written known : Option UInt8}
    (hknown : written = none ∨ written = known) (rest : Bytes) :
    readStatus known (message.form.bytes written ++ rest) =
      .ok ({ note := message.onset?, running := message.form.known known, timed := true }, rest) := by
  cases message with
  | trackName name =>
    refine readStatus_meta ⟨?_, rfl, rfl⟩ written known rest
    rw [asciiBytes, List.length_map, String.length_toList]
    exact hfits
  | setTempo microseconds =>
    have hlength := length_fixed 3 microseconds
    refine readStatus_meta ⟨?_, ?_, rfl⟩ written known rest
    · rw [hlength]
      decide
    · change checkLength (fixed 3 microseconds) 3 = .ok ()
      rw [checkLength, hlength, if_neg (by decide)]
  | noteOn channel note velocity =>
    have hread := readStatus_pair (show 0x90 ∈ _ by decide) hfits.1 hfits.2.1 hfits.2.2 hknown rest
    simp only [true_and] at hread
    exact hread
  | noteOff channel note velocity =>
    exact readStatus_pair (show 0x80 ∈ _ by decide) hfits.1 hfits.2.1 hfits.2.2 hknown rest
  | controlChange channel controller value =>
    exact readStatus_pair (show 0xb0 ∈ _ by decide) hfits.1 hfits.2.1 hfits.2.2 hknown rest
  | programChange channel program =>
    obtain ⟨hchannel, hprogram⟩ := hfits
    have hform : IsChannel (UInt8.ofNat (0xc0 + channel)) ([program].map UInt8.ofNat) :=
      isChannel_of_kind (by decide) hchannel rfl (by simp [hprogram])
    exact readStatus_channel hform hknown rest

/-! ### Tracks -/

/-- The messages of a track from the time `now` on, at the times that the deltas add up to. -/
def timed (now : Nat) : Track → List (Nat × Message)
  | [] => []
  | (delta, message) :: rest => (now + delta, message) :: timed (now + delta) rest

/-- The notes that messages begin, at their times. -/
def onsets (messages : List (Nat × Message)) : List Onset :=
  messages.filterMap fun entry => entry.2.onset?.map (entry.1, ·)

theorem onsets_cons (entry : Nat × Message) (messages : List (Nat × Message)) :
    onsets (entry :: messages) = entry.2.onset?.toList.map (entry.1, ·) ++ onsets messages := by
  rw [onsets, onsets, List.filterMap_cons]
  cases entry.2.onset? <;> rfl

/-- A message behind a delta is read up to the next one. -/
theorem readOnsets_step {limit now : Nat} {left : Int} {known : Option UInt8} {delta : Nat} {bytes rest : Bytes}
    {effect : Effect} (hread : readStatus known (bytes ++ rest) = .ok (effect, rest)) (htimed : effect.timed = true)
    (hmore : left ≤ rest.length) :
    readOnsets (limit + 1) left now known (groups delta ++ bytes ++ rest) =
      (readOnsets limit left (now + delta) effect.running rest).map fun read =>
        (effect.note.toList.map (now + delta, ·) ++ read.1, read.2) := by
  have hdelta := List.length_pos_iff.2 (groups_ne_nil delta)
  rw [readOnsets, if_neg (by rw [List.length_append, List.length_append]; omega), List.append_assoc]
  simp only [readGroups_groups, hread, bind, Except.bind, htimed, if_true]
  cases readOnsets limit left (now + delta) effect.running rest <;> rfl

theorem readOnsets_done (limit now : Nat) (known : Option UInt8) (rest : Bytes) :
    readOnsets limit rest.length now known rest = .ok ([], rest) := by
  cases limit <;> rw [readOnsets, if_pos rfl]

/-- The end of a track is a message too. -/
theorem readOnsets_end (limit now : Nat) (known : Option UInt8) (rest : Bytes) :
    readOnsets (limit + 1) rest.length now known ([0x00, 0xff, 0x2f, 0x00] ++ rest) = .ok ([], rest) := by
  have hzero : groups 0 = [0x00] := by rw [groups, leadingGroups, if_pos rfl]; rfl
  have hbytes : ([0x00, 0xff, 0x2f, 0x00] : Bytes) = groups 0 ++ (Form.metaEvent 0x2f []).bytes none := by
    rw [Form.bytes, List.length_nil, hzero]
    rfl
  have hmeta : IsMeta 0x2f [] := ⟨by decide, rfl, rfl⟩
  rw [hbytes, readOnsets_step (readStatus_meta hmeta none known rest) rfl (Int.le_refl _), readOnsets_done]
  rfl

/-- A track is read as the notes it begins, by a reader that knows whatever status the writer leaves out. -/
theorem readOnsets_trackBytes {track : Track} (hfits : ∀ step ∈ track, step.2.Fits) {written known : Option UInt8}
    (hknown : written = none ∨ written = known) {limit : Nat} (hlimit : (trackBytes written track).length ≤ limit)
    (now : Nat) (rest : Bytes) :
    readOnsets limit rest.length now known (trackBytes written track ++ rest) = .ok (onsets (timed now track), rest) := by
  induction track generalizing written known limit now with
  | nil =>
    obtain ⟨less, rfl⟩ := Nat.exists_eq_add_of_le' (Nat.le_trans (by decide : 1 ≤ 4) hlimit)
    exact readOnsets_end less now known rest
  | cons step later ih =>
    obtain ⟨delta, message⟩ := step
    rw [List.forall_mem_cons] at hfits
    have hdelta := List.length_pos_iff.2 (groups_ne_nil delta)
    rw [trackBytes, List.length_append, List.length_append] at hlimit
    obtain ⟨less, rfl⟩ := Nat.exists_eq_add_of_le' (Nat.le_trans (by omega : 1 ≤ _) hlimit)
    have hnext : message.form.status? = none ∨ message.form.status? = message.form.known known := by
      cases message.form with
      | metaEvent => exact .inl rfl
      | channel => exact .inr rfl
    rw [trackBytes, List.append_assoc,
      readOnsets_step (readStatus_message hfits.1 hknown _) rfl (by rw [List.length_append]; omega),
      ih hfits.2 hnext (by omega), timed, onsets_cons]
    rfl

/-! ### Chunks -/

theorem length_chunk_head {name : String} (hname : (asciiBytes name).length = 4) (size : Nat) :
    (asciiBytes name ++ fixed 4 size).length = 8 := by
  rw [List.length_append, hname, length_fixed]

theorem readChunkHead_chunk {name : String} (hname : (asciiBytes name).length = 4) {content : Bytes}
    (hcontent : content.length ≤ maxChunk) (rest : Bytes) :
    readChunkHead (chunk name content ++ rest) = .ok ((asciiBytes name, content.length), content ++ rest) := by
  have hhead := length_chunk_head hname content.length
  have hsize : number (fixed 4 content.length) = content.length :=
    number_fixed_of_lt (Nat.lt_of_le_of_lt hcontent (by decide))
  rw [chunk, List.append_assoc, readChunkHead, if_neg (by rw [List.length_append, hhead]; omega)]
  have hname4 : (asciiBytes name ++ fixed 4 content.length ++ (content ++ rest)).take 4 = asciiBytes name := by
    rw [List.append_assoc, ← hname, List.take_left]
  have hdrop4 : (asciiBytes name ++ fixed 4 content.length ++ (content ++ rest)).drop 4 =
      fixed 4 content.length ++ (content ++ rest) := by
    rw [List.append_assoc, ← hname, List.drop_left]
  have hdrop8 : (asciiBytes name ++ fixed 4 content.length ++ (content ++ rest)).drop 8 = content ++ rest := by
    rw [← hhead, List.drop_left]
  have htake : (fixed 4 content.length ++ (content ++ rest)).take 4 = fixed 4 content.length :=
    List.take_left' (length_fixed _ _)
  rw [hname4, hdrop4, hdrop8, htake, hsize]

theorem readTrack_chunk {track : Track} (hfits : ∀ step ∈ track, step.2.Fits)
    (hlength : (trackBytes none track).length ≤ maxChunk) (rest : Bytes) :
    readTrack (chunk "MTrk" (trackBytes none track) ++ rest) = .ok (onsets (timed 0 track), rest) := by
  have hleft : (((trackBytes none track ++ rest).length : Int) - (trackBytes none track).length) = rest.length := by
    rw [List.length_append]
    omega
  rw [readTrack, readChunkHead_chunk rfl hlength]
  simp only [bind, Except.bind]
  rw [if_neg fun hother => hother rfl, hleft,
    readOnsets_trackBytes hfits (.inl rfl) (by rw [List.length_append]; omega)]

theorem readTracks_chunks {tracks : List Track} (hfits : ∀ track ∈ tracks, ∀ step ∈ track, step.2.Fits)
    (hlength : ∀ track ∈ tracks, (trackBytes none track).length ≤ maxChunk) (rest : Bytes) :
    readTracks tracks.length ((tracks.flatMap fun track => chunk "MTrk" (trackBytes none track)) ++ rest) =
      .ok (tracks.map fun track => onsets (timed 0 track), rest) := by
  induction tracks with
  | nil => rfl
  | cons track later ih =>
    rw [List.forall_mem_cons] at hfits hlength
    rw [List.length_cons, readTracks, List.flatMap_cons, List.append_assoc, readTrack_chunk hfits.1 hlength.1]
    simp only [bind, Except.bind]
    rw [ih hfits.2 hlength.2]
    rfl

/-! ### Files -/

theorem encode_eq_ok {file : File} {bytes : Bytes} (hencode : file.encode = .ok bytes) :
    file.tracks.length ≤ maxTracks ∧ (∀ track ∈ file.tracks, (trackBytes none track).length ≤ maxChunk) ∧
      bytes = file.bytes := by
  rw [File.encode] at hencode
  split at hencode
  · cases hencode
  · next hcount =>
    split at hencode
    · cases hencode
    · next hlong =>
      cases hencode
      exact ⟨Nat.not_lt.1 hcount, by simpa using hlong, rfl⟩

theorem trackCount_fixed {count : Nat} (hcount : count ≤ maxTracks) : trackCount (fixed 2 count) = count := by
  have hnumber : number (fixed 2 count) = count := number_fixed_of_lt (Nat.lt_of_le_of_lt hcount (by decide))
  have hfew : count < 32768 := Nat.lt_succ_of_le hcount
  rw [trackCount, hnumber, if_pos hfew]

/-- The notes read from the bytes of a file are those that its tracks begin, by time, at one time in the order of the tracks. -/
theorem notes_encode {file : File} (hfits : ∀ track ∈ file.tracks, ∀ step ∈ track, step.2.Fits) {bytes : Bytes}
    (hencode : file.encode = .ok bytes) :
    notes bytes = .ok (((file.tracks.flatMap fun track => onsets (timed 0 track)).mergeSort
      fun left right => left.1 ≤ right.1).map (·.2)) := by
  obtain ⟨hcount, hlength, rfl⟩ := encode_eq_ok hencode
  generalize hhead : fixed 2 File.format ++ fixed 2 file.tracks.length ++ fixed 2 file.ticksPerBeat = head
  have hsix : head.length = 6 := by
    rw [← hhead, List.length_append, List.length_append, length_fixed, length_fixed, length_fixed]
  have htracks : (head.drop 2).take 2 = fixed 2 file.tracks.length := by
    rw [← hhead, List.append_assoc, List.drop_left' (length_fixed _ _), List.take_left' (length_fixed _ _)]
  have hread := readTracks_chunks hfits hlength []
  rw [List.append_nil] at hread
  rw [File.bytes, hhead, notes, readChunkHead_chunk rfl (by rw [hsix]; decide)]
  simp only [bind, Except.bind, List.take_left, List.drop_left]
  rw [if_neg fun hother => hother rfl, hsix, if_neg (Nat.lt_irrefl 6), htracks, trackCount_fixed hcount, hread,
    List.flatMap_def]
  rfl

end TurtleMusic.Midi
