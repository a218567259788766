import TurtleMusic.Fault
import TurtleMusic.Midi.Bytes
import TurtleMusic.Number.Logarithm

/-!
# Reading notes from MIDI files

The notes that begin in a file, in time order. Reading follows the chunks and their messages, of which only the beginnings of notes are kept; everything else has to be well formed all the same. The time of a message counts from the one before, but a meta message of a kind without a meaning is passed over together with its time. A track ends where its chunk does: messages that run over the end of the chunk are read on until the bytes run out.
-/

namespace TurtleMusic.Midi

/-! ### Numbers and blocks -/

def readByte : Bytes → Except Fault (UInt8 × Bytes)
  | [] => .error .midiTooShort
  | byte :: rest => .ok (byte, rest)

/-- A number in groups of seven bits, of which `value` has been read. -/
def readGroups (value : Nat) : Bytes → Except Fault (Nat × Bytes)
  | [] => .error .midiTooShort
  | byte :: rest =>
    if byte < 0x80 then .ok (128 * value + byte.toNat, rest)
    else readGroups (128 * value + byte.toNat % 128) rest

/-- A message that claims to be longer than this is not believed. -/
def longestBlock : Nat := 1000000

def readBlock (length : Nat) (bytes : Bytes) : Except Fault (Bytes × Bytes) :=
  if longestBlock < length then .error .notMidi
  else if bytes.length < length then .error .midiTooShort
  else .ok (bytes.take length, bytes.drop length)

def number (bytes : Bytes) : Nat := bytes.foldl (fun value byte => 256 * value + byte.toNat) 0

def readChunkHead (bytes : Bytes) : Except Fault ((Bytes × Nat) × Bytes) :=
  if bytes.length < 8 then .error .midiTooShort
  else .ok ((bytes.take 4, number ((bytes.drop 4).take 4)), bytes.drop 8)

/-! ### Messages -/

/-- How many data bytes follow a status byte; some status bytes have no meaning. -/
def dataLength? (status : UInt8) : Option Nat :=
  if status < 0x80 then none
  else if status < 0xc0 then some 2
  else if status < 0xe0 then some 1
  else if status < 0xf0 then some 2
  else if status = 0xf1 || status = 0xf3 then some 1
  else if status = 0xf2 then some 2
  else if [0xf6, 0xf8, 0xfa, 0xfb, 0xfc, 0xfe].contains status then some 0
  else none

/-- The kinds of messages that are a status byte and nothing else. -/
def bareKind (status : UInt8) : String :=
  if status = 0xf6 then "tune_request"
  else if status = 0xf8 then "clock"
  else if status = 0xfa then "start"
  else if status = 0xfb then "continue"
  else if status = 0xfc then "stop"
  else "active_sensing"

/-- The note that a message starts. A beginning without velocity is an end. -/
def onset? (status : UInt8) (content : Bytes) : Option Nat :=
  match content with
  | [note, velocity] => if status &&& 0xf0 = 0x90 && velocity > 0 then some note.toNat else none
  | _ => none

def checkLength (content : Bytes) (least : Nat) : Except Fault Unit :=
  if content.length < least then .error .metaTooShort else .ok ()

/-- A part of a meta message, which must be there. -/
def part (content : Bytes) (index : Nat) : Except Fault Nat :=
  match content[index]? with
  | none => .error .metaTooShort
  | some byte => .ok byte.toNat

/-- A part that must not be above a limit. -/
def checkPart (content : Bytes) (index limit : Nat) : Except Fault Unit := do
  if limit < (← part content index) then .error (.attributeRange 0 limit)

/-- A time code: the frame rate and the hour in one byte, then minutes, seconds, frames and hundredths of a frame. Of the eight frame rates that fit, four have a meaning. -/
def checkTimeCode (content : Bytes) : Except Fault Unit := do
  if 0x80 ≤ (← part content 0) then .error .unknownFrameRate
  checkPart content 1 59
  checkPart content 2 59
  checkPart content 3 255
  checkPart content 4 99

/-- A time signature: four parts, of which the second is the exponent of a denominator. The exponent has to come out whole when it is found again from the denominator. -/
def checkTimeSignature (content : Bytes) : Except Fault Unit := do
  if !Number.isExactPower (← part content 1) then .error .denominatorNoPower
  checkLength content 4

/-- A key signature: up to seven sharps or flats, and major or minor. -/
def checkKeySignature (content : Bytes) : Except Fault Unit := do
  let accidentals ← part content 0
  let mode ← part content 1
  if (accidentals ≤ 7 || accidentals ≥ 0xf9) && mode ≤ 1 then return () else .error .unknownKeySignature

/-- Refuses a meta message whose content cannot be used. Parts are judged in order, and what follows the last part does not matter. Kinds that are not listed may hold anything. -/
def checkMeta (kind : UInt8) (content : Bytes) : Except Fault Unit :=
  if kind = 0x00 then checkLength content (if content.isEmpty then 0 else 2)
  else if kind = 0x20 then checkLength content 1
  else if kind = 0x51 then checkLength content 3
  else if kind = 0x54 then checkTimeCode content
  else if kind = 0x58 then checkTimeSignature content
  else if kind = 0x59 then checkKeySignature content
  else .ok ()

def isMetaKind (kind : UInt8) : Bool :=
  kind ≤ 0x07 || [0x09, 0x20, 0x21, 0x2f, 0x51, 0x54, 0x58, 0x59, 0x7f].contains kind

/-- A meta message after its first byte. The answer tells whether its kind has a meaning. -/
def readMeta (bytes : Bytes) : Except Fault (Bool × Bytes) := do
  let (kind, rest) ← readByte bytes
  let (length, rest) ← readGroups 0 rest
  let (content, rest) ← readBlock length rest
  checkMeta kind content
  return (isMetaKind kind, rest)

/-- The content of a system exclusive message without the bytes that may frame it. -/
def unframed (content : Bytes) : Bytes :=
  let content := if content.head? = some 0xf0 then content.tail else content
  if content.getLast? = some 0xf7 then content.dropLast else content

def readExclusive (bytes : Bytes) : Except Fault Bytes := do
  let (length, rest) ← readGroups 0 bytes
  let (content, rest) ← readBlock length rest
  if (unframed content).any (· > 127) then .error .dataByteRange else return rest

/-- A message whose status is known, with the data bytes that were already taken. -/
def readMessage (status : UInt8) (taken : Bytes) (bytes : Bytes) : Except Fault (Option Nat × Bytes) :=
  match dataLength? status with
  | none => .error .notMidi
  | some length =>
    if length < taken.length then .error (.surplusData (bareKind status))
    else do
      let (content, rest) ← readBlock (length - taken.length) bytes
      let content := taken ++ content
      if content.any (· > 127) then .error .notMidi else return (onset? status content, rest)

/-- What is kept of a message: the note it starts, if any, the status that the next message may leave out, and whether its time counts. -/
structure Effect where
  note : Option Nat := none
  running : Option UInt8
  timed : Bool := true

/-- The message with a status byte of its own or that of the last one. -/
def readStatus (running : Option UInt8) (bytes : Bytes) : Except Fault (Effect × Bytes) := do
  let (byte, rest) ← readByte bytes
  if byte < 0x80 then
    match running with
    | none => .error .notMidi
    | some status =>
      if status = 0xf0 || status = 0xf7 then
        return ({ running }, ← readExclusive rest)
      else
        let (note, rest) ← readMessage status [byte] rest
        return ({ note, running }, rest)
  else if byte = 0xff then
    let (timed, rest) ← readMeta rest
    return ({ running, timed }, rest)
  else if byte = 0xf0 || byte = 0xf7 then
    return ({ running := some byte }, ← readExclusive rest)
  else
    let (note, rest) ← readMessage byte [] rest
    return ({ note, running := some byte }, rest)

/-! ### Tracks -/

/-- A note and the time it begins at, in ticks from the beginning. -/
abbrev Onset := Nat × Nat

/-- The onsets of a track from the time `now` on. The track ends when `left` bytes are left; every message takes a byte, so `limit` need not be above the number of bytes. -/
def readOnsets (limit : Nat) (left : Int) (now : Nat) (running : Option UInt8) (bytes : Bytes) :
    Except Fault (List Onset × Bytes) :=
  if (bytes.length : Int) = left then .ok ([], bytes)
  else match limit with
  | 0 => .error .midiTooShort
  | limit + 1 => do
    let (delta, rest) ← readGroups 0 bytes
    let (effect, rest) ← readStatus running rest
    let now := if effect.timed then now + delta else now
    let (onsets, rest) ← readOnsets limit left now effect.running rest
    return (effect.note.toList.map (now, ·) ++ onsets, rest)

def readTrack (bytes : Bytes) : Except Fault (List Onset × Bytes) := do
  let ((name, size), rest) ← readChunkHead bytes
  if name ≠ asciiBytes "MTrk" then .error .notMidi
  else readOnsets rest.length ((rest.length : Int) - size) 0 none rest

def readTracks : (count : Nat) → Bytes → Except Fault (List (List Onset) × Bytes)
  | 0, bytes => .ok ([], bytes)
  | count + 1, bytes => do
    let (track, rest) ← readTrack bytes
    let (tracks, rest) ← readTracks count rest
    return (track :: tracks, rest)

/-- A count of tracks in two bytes, which is negative when its first bit is set. -/
def trackCount (bytes : Bytes) : Nat :=
  if number bytes < 32768 then number bytes else 0

/-- The notes of the file: those of all tracks by time, at one time in the order of the tracks. Bytes after the last track do not matter. -/
def notes (bytes : Bytes) : Except Fault (List Nat) := do
  let ((name, size), rest) ← readChunkHead bytes
  if name ≠ asciiBytes "MThd" then .error .notMidi
  else
    let head := rest.take size
    if head.length < 6 then .error .midiTooShort
    else
      let (tracks, _) ← readTracks (trackCount ((head.drop 2).take 2)) (rest.drop size)
      return (tracks.flatten.mergeSort fun left right => left.1 ≤ right.1).map (·.2)

end TurtleMusic.Midi
