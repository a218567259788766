import TurtleMusic.Fault
import TurtleMusic.Midi.File

/-!
# Writing MIDI files

The bytes of a file: a header chunk, then a chunk for each track. Times are numbers of any length in groups of seven bits. A channel message leaves out its status byte if the message before had the same one; a meta message makes the next one write it again.
-/

namespace TurtleMusic.Midi

abbrev Bytes := List UInt8

/-! ### Numbers -/

/-- The leading groups of a number, each marked as having more after it. -/
def leadingGroups (n : Nat) : Bytes :=
  if n = 0 then [] else leadingGroups (n / 128) ++ [UInt8.ofNat (128 + n % 128)]
  termination_by n
  decreasing_by omega

/-- A number of any length, in groups of seven bits. -/
def groups (n : Nat) : Bytes := leadingGroups (n / 128) ++ [UInt8.ofNat (n % 128)]

/-- A number in a fixed count of bytes, highest first. -/
def fixed : (count : Nat) → Nat → Bytes
  | 0, _ => []
  | count + 1, n => fixed count (n / 256) ++ [UInt8.ofNat (n % 256)]

def asciiBytes (text : String) : Bytes := text.toList.map fun c => UInt8.ofNat c.toNat

/-! ### Messages -/

/-- What a message consists of: a meta message, or a channel message with its status byte. -/
inductive Form where
  | metaEvent (kind : UInt8) (content : Bytes)
  | channel (status : UInt8) (content : Bytes)
  deriving DecidableEq, Repr

def Message.form : Message → Form
  | .trackName name => .metaEvent 0x03 (asciiBytes name)
  | .setTempo microseconds => .metaEvent 0x51 (fixed 3 microseconds)
  | .noteOff channel note velocity => .channel (UInt8.ofNat (0x80 + channel)) [UInt8.ofNat note, UInt8.ofNat velocity]
  | .noteOn channel note velocity => .channel (UInt8.ofNat (0x90 + channel)) [UInt8.ofNat note, UInt8.ofNat velocity]
  | .controlChange channel controller value =>
    .channel (UInt8.ofNat (0xb0 + channel)) [UInt8.ofNat controller, UInt8.ofNat value]
  | .programChange channel program => .channel (UInt8.ofNat (0xc0 + channel)) [UInt8.ofNat program]

def Form.bytes (running : Option UInt8) : Form → Bytes
  | .metaEvent kind content => 0xff :: kind :: groups content.length ++ content
  | .channel status content => if running = some status then content else status :: content

/-- The status that the next message may leave out. -/
def Form.status? : Form → Option UInt8
  | .metaEvent _ _ => none
  | .channel status _ => some status

/-! ### Chunks -/

def trackBytes (running : Option UInt8) : Track → Bytes
  | [] => [0x00, 0xff, 0x2f, 0x00]
  | (delta, message) :: rest =>
    groups delta ++ message.form.bytes running ++ trackBytes message.form.status? rest

def chunk (name : String) (content : Bytes) : Bytes :=
  asciiBytes name ++ fixed 4 content.length ++ content

/-- The bytes of a file whose counts fit into the places they are written at. -/
def File.bytes (file : File) : Bytes :=
  chunk "MThd" (fixed 2 File.format ++ fixed 2 file.tracks.length ++ fixed 2 file.ticksPerBeat) ++
    file.tracks.flatMap fun track => chunk "MTrk" (trackBytes none track)

/-- The count of tracks has two bytes, of which half the values can be used. -/
def maxTracks : Nat := 0x7fff

/-- The length of a chunk has four bytes. -/
def maxChunk : Nat := 0xffffffff

/-- The bytes of a file, unless it has too many tracks or a track is too long. -/
def File.encode (file : File) : Except Fault Bytes :=
  if file.tracks.length > maxTracks then .error .tooManyTracks
  else if file.tracks.any fun track => (trackBytes none track).length > maxChunk then .error .trackTooLong
  else .ok file.bytes

end TurtleMusic.Midi
