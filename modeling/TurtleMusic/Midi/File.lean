/-!
# MIDI files

The messages that exported files are made of, and tracks of them. Times are the ticks since the message before.
-/

namespace TurtleMusic.Midi

inductive Message where
  | trackName (name : String)
  | setTempo (microseconds : Nat)
  | noteOn (channel note velocity : Nat)
  | noteOff (channel note velocity : Nat)
  | programChange (channel program : Nat)
  | controlChange (channel controller value : Nat)
  deriving DecidableEq, Repr

/-- Messages in order, each with the ticks that pass before it. -/
abbrev Track := List (Nat × Message)

/-- A file of format 1: its tracks are played together. -/
structure File where
  ticksPerBeat : Nat
  tracks : List Track
  deriving DecidableEq, Repr

def File.format : Nat := 1

end TurtleMusic.Midi
