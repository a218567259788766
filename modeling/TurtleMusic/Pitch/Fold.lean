import TurtleMusic.Fault

/-!
# Folding pitches into a range

Three ways to bring a pitch into a range that spans an octave. Wrapping sends a pitch that left at one end to the octave at the other end; clamping moves it by the fewest octaves; the nearest pitch of a class is found first and then clamped.
-/

namespace TurtleMusic.Pitch

/-- A range holds every pitch class only if its ends are at least eleven half steps apart. -/
def needsOctave (low high : Int) : Except Fault Unit :=
  if high - low < 11 then .error (.narrowRange low high) else .ok ()

/-- A pitch above the range drops to the lowest octave in it, one below rises to the highest. -/
def wrapInto (low high pitch : Int) : Int :=
  if pitch > high then pitch - 12 * ((pitch - low) / 12)
  else if pitch < low then pitch + 12 * ((high - pitch) / 12)
  else pitch

def wrap (pitch low high : Int) : Except Fault Int :=
  (needsOctave low high).map fun _ => wrapInto low high pitch

/-- Drops by octaves until the pitch is no longer above `high`. -/
def dropTo (high pitch : Int) : Int :=
  if pitch > high then dropTo high (pitch - 12) else pitch
  termination_by (pitch - high).toNat

/-- Rises by octaves until the pitch is no longer below `low`. -/
def riseTo (low pitch : Int) : Int :=
  if pitch < low then riseTo low (pitch + 12) else pitch
  termination_by (low - pitch).toNat

/-- The fewest octaves that bring a pitch into the range. -/
def clampInto (low high pitch : Int) : Int :=
  riseTo low (dropTo high pitch)

def clamp (pitch low high : Int) : Except Fault Int :=
  (needsOctave low high).map fun _ => clampInto low high pitch

/-- The pitch of a class that is nearest to the reference. A tie goes up unless that would pass `high`. -/
def nearestUnbounded (reference pitchClass : Int) (high : Option Int) : Int :=
  let up := (pitchClass - reference) % 12
  let down := (reference - pitchClass) % 12
  if up < down then reference + up
  else if down < up then reference - down
  else if high.any fun high => reference + up > high then reference - down
  else reference + up

/-- The pitch of a class nearest to the reference, then clamped if both bounds are given. -/
def nearest (reference pitchClass : Int) (low high : Option Int) : Except Fault Int :=
  let found := nearestUnbounded reference pitchClass high
  match low, high with
  | some low, some high => clamp found low high
  | _, _ => .ok found

end TurtleMusic.Pitch
