import TurtleMusic.Fault

/-!
# Hues

Hues move inside the visible range. A hue that leaves the range bounces off the end it crossed, as often as it takes to come back in.
-/

namespace TurtleMusic.Hue

def lowest : Int := 380

def highest : Int := 750

/-- Bounces off the ends of a range until the hue is inside. Each bounce brings it nearer by the width of the range. -/
def bounce (low high : Int) (hwidth : low < high) (hue : Int) : Int :=
  if hue > high then bounce low high hwidth (2 * high - hue)
  else if hue < low then bounce low high hwidth (2 * low - hue)
  else hue
  termination_by (max (hue - high) (low - hue)).toNat
  decreasing_by all_goals omega

/-- The hue reflected into a range; a range of one point holds that point only. -/
def reflect (hue low high : Int) : Except Fault Int :=
  if hwidth : low < high then .ok (bounce low high hwidth hue)
  else if low = high then .ok low
  else .error (.hueBounds low high)

/-- The hue reflected into the visible range. -/
def visible (hue : Int) : Int := bounce lowest highest (by decide) hue

end TurtleMusic.Hue
