/-!
# Scale degrees

Where a pitch stands in a major scale. The seven notes of the scale are whole degrees; a chromatic pitch stands half way between its neighbours. Walking one diatonic step keeps pitch and degree in agreement, which is why the half steps of the scale lie between the degrees three and four and between seven and one.
-/

namespace TurtleMusic

/-- A place on the scale: on a degree, or between it and the next one. -/
inductive Degree where
  | on (degree : Int)
  | above (degree : Int)
  deriving DecidableEq, Repr

/-- The half steps of the major scale above its tonic. -/
def majorScale : List Int := [0, 2, 4, 5, 7, 9, 11]

def scaleClasses (tonic : Int) : List Int :=
  majorScale.map fun halfSteps => (tonic + halfSteps) % 12

namespace Degree

/-- The degree counted in halves, so that a place between two degrees has a whole number too. -/
def halves : Degree → Int
  | on degree => 2 * degree
  | above degree => 2 * degree + 1

/-- The degree of a pitch is the number of scale notes up to it within the octave. -/
def ofPitch (pitch tonic : Int) : Degree :=
  let offset := (pitch - tonic) % 12
  let passed := (majorScale.countP (· ≤ offset) : Int)
  if offset ∈ majorScale then on passed else above passed

/-- The degrees go round from seven to one. -/
def wrap (degree : Int) : Degree :=
  if degree > 7 then on 1 else if degree < 1 then on 7 else on degree

/-- One diatonic step from a pitch at a degree. From between two degrees it is a half step onto the neighbour. -/
def step (pitch : Int) : Degree → (up : Bool) → Int × Degree
  | above degree, true => (pitch + 1, wrap (degree + 1))
  | above degree, false => (pitch - 1, wrap degree)
  | on degree, true => (pitch + (if degree = 3 ∨ degree = 7 then 1 else 2), wrap (degree + 1))
  | on degree, false => (pitch - (if degree = 1 ∨ degree = 4 then 1 else 2), wrap (degree - 1))

end Degree

end TurtleMusic
