import TurtleMusic.Account
import TurtleMusic.Turtle.Hue

/-!
# The turtle

A cursor with a place, a heading, a turning angle, a hue and a line thickness. Scopes are kept as a stack of whole poses, so opening and closing one moves every axis together; the stack is never empty, and only the pose on top changes.
-/

namespace TurtleMusic

/-- The headings that mean something; every other yaw is `oblique`. -/
inductive Direction where
  | forward
  | up
  | backward
  | down
  | oblique
  deriving DecidableEq, Repr

namespace Direction

def ofYaw (yaw : Int) : Direction :=
  if yaw % 360 = 0 then forward
  else if yaw % 360 = 90 then up
  else if yaw % 360 = 180 then backward
  else if yaw % 360 = 270 then down
  else oblique

def isHorizontal (direction : Direction) : Bool := direction = forward || direction = backward

def isVertical (direction : Direction) : Bool := direction = up || direction = down

end Direction

structure Pose where
  x : Int := 0
  y : Int := 0
  z : Int := 0
  yaw : Int := 0
  angle : Int := 90
  hue : Int := Hue.highest
  thickness : Int := 50
  deriving DecidableEq, Repr

def Pose.direction (pose : Pose) : Direction := Direction.ofYaw pose.yaw

/-- The turtle: the pose it starts from, the pose it is in and the poses of the scopes around it, innermost first. -/
structure Turtle where
  hueStep : Int
  initial : Pose
  pose : Pose
  outer : List Pose
  deriving DecidableEq, Repr

namespace Turtle

def make (angle hueStep : Int) (initial : Pose) : Turtle :=
  let initial := { initial with angle := angle }
  ⟨hueStep, initial, initial, []⟩

/-- Closes every scope and goes back to the start, with a new angle if one is given. -/
def reset (turtle : Turtle) (angle : Option Int) : Turtle :=
  make (angle.getD turtle.initial.angle) turtle.hueStep turtle.initial

/-- The number of poses on the stack, one when no scope is open. -/
def depth (turtle : Turtle) : Nat := turtle.outer.length + 1

def direction (turtle : Turtle) : Direction := turtle.pose.direction

/-! ### Setting one axis -/

def setX (turtle : Turtle) (x : Int) : Turtle := { turtle with pose := { turtle.pose with x := x } }

def setY (turtle : Turtle) (y : Int) : Turtle := { turtle with pose := { turtle.pose with y := y } }

def setZ (turtle : Turtle) (z : Int) : Turtle := { turtle with pose := { turtle.pose with z := z } }

/-- Yaws are kept within one turn. -/
def setYaw (turtle : Turtle) (yaw : Int) : Turtle := { turtle with pose := { turtle.pose with yaw := yaw % 360 } }

def setAngle (turtle : Turtle) (angle : Int) : Turtle := { turtle with pose := { turtle.pose with angle := angle } }

/-- Hues are kept visible. -/
def setHue (turtle : Turtle) (hue : Int) : Turtle :=
  { turtle with pose := { turtle.pose with hue := Hue.visible hue } }

def setThickness (turtle : Turtle) (thickness : Int) : Turtle :=
  { turtle with pose := { turtle.pose with thickness := thickness } }

/-! ### Moving -/

/-- Turns by the angle, as often as `times` says and the other way if it is negative. -/
def turn (turtle : Turtle) (times : Int) : Turtle := turtle.setYaw (turtle.pose.yaw + times * turtle.pose.angle)

def shiftHue (turtle : Turtle) (times : Int) : Turtle := turtle.setHue (turtle.pose.hue + times * turtle.hueStep)

/-- Moves along `x`, against it when heading backward. -/
def advance (turtle : Turtle) (amount : Int) : Turtle :=
  turtle.setX (turtle.pose.x + if turtle.direction = .backward then -amount else amount)

/-! ### Scopes -/

def openScope (turtle : Turtle) : Turtle := { turtle with outer := turtle.pose :: turtle.outer }

/-- Closes the innermost scope; the answer is the pose that the turtle had in it. -/
def leaveScope : Act Turtle Pose := do
  let turtle ← get
  match turtle.outer with
  | [] => throw .noOpenScope
  | pose :: outer =>
    set { turtle with pose := pose, outer := outer }
    return turtle.pose

def closeScope (turtle : Turtle) : Except Fault (Pose × Turtle) := leaveScope.result turtle

variable {turtle : Turtle}

theorem closeScope_of_nil (houter : turtle.outer = []) : turtle.closeScope = .error .noOpenScope := by
  rw [closeScope, leaveScope, Act.result_bind, Act.result_get, Except.bind, houter, Act.result_throw]

theorem closeScope_of_cons {pose : Pose} {outer : List Pose} (houter : turtle.outer = pose :: outer) :
    turtle.closeScope = .ok (turtle.pose, { turtle with pose := pose, outer := outer }) := by
  rw [closeScope, leaveScope, Act.result_bind, Act.result_get, Except.bind, houter]
  rfl

end Turtle

end TurtleMusic
