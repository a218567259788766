import TurtleMusic.Composer.Basic

/-!
# Branches and hues

A branch gets a layer of its own, or a voice once the layers are used up; beyond that it runs on where it is. Closing a branch takes the turtle and the score back to where it was opened. A hue is written as a controller value once for a run of hue characters.
-/

namespace TurtleMusic.Composer

open TurtleMusic.Number

variable {σ W : Type} [Weight W]

/-! ### Branches -/

def openBranch (composer : Composer σ W) : Composer σ W :=
  let score := composer.score
  if score.layers < Score.maxLayers then
    { composer with
      turtle := composer.turtle.openScope
      score := (score.append (.layer score.layers)).setLayers (score.layers + 1)
      branches := .layer :: composer.branches }
  else if score.voices < Score.maxVoices then
    let written := ((score.append (.voice score.voices)).append (.instrument score.instrument)).append (.layer 0)
    { composer with
      turtle := composer.turtle.openScope
      score := (written.setVoices (score.voices + 1)).setLayers 1
      branches := .voice :: composer.branches }
  else { composer with branches := .flat :: composer.branches }

/-- Takes the turtle back to its outer scope and finds the degree that belongs to its pitch there. -/
def closeScope (composer : Composer σ W) : Except Fault (Composer σ W) :=
  composer.turtle.closeScope.map fun closed =>
    { composer with
      turtle := closed.2
      score := { composer.score with
        degree := Degree.ofPitch closed.2.pose.y composer.score.keyClass.toPitch } }

/-- Closes the innermost branch; with none open there is nothing to do. -/
def closeBranch (composer : Composer σ W) : Except Fault (Composer σ W) :=
  match composer.branches with
  | [] => .ok composer
  | .flat :: outer => .ok { composer with branches := outer }
  | .layer :: outer =>
    ({ composer with branches := outer }).closeScope.map fun (composer : Composer σ W) =>
      let score := composer.score.setLayers (composer.score.layers - 1)
      { composer with score := score.append (.layer (score.layers - 1)) }
  | .voice :: outer =>
    ({ composer with branches := outer }).closeScope.map fun (composer : Composer σ W) =>
      let score := (composer.score.setVoices (composer.score.voices - 1)).setLayers Score.maxLayers
      { composer with score := (score.append (.voice (score.voices - 1))).append (.layer (score.layers - 1)) }

/-! ### Hues -/

def isHueSymbol (c : Char) : Bool := c = '#' || c = '@'

/-- Whether another hue character comes next, blanks aside. -/
def hueFollows (rest : List Char) : Bool :=
  match rest.dropWhile Text.isBlank with
  | [] => false
  | c :: _ => isHueSymbol c

/-- The controller value of a hue: nought at the highest, one more for every three below it. -/
def hueValue (hue : Int) : Int := (Hue.highest - hue) / 3

def hueController : Int := 1

/-- Changes the hue, and writes it unless the next character changes it again. -/
def shiftHue (composer : Composer σ W) (times : Int) (rest : List Char) : Composer σ W :=
  let turtle := composer.turtle.shiftHue times
  { composer with
    turtle
    score :=
      if hueFollows rest then composer.score
      else composer.score.append (.control hueController (hueValue turtle.pose.hue)) }

end TurtleMusic.Composer
