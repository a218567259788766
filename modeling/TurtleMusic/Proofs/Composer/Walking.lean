import TurtleMusic.Proofs.Composer.Setting
import TurtleMusic.Proofs.Grammar.Nesting

/-!
# Walking over a production

With the handlers a composer is made with, a character comes to one of seven acts, the heading of the turtle considered. A pass is followed up to any place of its production; what comes behind the place still counts, since hue characters look ahead.
-/

namespace TurtleMusic.Composer

open TurtleMusic.Number TurtleMusic.Chance TurtleMusic.Grammar

variable {σ W : Type} [Weight W]

/-- What a character comes to. -/
inductive Act where
  | idle
  | turn (times : Int)
  | stroke (sounding : Bool)
  | stepPitch (up : Bool)
  | openBranch
  | closeBranch
  | shiftHue (times : Int)
  deriving DecidableEq

/-- A stroke goes along the time axis, along the pitch axis, or nowhere. -/
def strokeAct (composer : Composer σ W) (sounding : Bool) : Act :=
  if composer.turtle.direction.isHorizontal then .stroke sounding
  else if composer.turtle.direction.isVertical then .stepPitch (composer.turtle.direction = .up)
  else .idle

def actOf (composer : Composer σ W) : Handler → Act
  | .turn times => .turn times
  | .draw => composer.strokeAct true
  | .move => composer.strokeAct false
  | .rest => if composer.turtle.direction.isHorizontal then .stroke false else .idle
  | .openBranch => .openBranch
  | .closeBranch => .closeBranch
  | .shiftHue times => .shiftHue times
  | _ => .idle

def act (composer : Composer σ W) (symbol : Char) : Act :=
  match defaultHandlers.lookup symbol with
  | none => .idle
  | some handler => composer.actOf handler

def carryOut [Source σ W] (composer : Composer σ W) (rest : List Char) : Act → Except Fault (Composer σ W)
  | .idle => .ok composer
  | .turn times => .ok { composer with turtle := composer.turtle.turn times }
  | .stroke sounding => composer.horizontalStroke sounding
  | .stepPitch up => composer.stepPitch up
  | .openBranch => .ok composer.openBranch
  | .closeBranch => composer.closeBranch
  | .shiftHue times => .ok (composer.shiftHue times rest)

/-- Which characters can come to which acts. -/
inductive ComesTo (symbol : Char) : Act → Prop
  | idle : ComesTo symbol .idle
  | turn (times : Int) (hturn : symbol = '+' ∨ symbol = '-') : ComesTo symbol (.turn times)
  | draw (hdraw : symbol = 'g') : ComesTo symbol (.stroke true)
  | move : ComesTo symbol (.stroke false)
  | stepPitch (up : Bool) : ComesTo symbol (.stepPitch up)
  | openBranch (hopen : symbol = '[') : ComesTo symbol .openBranch
  | closeBranch (hclose : symbol = ']') : ComesTo symbol .closeBranch
  | shiftHue (times : Int) (hhue : isHueSymbol symbol = true) : ComesTo symbol (.shiftHue times)

omit [Weight W] in
theorem strokeAct_comesTo (composer : Composer σ W) {symbol : Char} {sounding : Bool} (hdraw : sounding = true → symbol = 'g') :
    ComesTo symbol (composer.strokeAct sounding) := by
  rw [strokeAct]
  split
  · cases sounding with
    | true => exact ComesTo.draw (hdraw rfl)
    | false => exact ComesTo.move
  · split
    · exact ComesTo.stepPitch _
    · exact ComesTo.idle

theorem mem_of_lookup {symbol : Char} {handler : Handler} (hlookup : defaultHandlers.lookup symbol = some handler) :
    (symbol, handler) ∈ defaultHandlers := by
  obtain ⟨before, behind, hentries, _⟩ := List.lookup_eq_some_iff.1 hlookup
  exact hentries ▸ List.mem_append_right _ List.mem_cons_self

omit [Weight W] in
theorem act_comesTo (composer : Composer σ W) (symbol : Char) : ComesTo symbol (composer.act symbol) := by
  rw [act]
  split
  · exact ComesTo.idle
  · next handler hlookup =>
    have hmem := mem_of_lookup hlookup
    cases handler with
    | turn times =>
      have hentry : symbol = '-' ∧ times = 1 ∨ symbol = '+' ∧ times = -1 := by simpa [defaultHandlers] using hmem
      exact ComesTo.turn times (hentry.symm.imp And.left And.left)
    | draw =>
      apply strokeAct_comesTo
      simpa [defaultHandlers] using hmem
    | move => exact composer.strokeAct_comesTo (by simp)
    | rest =>
      rw [actOf]
      split
      · exact ComesTo.move
      · exact ComesTo.idle
    | openBranch => exact ComesTo.openBranch (by simpa [defaultHandlers] using hmem)
    | closeBranch => exact ComesTo.closeBranch (by simpa [defaultHandlers] using hmem)
    | shiftHue times =>
      have hentry : symbol = '#' ∧ times = 1 ∨ symbol = '@' ∧ times = -1 := by simpa [defaultHandlers] using hmem
      apply ComesTo.shiftHue
      rcases hentry with ⟨rfl, _⟩ | ⟨rfl, _⟩ <;> rfl
    | write | writeIndex | thicken | setHeight | setKey => exact ComesTo.idle

omit [Weight W] in
/-- Only brackets open and close branches. -/
theorem act_plain (composer : Composer σ W) {symbol : Char} (hopen : symbol ≠ '[') (hclose : symbol ≠ ']') :
    composer.act symbol ≠ .openBranch ∧ composer.act symbol ≠ .closeBranch := by
  have hcomes := composer.act_comesTo symbol
  generalize composer.act symbol = act at hcomes
  cases hcomes with
  | openBranch hsymbol => exact absurd hsymbol hopen
  | closeBranch hsymbol => exact absurd hsymbol hclose
  | _ => simp

variable [Source σ W]

theorem stroke_eq_carryOut (composer : Composer σ W) (rest : List Char) (sounding : Bool) :
    composer.stroke sounding = composer.carryOut rest (composer.strokeAct sounding) := by
  rw [stroke, strokeAct]
  split
  · rfl
  · split <;> rfl

theorem pause_eq_carryOut (composer : Composer σ W) (rest : List Char) :
    composer.pause = composer.carryOut rest (composer.actOf .rest) := by
  rw [pause, actOf]
  split <;> rfl

/-- With the handlers it is made with, a composer carries out the act that a character comes to. -/
theorem step_eq_carryOut {composer : Composer σ W} (hhandlers : composer.handlers = defaultHandlers) (index : Nat)
    (symbol : Char) (rest : List Char) :
    composer.step index symbol rest = (composer.carryOut rest (composer.act symbol)).map (·, []) := by
  rw [step, handler?, hhandlers, act]
  cases hlookup : defaultHandlers.lookup symbol with
  | none => rfl
  | some handler =>
    have hmem := mem_of_lookup hlookup
    cases handler with
    | draw => exact congrArg (Except.map (·, [])) (stroke_eq_carryOut composer rest true)
    | move => exact congrArg (Except.map (·, [])) (stroke_eq_carryOut composer rest false)
    | rest => exact congrArg (Except.map (·, [])) (pause_eq_carryOut composer rest)
    | turn | openBranch | closeBranch | shiftHue => rfl
    | write | writeIndex | thicken | setHeight | setKey => simp [defaultHandlers] at hmem

theorem step_ok {composer after : Composer σ W} (hhandlers : composer.handlers = defaultHandlers) {index : Nat}
    {symbol : Char} {rest : List Char} {reports : List Report}
    (hstep : composer.step index symbol rest = .ok (after, reports)) :
    composer.carryOut rest (composer.act symbol) = .ok after := by
  rw [step_eq_carryOut hhandlers] at hstep
  obtain ⟨carried, hcarried, hresult⟩ := Except.map_eq_ok_iff.1 hstep
  cases hresult
  exact hcarried

/-! ### What an act comes to -/

/-- What an act makes of a composer and of the number of open brackets. -/
inductive Stepped (composer : Composer σ W) (behind : List Char) :
    (act : Act) → (depth outcome : Nat) → (after : Composer σ W) → Prop
  | idle (depth : Nat) : Stepped composer behind .idle depth depth composer
  | turn (times : Int) (depth : Nat) :
      Stepped composer behind (.turn times) depth depth { composer with turtle := composer.turtle.turn times }
  | stroke {sounding : Bool} {after : Composer σ W} (depth : Nat) (hstroke : composer.horizontalStroke sounding = .ok after) :
      Stepped composer behind (.stroke sounding) depth depth after
  | stepPitch {up : Bool} {after : Composer σ W} (depth : Nat) (hstep : composer.stepPitch up = .ok after) :
      Stepped composer behind (.stepPitch up) depth depth after
  | openBranch (depth : Nat) : Stepped composer behind .openBranch depth (depth + 1) composer.openBranch
  | closeBranch {after : Composer σ W} (depth : Nat) (hclose : composer.closeBranch = .ok after) :
      Stepped composer behind .closeBranch (depth + 1) depth after
  | shiftHue (times : Int) (depth : Nat) :
      Stepped composer behind (.shiftHue times) depth depth (composer.shiftHue times behind)

/-- In a text that closes the open brackets, a closing one finds one open. -/
theorem stepped_of_carryOut {composer after : Composer σ W} {depth : Nat} {symbol : Char} {rest behind : List Char}
    (hclosing : Closing depth (symbol :: rest)) (hcarry : composer.carryOut behind (composer.act symbol) = .ok after) :
    Stepped composer behind (composer.act symbol) depth (depthAfter depth symbol) after := by
  by_cases hopen : symbol = '['
  · subst hopen
    cases hcarry
    exact Stepped.openBranch depth
  by_cases hclose : symbol = ']'
  · subst hclose
    obtain ⟨outer, rfl, _⟩ := (closing_close_iff _ _).1 hclosing
    exact Stepped.closeBranch outer hcarry
  rw [depthAfter_plain hopen hclose]
  obtain ⟨hnotOpen, hnotClose⟩ := composer.act_plain hopen hclose
  generalize composer.act symbol = act at hcarry hnotOpen hnotClose
  cases act with
  | idle =>
    cases hcarry
    exact Stepped.idle depth
  | turn times =>
    cases hcarry
    exact Stepped.turn times depth
  | stroke sounding => exact Stepped.stroke depth hcarry
  | stepPitch up => exact Stepped.stepPitch depth hcarry
  | openBranch => exact absurd rfl hnotOpen
  | closeBranch => exact absurd rfl hnotClose
  | shiftHue times =>
    cases hcarry
    exact Stepped.shiftHue times depth

theorem Stepped.sameSetting {composer after : Composer σ W} {behind : List Char} {act : Act} {depth outcome : Nat}
    (hstepped : Stepped composer behind act depth outcome after) : SameSetting composer after := by
  cases hstepped with
  | idle | turn => exact ⟨rfl, rfl, rfl, rfl, rfl, fun _ => rfl, rfl, rfl, rfl⟩
  | stroke _ hstroke => exact horizontalStroke_sameSetting hstroke
  | stepPitch _ hstep =>
    obtain ⟨pitch, _, rfl⟩ := stepPitch_ok hstep
    exact ⟨rfl, rfl, rfl, rfl, rfl, fun _ => rfl, rfl, rfl, rfl⟩
  | openBranch => exact openBranch_sameSetting composer
  | closeBranch _ hclose => exact closeBranch_sameSetting hclose
  | shiftHue times => exact shiftHue_sameSetting composer times behind

/-! ### Up to a place -/

/-- The composer after some characters of a production, with what comes behind them. -/
def walkOver (behind : List Char) (composer : Composer σ W) (index : Nat) : List Char → Except Fault (Composer σ W)
  | [] => .ok composer
  | symbol :: rest => (composer.step index symbol (rest ++ behind)).bind fun stepped =>
      walkOver behind stepped.1 (index + 1) rest

/-- The composer when a pass has come to a place between two parts of its production. -/
def passTo (composer : Composer σ W) (before behind : List Char) : Except Fault (Composer σ W) :=
  composer.begin.bind fun begun => walkOver behind begun.1 0 before

theorem walkOver_append (behind : List Char) (composer : Composer σ W) (index : Nat) (left right : List Char) :
    walkOver behind composer index (left ++ right) =
      (walkOver (right ++ behind) composer index left).bind fun now => walkOver behind now (index + left.length) right := by
  induction left generalizing composer index with
  | nil => rfl
  | cons symbol rest ih =>
    rw [List.cons_append, walkOver, walkOver, List.append_assoc]
    cases hstep : composer.step index symbol (rest ++ (right ++ behind)) with
    | error fault => rfl
    | ok stepped =>
      change walkOver behind stepped.1 (index + 1) (rest ++ right) = _
      rw [ih, List.length_cons, Nat.add_right_comm index 1 rest.length]
      rfl

theorem passTo_append (composer : Composer σ W) (left right behind : List Char) :
    composer.passTo (left ++ right) behind =
      (composer.passTo left (right ++ behind)).bind fun now => walkOver behind now left.length right := by
  rw [passTo, passTo]
  cases composer.begin with
  | error fault => rfl
  | ok begun =>
    change walkOver behind begun.1 0 (left ++ right) = _
    rw [walkOver_append, Nat.zero_add]
    rfl

theorem walk_of_walkOver {composer after : Composer σ W} {index : Nat} {text : List Char}
    (hwalk : walkOver [] composer index text = .ok after) (reports : List Report) :
    ∃ more, composer.walk index reports text = ⟨after, ⟨more, .ok ()⟩⟩ := by
  induction text generalizing composer index reports with
  | nil =>
    cases hwalk
    exact ⟨reports, rfl⟩
  | cons symbol rest ih =>
    obtain ⟨stepped, hstep, hrest⟩ := Except.bind_eq_ok_iff.1 hwalk
    rw [List.append_nil] at hstep
    rw [walk, hstep]
    exact ih hrest _

/-- A pass that comes to the end of a well-nested production has composed it. -/
theorem compose_of_passTo {composer after : Composer σ W} {production : List Char}
    (hnested : Grammar.checkBrackets production = .ok ()) (hpass : composer.passTo production [] = .ok after) :
    ∃ reports, composer.compose production = ⟨after, ⟨reports, .ok ()⟩⟩ := by
  obtain ⟨⟨begun, reports⟩, hbegin, hwalk⟩ := Except.bind_eq_ok_iff.1 hpass
  obtain ⟨more, hmore⟩ := walk_of_walkOver hwalk reports
  rw [compose, hnested, Except.bind, hbegin]
  dsimp only
  rw [hmore]
  exact ⟨_, rfl⟩

end TurtleMusic.Composer
