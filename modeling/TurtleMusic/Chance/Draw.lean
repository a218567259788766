import TurtleMusic.Account
import TurtleMusic.Chance.Source

/-!
# Weighted draws

One item out of a list of weighted options. The draw rolls a number up to the total weight and takes the first option at which the running total reaches the roll; options without weight are passed over. Lists that offer nothing to draw are refused before the source is touched.
-/

namespace TurtleMusic.Chance

open TurtleMusic.Number

variable {α σ W : Type} [Weight W]

/-- The first option at which the running total, starting from `reached`, is at least the roll. -/
def reach (roll reached : W) : List (α × W) → Option α
  | [] => none
  | (option, weight) :: rest =>
    if weight ≤ 0 then reach roll reached rest
    else if roll ≤ reached + weight then some option
    else reach roll (reached + weight) rest

/-- The option that a roll falls on. A roll beyond the total, as rounding can leave it, falls on the last option that has weight. -/
def pick (options : List (α × W)) (roll : W) : Option α :=
  (reach roll 0 options).or ((options.filter fun option => 0 < option.2).getLast?.map (·.1))

def totalWeight (options : List (α × W)) : W :=
  options.foldl (fun total option => total + option.2) 0

/-- Why nothing can be drawn from a list of options, if so. -/
def refusal? (options : List (α × W)) : Option Fault :=
  if options.isEmpty then some .noOptions
  else if options.any fun option => option.2 < 0 then some .negativeWeight
  else if totalWeight options ≤ 0 then some .noPositiveWeight
  else none

/-- The next number on the unit scale. -/
def roll [Source σ W] : Act σ W := modifyGet Source.unit

/-- Draws an option. -/
def draw [Source σ W] (options : List (α × W)) : Act σ α :=
  match refusal? options with
  | some fault => throw fault
  | none => do
    let unit : W ← roll
    match pick options (totalWeight options * unit) with
    | some option => return option
    | none => throw .noPositiveWeight

def choose [Source σ W] (options : List (α × W)) (source : σ) : Except Fault (α × σ) := (draw options).result source

theorem choose_eq [Source σ W] (options : List (α × W)) (source : σ) : choose options source =
    match refusal? options with
    | some fault => .error fault
    | none =>
      let drawn : W × σ := Source.unit source
      match pick options (totalWeight options * drawn.1) with
      | some option => .ok (option, drawn.2)
      | none => .error .noPositiveWeight := by
  rw [choose, draw]
  cases refusal? options with
  | some fault => rfl
  | none =>
    simp only [roll, Act.result_bind, Act.result_modifyGet, Except.bind]
    cases pick options (totalWeight options * (Source.unit source : W × σ).1) <;> rfl

def columns (row : List W) : List (Nat × W) :=
  row.zipIdx.map fun entry => (entry.2, entry.1)

/-- Draws a column of a table's row. A row without positive entries has no preference and uses no draw. -/
def chooseColumn [Source σ W] (row : List W) (source : σ) : Except Fault (Option Nat × σ) :=
  if row.any fun weight => 0 < weight then (choose (columns row) source).map fun drawn => (some drawn.1, drawn.2)
  else .ok (none, source)

end TurtleMusic.Chance
