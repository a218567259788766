import TurtleMusic.Chance.Draw

/-!
# Markov chains

A walk over states whose next state is drawn from the options of the present one. A state without options holds the walk where it is.
-/

namespace TurtleMusic.Chance

open TurtleMusic.Number

/-- The options of each state, in the order the states were given. -/
abbrev Transitions (α W : Type) := List (α × List (α × W))

structure Chain (α W : Type) where
  transitions : Transitions α W
  initial : α
  state : α

namespace Chain

variable {α σ W : Type} [BEq α] [Weight W]

/-- A chain starts in the given state, or in the first one if none is given. -/
def start (transitions : Transitions α W) (initial : Option α) : Except Fault (Chain α W) :=
  match transitions with
  | [] => .error .noTransitions
  | (first, _) :: _ =>
    let initial := initial.getD first
    if transitions.any fun entry => entry.1 == initial then .ok ⟨transitions, initial, initial⟩
    else .error .unknownInitialState

/-- The first row of a table that is not as long as the table has rows. -/
def raggedRow? (rows : List (List W)) : Option Fault :=
  (rows.zipIdx.find? fun row => row.1.length != rows.length).map fun row =>
    .raggedRow row.2 row.1.length rows.length

/-- The chain over the rows of a square table, starting in the first. Entries that are not positive are no options. -/
def ofRows (rows : List (List W)) : Except Fault (Chain Nat W) :=
  match raggedRow? rows with
  | some fault => .error fault
  | none =>
    Chain.start (rows.zipIdx.map fun row => (row.2, (columns row.1).filter fun option => 0 < option.2)) (some 0)

def options (chain : Chain α W) : List (α × W) :=
  (chain.transitions.lookup chain.state).getD []

/-- One step of a chain, and the state it leads to. -/
def walk [Source σ W] : Act (Chain α W × σ) α := do
  let now ← get
  if now.1.options.isEmpty then return now.1.state
  else
    let next ← Act.onSecond (draw now.1.options)
    modify fun now => ({ now.1 with state := next }, now.2)
    return next

def step [Source σ W] (chain : Chain α W) (source : σ) : Except Fault (Chain α W × σ) := walk.after (chain, source)

theorem step_eq [Source σ W] (chain : Chain α W) (source : σ) : chain.step source =
    if chain.options.isEmpty then .ok (chain, source)
    else (choose chain.options source).map fun drawn => (⟨chain.transitions, chain.initial, drawn.1⟩, drawn.2) := by
  simp only [step, Act.after, walk, Act.result_bind, Act.result_get, Except.bind]
  split
  · rfl
  · simp only [Act.result_bind, Act.result_onSecond]
    rw [← choose]
    cases choose chain.options source <;> rfl

def reset (chain : Chain α W) : Chain α W :=
  ⟨chain.transitions, chain.initial, chain.initial⟩

end Chain

end TurtleMusic.Chance
