import TurtleMusic.Fault
import TurtleMusic.Report

/-!
# Accounts

Work that reports as it goes and may fail, and work that changes a state as it goes and may fail. What was reported before a failure stays reported, and a state that was changed before it stays changed.
-/

namespace TurtleMusic

structure Account (α : Type) where
  reports : List Report
  result : Except Fault α

namespace Account

/-- Work on the result of other work, done only if that succeeded. -/
def andThen {α β : Type} (account : Account α) (next : α → Account β) : Account β :=
  match account.result with
  | .error fault => ⟨account.reports, .error fault⟩
  | .ok value => ⟨account.reports ++ (next value).reports, (next value).result⟩

instance : Monad Account where
  pure value := ⟨[], .ok value⟩
  bind := andThen

def quiet {α : Type} (result : Except Fault α) : Account α := ⟨[], result⟩

def told {α : Type} (result : Except Fault (α × List Report)) : Account α :=
  match result with
  | .error fault => ⟨[], .error fault⟩
  | .ok (value, reports) => ⟨reports, .ok value⟩

def report (report : Report) : Account Unit := ⟨[report], .ok ()⟩

end Account

/-- What an operation on a state leaves behind: the state and an account of the operation. -/
structure Outcome (S α : Type) where
  state : S
  account : Account α

/-- An operation on what another one left behind, done only if that succeeded. -/
def Outcome.andThen {S α β : Type} (outcome : Outcome S α) (next : S → Outcome S β) : Outcome S β :=
  match outcome.account.result with
  | .error fault => ⟨outcome.state, ⟨outcome.account.reports, .error fault⟩⟩
  | .ok _ =>
    let after := next outcome.state
    ⟨after.state, ⟨outcome.account.reports ++ after.account.reports, after.account.result⟩⟩

/-- Steps on a state, one after the other, of which any may fail. A failure ends them and takes nothing back: what the steps before it have changed stays changed. -/
abbrev Act (S α : Type) := EStateM Fault S α

namespace Act

variable {S T α : Type}

/-- A step that may fail and changes nothing. -/
def check (result : Except Fault α) : Act S α :=
  match result with
  | .ok value => pure value
  | .error fault => throw fault

/-- An act on the second one of two states. -/
def onSecond (act : Act S α) : Act (T × S) α := fun states =>
  match act.run states.2 with
  | .ok value after => .ok value (states.1, after)
  | .error fault after => .error fault (states.1, after)

def outcome (act : Act S α) (state : S) : Outcome S α :=
  match act.run state with
  | .ok value after => ⟨after, .quiet (.ok value)⟩
  | .error fault after => ⟨after, .quiet (.error fault)⟩

/-- What an act gives and the state after it, if it succeeds. -/
def result (act : Act S α) (state : S) : Except Fault (α × S) :=
  match act.run state with
  | .ok value after => .ok (value, after)
  | .error fault _ => .error fault

/-- The state after an act, if it succeeds. -/
def after (act : Act S α) (state : S) : Except Fault S := (act.result state).map Prod.snd

variable {β : Type}

@[simp] theorem result_throw (fault : Fault) (state : S) : (throw fault : Act S α).result state = .error fault := rfl

@[simp] theorem result_get (state : S) : (get : Act S S).result state = .ok (state, state) := rfl

@[simp] theorem result_modifyGet (f : S → α × S) (state : S) : (modifyGet f : Act S α).result state = .ok (f state) := rfl

@[simp] theorem result_check (checked : Except Fault α) (state : S) :
    (check checked : Act S α).result state = checked.map (·, state) := by
  cases checked <;> rfl

@[simp] theorem result_onSecond (act : Act S α) (states : T × S) :
    (onSecond act : Act (T × S) α).result states =
      (act.result states.2).map fun reached => (reached.1, (states.1, reached.2)) := by
  simp only [result, EStateM.run, onSecond]
  cases act states.2 <;> rfl

@[simp] theorem result_bind (first : Act S α) (next : α → Act S β) (state : S) :
    (first >>= next).result state = (first.result state).bind fun reached => (next reached.1).result reached.2 := by
  simp only [result, EStateM.run, bind, EStateM.bind]
  cases first state <;> rfl

theorem after_discard (act : Act S α) (state : S) : after (do let _ ← act) state = act.after state := by
  rw [after, result_bind, after]
  cases act.result state <;> rfl

end Act

end TurtleMusic
