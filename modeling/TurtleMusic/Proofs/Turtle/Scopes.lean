import TurtleMusic.Proofs.Outcome
import TurtleMusic.Turtle.Basic
import Mathlib.Algebra.Ring.Int.Defs
import Mathlib.Data.List.Infix

/-!
# Calls inside a scope

Calls on a turtle that close only scopes which they have opened never reach the poses below: whatever they do to the pose on top, closing the scope around them brings back the turtle that opened it. Apart from opening, closing and starting anew, no call changes anything but the pose on top. The last pose is never taken away, and a row of turns adds up.
-/

namespace TurtleMusic.Turtle

/-- What can be called on a turtle. -/
inductive Call where
  | setX (x : Int)
  | setY (y : Int)
  | setZ (z : Int)
  | setYaw (yaw : Int)
  | setAngle (angle : Int)
  | setHue (hue : Int)
  | setThickness (thickness : Int)
  | turn (times : Int)
  | shiftHue (times : Int)
  | advance (amount : Int)
  | openScope
  | closeScope
  | reset (angle : Option Int)
  deriving DecidableEq

namespace Call

/-- What the call does to a turtle, step by step. -/
def act : Call → Act Turtle Unit
  | setX x => modify (·.setX x)
  | setY y => modify (·.setY y)
  | setZ z => modify (·.setZ z)
  | setYaw yaw => modify (·.setYaw yaw)
  | setAngle angle => modify (·.setAngle angle)
  | setHue hue => modify (·.setHue hue)
  | setThickness thickness => modify (·.setThickness thickness)
  | turn times => modify (·.turn times)
  | shiftHue times => modify (·.shiftHue times)
  | advance amount => modify (·.advance amount)
  | openScope => modify (·.openScope)
  | closeScope => do let _ ← leaveScope
  | reset angle => modify (·.reset angle)

/-- What the call makes of a turtle. -/
def on (turtle : Turtle) (call : Call) : Except Fault Turtle := call.act.after turtle

/-- Whether the call is none of the three that open and close scopes. -/
def keepsScopes : Call → Bool
  | openScope | closeScope | reset _ => false
  | _ => true

/-- How many poses there are after the call. -/
def depthAfter (depth : Nat) : Call → Nat
  | openScope => depth + 1
  | closeScope => max 1 (depth - 1)
  | reset _ => 1
  | _ => depth

end Call

/-- The turtle after some calls, the first one first, unless one of them is refused. -/
def run (turtle : Turtle) (calls : List Call) : Except Fault Turtle := calls.foldlM Call.on turtle

/-- The turtle that a call leaves behind, and how the call ended. -/
def attempt (turtle : Turtle) (call : Call) : Outcome Turtle Unit := call.act.outcome turtle

/-- The turtle after some calls that go on whether or not one of them is refused. -/
def afterCalls (turtle : Turtle) (calls : List Call) : Turtle :=
  calls.foldl (fun turtle call => (turtle.attempt call).state) turtle

/-- All poses of the turtle, the one it is in first. -/
def snapshots (turtle : Turtle) : List Pose := turtle.pose :: turtle.outer

variable {turtle : Turtle} {call : Call} {calls : List Call}

/-! ### One call -/

theorem Call.cases_scopes (call : Call) :
    call.keepsScopes = true ∨ call = openScope ∨ call = closeScope ∨ ∃ angle, call = reset angle := by
  cases call with
  | openScope => exact .inr (.inl rfl)
  | closeScope => exact .inr (.inr (.inl rfl))
  | reset angle => exact .inr (.inr (.inr ⟨angle, rfl⟩))
  | _ => exact .inl rfl

theorem Call.ne_of_plain (hplain : call.keepsScopes = true) : call ≠ openScope ∧ call ≠ closeScope := by
  constructor <;> rintro rfl <;> cases hplain

theorem Call.depthAfter_plain (hplain : call.keepsScopes = true) (depth : Nat) : call.depthAfter depth = depth := by
  cases call with
  | openScope | closeScope | reset => cases hplain
  | _ => rfl

theorem Call.on_plain (turtle : Turtle) (hplain : call.keepsScopes = true) :
    ∃ pose, call.on turtle = .ok { turtle with pose := pose } := by
  cases call with
  | openScope | closeScope | reset => cases hplain
  | _ => exact ⟨_, rfl⟩

theorem Call.on_closeScope {pose : Pose} {outer : List Pose} (houter : turtle.outer = pose :: outer) :
    closeScope.on turtle = .ok { turtle with pose := pose, outer := outer } := by
  have hclosed : leaveScope.result turtle = _ := closeScope_of_cons houter
  rw [on, act, Act.after_discard, Act.after, hclosed]
  rfl

/-- Closing looks for a scope around before it takes the pose away. -/
theorem careful_leaveScope : leaveScope.Careful := by
  refine Act.looks_get.bind fun turtle => ?_
  split
  · exact Act.careful_throw _
  · exact Act.Sure.careful ((Act.sure_set _).bind fun _ => Act.sure_pure _)

theorem attempt_ok {after : Turtle} (hcall : call.on turtle = .ok after) : turtle.attempt call = ⟨after, .quiet (.ok ())⟩ :=
  Act.outcome_of_after hcall

theorem attempt_closeScope (hnone : turtle.outer = []) :
    turtle.attempt .closeScope = ⟨turtle, .quiet (.error .noOpenScope)⟩ :=
  careful_leaveScope.outcome_discard_of_error (closeScope_of_nil hnone)

theorem depth_attempt (turtle : Turtle) (call : Call) : (turtle.attempt call).state.depth = call.depthAfter turtle.depth := by
  obtain hplain | rfl | rfl | ⟨angle, rfl⟩ := call.cases_scopes
  · obtain ⟨pose, hpose⟩ := Call.on_plain turtle hplain
    rw [attempt_ok hpose, Call.depthAfter_plain hplain]
    rfl
  · rfl
  · cases houter : turtle.outer with
    | nil =>
      rw [attempt_closeScope houter, depth, houter]
      rfl
    | cons pose outer =>
      rw [attempt_ok (Call.on_closeScope houter), depth, depth, houter]
      simp only [Call.depthAfter, List.length_cons]
      omega
  · rfl

theorem depth_afterCalls (turtle : Turtle) (calls : List Call) :
    (turtle.afterCalls calls).depth = calls.foldl Call.depthAfter turtle.depth := by
  induction calls generalizing turtle with
  | nil => rfl
  | cons call rest ih =>
    rw [List.foldl_cons, ← depth_attempt]
    exact ih (turtle.attempt call).state

/-! ### Calls one after the other -/

theorem run_cons {after : Turtle} (hcall : call.on turtle = .ok after) (rest : List Call) :
    turtle.run (call :: rest) = after.run rest := by
  rw [run, List.foldlM_cons, hcall]
  rfl

theorem run_append {after : Turtle} (hcalls : turtle.run calls = .ok after) (rest : List Call) :
    turtle.run (calls ++ rest) = after.run rest := by
  rw [run, List.foldlM_append, ← run, hcalls]
  rfl

/-- Calls that open and close scopes in pairs, none closed before it is opened, and never start anew. -/
structure Bracketed (calls : List Call) : Prop where
  lasting : ∀ angle, .reset angle ∉ calls
  closed : ∀ done, done <+: calls → done.count .closeScope ≤ done.count .openScope
  balanced : calls.count .closeScope = calls.count .openScope

/-- A call that closes no scope but one opened above some poses leaves these poses alone. -/
theorem Call.on_above (turtle : Turtle) (inner under : List Pose) (houter : turtle.outer = inner ++ under)
    (hlasting : ∀ angle, call ≠ reset angle) (hclosed : [call].count closeScope ≤ inner.length + [call].count openScope) :
    ∃ pose later, call.on turtle = .ok { turtle with pose := pose, outer := later ++ under } ∧
      later.length + [call].count closeScope = inner.length + [call].count openScope := by
  obtain hplain | rfl | rfl | ⟨angle, rfl⟩ := call.cases_scopes
  · obtain ⟨pose, hpose⟩ := on_plain turtle hplain
    obtain ⟨hopen, hclose⟩ := ne_of_plain hplain
    refine ⟨pose, inner, houter ▸ hpose, ?_⟩
    rw [List.count_cons_of_ne hopen, List.count_cons_of_ne hclose]
    rfl
  · exact ⟨turtle.pose, turtle.pose :: inner, by rw [List.cons_append, ← houter]; rfl, rfl⟩
  · cases inner with
    | nil => exact absurd hclosed (by decide)
    | cons first inner => exact ⟨first, inner, on_closeScope houter, rfl⟩
  · exact absurd rfl (hlasting angle)

/-- Calls that close no more scopes than were opened above some poses leave these poses alone. -/
theorem run_above (turtle : Turtle) (inner under : List Pose) (houter : turtle.outer = inner ++ under)
    (hlasting : ∀ angle, .reset angle ∉ calls)
    (hclosed : ∀ done, done <+: calls → done.count .closeScope ≤ inner.length + done.count .openScope) :
    ∃ pose later, turtle.run calls = .ok { turtle with pose := pose, outer := later ++ under } ∧
      later.length + calls.count .closeScope = inner.length + calls.count .openScope := by
  induction calls generalizing turtle inner with
  | nil => exact ⟨turtle.pose, inner, by rw [← houter]; rfl, rfl⟩
  | cons call rest ih =>
    simp only [List.mem_cons, not_or] at hlasting
    obtain ⟨pose, opened, hcall, hcounts⟩ := Call.on_above turtle inner under houter
      (fun angle hreset => (hlasting angle).1 hreset.symm) (hclosed [call] ⟨rest, rfl⟩)
    -- What the first call opened or closed is in `opened`, so the rest may close as many scopes as before.
    have hrest : ∀ done, done <+: rest → done.count .closeScope ≤ opened.length + done.count .openScope := by
      intro done hdone
      have hboth := hclosed ([call] ++ done) (List.cons_prefix_cons.2 ⟨rfl, hdone⟩)
      rw [List.count_append, List.count_append] at hboth
      omega
    obtain ⟨last, later, hrun, hlength⟩ :=
      ih { turtle with pose := pose, outer := opened ++ under } opened rfl (fun angle => (hlasting angle).2) hrest
    refine ⟨last, later, (run_cons hcall rest).trans hrun, ?_⟩
    rw [← List.singleton_append, List.count_append, List.count_append]
    omega

/-- While the calls inside a scope go on, all the poses from before it was opened lie below. -/
theorem run_opened (turtle : Turtle) (hcalls : Bracketed calls) {done : List Call} (hdone : done <+: calls) :
    ∃ pose later, turtle.run (.openScope :: done) = .ok { turtle with pose := pose, outer := later ++ turtle.snapshots } ∧
      later.length + done.count .closeScope = done.count .openScope := by
  rw [run_cons rfl]
  obtain ⟨pose, later, hrun, hlength⟩ := run_above turtle.openScope [] turtle.snapshots rfl
    (fun angle hmem => hcalls.lasting angle (hdone.subset hmem)) fun before hbefore => by
      rw [List.length_nil, Nat.zero_add]
      exact hcalls.closed before (hbefore.trans hdone)
  rw [List.length_nil, Nat.zero_add] at hlength
  exact ⟨pose, later, hrun, hlength⟩

theorem run_inside (turtle : Turtle) (hcalls : Bracketed calls) {done : List Call} (hdone : done <+: calls) :
    ∃ inside, turtle.run (.openScope :: done) = .ok inside ∧ turtle.snapshots <:+ inside.outer ∧
      inside.depth + done.count .closeScope = turtle.depth + 1 + done.count .openScope := by
  obtain ⟨pose, later, hrun, hlength⟩ := turtle.run_opened hcalls hdone
  refine ⟨_, hrun, List.suffix_append later turtle.snapshots, ?_⟩
  simp only [depth, snapshots, List.length_append, List.length_cons]
  omega

/-- Closing the scope brings back the turtle that opened it. -/
theorem run_scope (turtle : Turtle) (hcalls : Bracketed calls) :
    turtle.run (.openScope :: (calls ++ [.closeScope])) = .ok turtle := by
  obtain ⟨pose, later, hrun, hlength⟩ := turtle.run_opened hcalls (List.prefix_refl calls)
  have hnone : later = [] := List.eq_nil_of_length_eq_zero (by
    rw [hcalls.balanced] at hlength
    omega)
  subst hnone
  rw [← List.cons_append, run_append hrun, run_cons (Call.on_closeScope rfl)]
  rfl

/-! ### Rows of turns -/

theorem turn_turn (turtle : Turtle) (first second : Int) : (turtle.turn first).turn second = turtle.turn (first + second) := by
  simp only [turn, setYaw, Int.emod_add_emod, Int.add_mul, Int.add_assoc]

theorem run_turns (turtle : Turtle) {times : List Int} (hsome : times ≠ []) :
    turtle.run (times.map .turn) = .ok (turtle.turn times.sum) := by
  induction times generalizing turtle with
  | nil => exact absurd rfl hsome
  | cons first rest ih =>
    rw [List.map_cons, run_cons rfl]
    cases rest with
    | nil =>
      rw [List.sum_singleton]
      rfl
    | cons second rest => rw [ih _ (List.cons_ne_nil second rest), turn_turn, ← List.sum_cons]

/-- The turns to the left less those to the right. -/
theorem exists_turns {row : List Call} (hrow : ∀ call ∈ row, call = .turn 1 ∨ call = .turn (-1)) :
    ∃ times : List Int, row = times.map .turn ∧ times.sum = row.count (.turn 1) - row.count (.turn (-1)) := by
  induction row with
  | nil => exact ⟨[], rfl, rfl⟩
  | cons call rest ih =>
    rw [List.forall_mem_cons] at hrow
    obtain ⟨times, hmap, hsum⟩ := ih hrow.2
    rcases hrow.1 with rfl | rfl
    · refine ⟨1 :: times, by rw [hmap]; rfl, ?_⟩
      rw [List.sum_cons, hsum, List.count_cons_self, List.count_cons_of_ne (by decide)]
      omega
    · refine ⟨-1 :: times, by rw [hmap]; rfl, ?_⟩
      rw [List.sum_cons, hsum, List.count_cons_self, List.count_cons_of_ne (by decide)]
      omega

/-- Calls between the opening of a scope and its closing leave no trace if they open and close scopes in pairs, and none of them reaches the poses below meanwhile. Only opening, closing and starting anew change what lies below the top; a pose is always left, since the last scope cannot be closed. A row of turns amounts to the turns to the left less those to the right. -/
theorem scopes_leave_no_trace (turtle : Turtle) :
    (∀ calls, Bracketed calls → turtle.run (.openScope :: (calls ++ [.closeScope])) = .ok turtle ∧
      ∀ done, done <+: calls → ∃ inside, turtle.run (.openScope :: done) = .ok inside ∧ turtle.snapshots <:+ inside.outer ∧
        inside.depth + done.count .closeScope = turtle.depth + 1 + done.count .openScope) ∧
    (∀ call : Call, call.keepsScopes = true →
      ∃ after, call.on turtle = .ok after ∧ after.depth = turtle.depth ∧ after.outer = turtle.outer) ∧
    (∀ calls, (turtle.afterCalls calls).depth = calls.foldl Call.depthAfter turtle.depth ∧
      1 ≤ (turtle.afterCalls calls).depth) ∧
    (turtle.depth = 1 → turtle.attempt .closeScope = ⟨turtle, .quiet (.error .noOpenScope)⟩) ∧
    Fault.noOpenScope.kind = .scope ∧
    ∀ row : List Call, row ≠ [] → (∀ call ∈ row, call = .turn 1 ∨ call = .turn (-1)) → turtle.run row =
      .ok { turtle with pose := { turtle.pose with
        yaw := (turtle.pose.yaw + (row.count (.turn 1) - row.count (.turn (-1))) * turtle.pose.angle) % 360 } } := by
  refine ⟨fun calls hcalls => ⟨turtle.run_scope hcalls, fun done => turtle.run_inside hcalls⟩, fun call hplain => ?_,
    fun calls => ⟨turtle.depth_afterCalls calls, Nat.le_add_left 1 _⟩, fun hdepth => ?_, rfl, fun row hsome hrow => ?_⟩
  · obtain ⟨pose, hpose⟩ := Call.on_plain turtle hplain
    exact ⟨_, hpose, rfl, rfl⟩
  · exact attempt_closeScope (List.eq_nil_of_length_eq_zero (Nat.succ.inj hdepth))
  · obtain ⟨times, rfl, hsum⟩ := exists_turns hrow
    rw [← hsum]
    exact turtle.run_turns fun hnone => hsome (congrArg (List.map Call.turn) hnone)

/-- A branch in a branch, and three turns of which one is taken back. -/
theorem scopes_leave_no_trace_nested :
    ∃ turtle : Turtle, turtle.depth = 1 ∧
      turtle.run [.openScope, .turn 1, .openScope, .setY 72, .closeScope, .shiftHue 1, .closeScope] = .ok turtle ∧
      (∃ inside, turtle.run [.openScope, .turn 1, .openScope] = .ok inside ∧ turtle.snapshots <:+ inside.outer ∧
        inside.depth = 3) ∧
      (∃ after, (Call.advance 16).on turtle = .ok after ∧ after.depth = 1 ∧ after.outer = []) ∧
      turtle.attempt .closeScope = ⟨turtle, .quiet (.error .noOpenScope)⟩ ∧
      turtle.run [.turn 1, .turn (-1), .turn 1] = .ok (turtle.setYaw 90) := by
  let turtle : Turtle := make 90 10 {}
  obtain ⟨hscopes, hplain, -, hlast, -, hrow⟩ := scopes_leave_no_trace turtle
  have hcalls : Bracketed [.turn 1, .openScope, .setY 72, .closeScope, .shiftHue 1] := by
    have hinits : ∀ done ∈ [Call.turn 1, .openScope, .setY 72, .closeScope, .shiftHue 1].inits,
        done.count Call.closeScope ≤ done.count Call.openScope := by decide
    exact ⟨fun angle => by simp, fun done hdone => hinits done ((List.mem_inits done _).2 hdone), by decide⟩
  obtain ⟨hscope, hinside⟩ := hscopes _ hcalls
  obtain ⟨inside, hrun, hbelow, hdepth⟩ := hinside [.turn 1, .openScope] ⟨[.setY 72, .closeScope, .shiftHue 1], rfl⟩
  exact ⟨turtle, rfl, hscope, ⟨inside, hrun, hbelow, hdepth⟩, hplain _ rfl, hlast rfl, hrow _ (by decide) (by decide)⟩

end TurtleMusic.Turtle
