import TurtleMusic.Account
import Mathlib.Data.List.Forall2

/-!
# Work that may fail

How work that may fail came to succeed: every step of it did, and the result is made from the results of the steps. And the other way round: if no step fails, neither does the work. Work on a state that fails has changed nothing if all that may fail in it comes before the first change.
-/

namespace Except

variable {ε α β : Type}

theorem map_eq_ok_iff {f : α → β} {result : Except ε α} {value : β} :
    result.map f = .ok value ↔ ∃ found, result = .ok found ∧ f found = value := by
  cases result <;> simp [Except.map]

theorem map_eq_error_iff {f : α → β} {result : Except ε α} {fault : ε} : result.map f = .error fault ↔ result = .error fault := by
  cases result <;> simp [Except.map]

theorem bind_eq_ok_iff {next : α → Except ε β} {result : Except ε α} {value : β} :
    (result >>= next) = .ok value ↔ ∃ found, result = .ok found ∧ next found = .ok value := by
  cases result <;> simp [bind, Except.bind]

theorem map_isOk {result : Except ε α} (f : α → β) (hresult : ∃ found, result = .ok found) :
    ∃ value, result.map f = .ok value := by
  obtain ⟨found, hfound⟩ := hresult
  exact ⟨f found, map_eq_ok_iff.2 ⟨found, hfound, rfl⟩⟩

theorem bind_isOk {next : α → Except ε β} {result : Except ε α} (hresult : ∃ found, result = .ok found)
    (hnext : ∀ found, result = .ok found → ∃ value, next found = .ok value) : ∃ value, (result >>= next) = .ok value := by
  obtain ⟨found, hfound⟩ := hresult
  obtain ⟨value, hvalue⟩ := hnext found hfound
  exact ⟨value, bind_eq_ok_iff.2 ⟨found, hfound, hvalue⟩⟩

/-- Work on every item succeeds if it does on each, and the results stand in the order of the items. -/
theorem mapM_eq_ok_iff {next : α → Except ε β} {items : List α} {values : List β} :
    items.mapM next = .ok values ↔ List.Forall₂ (fun item value => next item = .ok value) items values := by
  induction items generalizing values with
  | nil =>
    rw [List.mapM_nil, List.forall₂_nil_left_iff]
    exact ⟨fun hvalues => (Except.ok.inj hvalues).symm, fun hvalues => congrArg Except.ok hvalues.symm⟩
  | cons item rest ih =>
    rw [List.mapM_cons, bind_eq_ok_iff, List.forall₂_cons_left_iff]
    constructor
    · rintro ⟨value, hvalue, hrest⟩
      obtain ⟨others, hothers, hcons⟩ := bind_eq_ok_iff.1 hrest
      exact ⟨value, others, hvalue, ih.1 hothers, (Except.ok.inj hcons).symm⟩
    · rintro ⟨value, others, hvalue, hothers, rfl⟩
      exact ⟨value, hvalue, bind_eq_ok_iff.2 ⟨others, ih.2 hothers, rfl⟩⟩

theorem mapM_append_eq_ok_iff {next : α → Except ε β} {left right : List α} {values : List β} :
    (left ++ right).mapM next = .ok values ↔
      ∃ first second, left.mapM next = .ok first ∧ right.mapM next = .ok second ∧ first ++ second = values := by
  rw [List.mapM_append, bind_eq_ok_iff]
  constructor
  · rintro ⟨first, hfirst, hrest⟩
    obtain ⟨second, hsecond, hvalues⟩ := bind_eq_ok_iff.1 hrest
    exact ⟨first, second, hfirst, hsecond, Except.ok.inj hvalues⟩
  · rintro ⟨first, second, hfirst, hsecond, rfl⟩
    exact ⟨first, hfirst, bind_eq_ok_iff.2 ⟨second, hsecond, rfl⟩⟩

theorem mapM_isOk {next : α → Except ε β} {items : List α} (hnext : ∀ item ∈ items, ∃ value, next item = .ok value) :
    ∃ values, items.mapM next = .ok values := by
  induction items with
  | nil => exact ⟨[], rfl⟩
  | cons item rest ih =>
    rw [List.forall_mem_cons] at hnext
    obtain ⟨value, hvalue⟩ := hnext.1
    obtain ⟨values, hvalues⟩ := ih hnext.2
    exact ⟨value :: values, mapM_eq_ok_iff.2 (.cons hvalue (mapM_eq_ok_iff.1 hvalues))⟩

/-- If work succeeds on every item, the results are what can be had at all. -/
theorem filterMap_of_mapM {next : α → Except ε β} {items : List α} {values : List β} (hvalues : items.mapM next = .ok values) :
    items.filterMap (fun item => (next item).toOption) = values := by
  induction mapM_eq_ok_iff.1 hvalues with
  | nil => rfl
  | cons hfirst hrest ih =>
    rw [List.filterMap_cons, hfirst]
    exact congrArg (_ :: ·) (ih (mapM_eq_ok_iff.2 hrest))

theorem exists_of_mem_of_mapM {next : α → Except ε β} {items : List α} {values : List β}
    (hvalues : items.mapM next = .ok values) {value : β} (hvalue : value ∈ values) : ∃ item ∈ items, next item = .ok value := by
  induction mapM_eq_ok_iff.1 hvalues with
  | nil => exact absurd hvalue List.not_mem_nil
  | @cons item first rest others hfirst hrest ih =>
    rcases List.mem_cons.1 hvalue with rfl | hlater
    · exact ⟨item, List.mem_cons_self, hfirst⟩
    · obtain ⟨other, hother, hnext⟩ := ih (mapM_eq_ok_iff.2 hrest) hlater
      exact ⟨other, List.mem_cons_of_mem _ hother, hnext⟩

theorem isOk_of_mem_of_mapM {next : α → Except ε β} {items : List α} {values : List β}
    (hvalues : items.mapM next = .ok values) {item : α} (hitem : item ∈ items) : ∃ value, next item = .ok value := by
  induction mapM_eq_ok_iff.1 hvalues with
  | nil => exact absurd hitem List.not_mem_nil
  | @cons own first rest others hfirst hrest ih =>
    rcases List.mem_cons.1 hitem with rfl | hlater
    · exact ⟨first, hfirst⟩
    · exact ih (mapM_eq_ok_iff.2 hrest) hlater

end Except

namespace TurtleMusic.Act

variable {S T α β : Type} {act first : Act S α} {next : α → Act S β} {state after : S} {value : α} {fault : Fault}

/-- If the act fails, it has changed nothing. -/
def Careful (act : Act S α) : Prop := ∀ state fault after, act.run state = .error fault after → after = state

/-- However the act ends, it has changed nothing. -/
structure Looks (act : Act S α) : Prop where
  careful : act.Careful
  kept : ∀ state value after, act.run state = .ok value after → after = state

/-- The act never fails. -/
def Sure (act : Act S α) : Prop := ∀ state fault after, act.run state ≠ .error fault after

theorem Sure.careful (hsure : act.Sure) : act.Careful := fun state fault after hrun => absurd hrun (hsure state fault after)

theorem sure_of_isOk (hresult : ∀ state, ∃ reached, act.result state = .ok reached) : act.Sure := by
  intro state fault after hrun
  obtain ⟨reached, hreached⟩ := hresult state
  rw [result, hrun] at hreached
  cases hreached

theorem outcome_of_ok (hresult : act.result state = .ok (value, after)) : act.outcome state = ⟨after, .quiet (.ok value)⟩ := by
  rw [result] at hresult
  rw [outcome]
  split at hresult
  · cases hresult
    rfl
  · cases hresult

theorem Careful.outcome_of_error (hcareful : act.Careful) (hresult : act.result state = .error fault) :
    act.outcome state = ⟨state, .quiet (.error fault)⟩ := by
  rw [result] at hresult
  rw [outcome]
  split at hresult
  · cases hresult
  · next hrun =>
    cases hresult
    rw [hcareful _ _ _ hrun]

theorem outcome_of_after {act : Act S Unit} (hafter : act.after state = .ok after) :
    act.outcome state = ⟨after, .quiet (.ok ())⟩ := by
  obtain ⟨⟨_, _⟩, hresult, rfl⟩ := Except.map_eq_ok_iff.1 hafter
  exact outcome_of_ok hresult

theorem Careful.outcome_of_after (hcareful : act.Careful) (hafter : act.after state = .error fault) :
    act.outcome state = ⟨state, .quiet (.error fault)⟩ :=
  hcareful.outcome_of_error (Except.map_eq_error_iff.1 hafter)

/-! ### Acts one after the other -/

theorem run_bind (first : Act S α) (next : α → Act S β) (state : S) :
    (first >>= next).run state =
      match first.run state with
      | .ok value reached => (next value).run reached
      | .error fault reached => .error fault reached := by
  simp only [EStateM.run, bind, EStateM.bind]
  cases first state <;> rfl

/-- What only looks may be followed by anything careful. -/
theorem Looks.bind (hfirst : first.Looks) (hnext : ∀ value, (next value).Careful) : (first >>= next).Careful := by
  intro state fault after hrun
  rw [run_bind] at hrun
  split at hrun
  · next hreached => rw [hnext _ _ _ _ hrun, hfirst.kept _ _ _ hreached]
  · next hreached =>
    cases hrun
    exact hfirst.careful _ _ _ hreached

/-- What is careful may be followed by anything that never fails. -/
theorem Careful.bind (hfirst : first.Careful) (hnext : ∀ value, (next value).Sure) : (first >>= next).Careful := by
  intro state fault after hrun
  rw [run_bind] at hrun
  split at hrun
  · exact absurd hrun (hnext _ _ _ _)
  · next hreached =>
    cases hrun
    exact hfirst _ _ _ hreached

theorem Careful.onSecond (hcareful : act.Careful) : (onSecond act : Act (T × S) α).Careful := by
  intro states fault after hrun
  simp only [EStateM.run, Act.onSecond] at hrun
  split at hrun
  · cases hrun
  · next hreached =>
    cases hrun
    rw [hcareful _ _ _ hreached]

theorem Careful.discard (hcareful : act.Careful) : Careful (do let _ ← act) := hcareful.bind fun _ => nofun

theorem outcome_discard_of_ok (hresult : act.result state = .ok (value, after)) :
    outcome (do let _ ← act) state = ⟨after, .quiet (.ok ())⟩ := by
  apply outcome_of_ok
  rw [result_bind, hresult]
  rfl

theorem Careful.outcome_discard_of_error (hcareful : act.Careful) (hresult : act.result state = .error fault) :
    outcome (do let _ ← act) state = ⟨state, .quiet (.error fault)⟩ := by
  apply hcareful.discard.outcome_of_error
  rw [result_bind, hresult]
  rfl

theorem Sure.bind (hfirst : first.Sure) (hnext : ∀ value, (next value).Sure) : (first >>= next).Sure := by
  intro state fault after hrun
  rw [run_bind] at hrun
  split at hrun
  · exact hnext _ _ _ _ hrun
  · next hreached => exact hfirst _ _ _ hreached

/-! ### Single steps -/

theorem careful_throw (fault : Fault) : (throw fault : Act S α).Careful := by
  intro state _ after hrun
  cases hrun
  rfl

theorem looks_pure (value : α) : (pure value : Act S α).Looks := by
  refine ⟨nofun, fun state _ after hrun => ?_⟩
  cases hrun
  rfl

theorem looks_get : (get : Act S S).Looks := by
  refine ⟨nofun, fun state _ after hrun => ?_⟩
  cases hrun
  rfl

theorem looks_check (checked : Except Fault α) : (check checked : Act S α).Looks := by
  cases checked with
  | error fault => exact ⟨careful_throw fault, nofun⟩
  | ok value => exact looks_pure value

theorem sure_pure (value : α) : (pure value : Act S α).Sure := nofun

theorem sure_modify (f : S → S) : (modify f : Act S PUnit).Sure := nofun

theorem sure_modifyGet (f : S → α × S) : (modifyGet f : Act S α).Sure := nofun

theorem sure_get : (get : Act S S).Sure := nofun

theorem sure_set (state : S) : (set state : Act S PUnit).Sure := nofun

end TurtleMusic.Act
