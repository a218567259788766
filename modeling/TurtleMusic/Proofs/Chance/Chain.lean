import TurtleMusic.Account
import TurtleMusic.Chance.Chain
import TurtleMusic.Chance.Script
import TurtleMusic.Proofs.Chance.Rolls

/-!
# Walks of chains

With exact weights a draw turns the running total of the weights round: each roll falls on one option, and that is the one drawn. A chain has the same options for a state all its life, so that a step of it goes to an option of the state it is in, namely the one its roll falls on, or stays if there are none, or is refused and leaves everything as it was.
-/

namespace TurtleMusic.Chance

namespace Chain

/-- What can be called on a chain. -/
inductive Call where
  | step
  | reset
  deriving DecidableEq

section Calls

variable {α σ W : Type} [BEq α] [Number.Weight W] [Source σ W]

/-- What the call does to a chain and its source, step by step. -/
def Call.act : Call → Act (Chain α W × σ) Unit
  | step => do let _ ← walk
  | reset => modify fun walking => (walking.1.reset, walking.2)

/-- The chain and the source that a call leaves behind, and how the call ended. -/
def attempt (walk : Chain α W × σ) (call : Call) : Outcome (Chain α W × σ) Unit := call.act.outcome walk

/-- A chain and its source after some calls that go on whether or not one of them is refused. -/
def afterCalls (walk : Chain α W × σ) (calls : List Call) : Chain α W × σ :=
  calls.foldl (fun walk call => (attempt walk call).state) walk

end Calls

variable {α σ : Type} [BEq α] [Source σ Rat]

/-! ### One call -/

/-- A step looks at the options and draws before it changes the state, so if it is refused it has changed nothing. -/
theorem careful_walk : (walk : Act (Chain α Rat × σ) α).Careful := by
  refine Act.looks_get.bind fun walking => ?_
  split
  · exact (Act.looks_pure _).careful
  · exact (careful_draw _).onSecond.bind fun next => (Act.sure_modify _).bind fun _ => Act.sure_pure next

theorem attempt_step_ok {walking after : Chain α Rat × σ} (hstep : walking.1.step walking.2 = .ok after) :
    attempt walking .step = ⟨after, .quiet (.ok ())⟩ := by
  obtain ⟨reached, hresult, rfl⟩ := Except.map_eq_ok_iff.1 hstep
  exact Act.outcome_discard_of_ok hresult

theorem attempt_step_error {walking : Chain α Rat × σ} {fault : Fault} (hstep : walking.1.step walking.2 = .error fault) :
    attempt walking .step = ⟨walking, .quiet (.error fault)⟩ :=
  careful_walk.outcome_discard_of_error (Except.map_eq_error_iff.1 hstep)

theorem attempt_reset (walking : Chain α Rat × σ) :
    attempt walking .reset = ⟨(walking.1.reset, walking.2), .quiet (.ok ())⟩ := rfl

/-- What a step does, told by the options of the state that the chain is in. -/
theorem attempt_step (walk : Chain α Rat × σ) :
    (∃ place option, walk.1.options[place]? = some option ∧
      FallsOn walk.1.options (weightOf walk.1.options * (Source.unit walk.2 : Rat × σ).1) place ∧
      attempt walk .step =
        ⟨({ walk.1 with state := option.1 }, (Source.unit walk.2 : Rat × σ).2), .quiet (.ok ())⟩) ∨
    (walk.1.options = [] ∧ attempt walk .step = ⟨walk, .quiet (.ok ())⟩) ∨
    (walk.1.options ≠ [] ∧ Undrawable walk.1.options ∧
      ∃ fault, fault.kind = .value ∧ attempt walk .step = ⟨walk, .quiet (.error fault)⟩) := by
  by_cases hnone : walk.1.options = []
  · refine .inr (.inl ⟨hnone, attempt_step_ok ?_⟩)
    rw [step_eq, hnone]
    rfl
  · have hsome : walk.1.options.isEmpty = false := List.isEmpty_eq_false_iff.2 hnone
    by_cases hundrawable : Undrawable walk.1.options
    · obtain ⟨fault, hkind, hrefused⟩ := choose_of_undrawable hundrawable
      refine .inr (.inr ⟨hnone, hundrawable, fault, hkind, attempt_step_error ?_⟩)
      rw [step_eq, hsome, if_neg Bool.false_ne_true, hrefused]
      rfl
    · obtain ⟨place, option, hoption, hfalls, hchoose⟩ := choose_of_drawable hundrawable walk.2
      refine .inl ⟨place, option, hoption, hfalls, attempt_step_ok ?_⟩
      rw [step_eq, hsome, if_neg Bool.false_ne_true, hchoose]
      rfl

/-- A call changes nothing of a chain but the state it is in. -/
theorem attempt_chain (walk : Chain α Rat × σ) (call : Call) :
    ∃ state, (attempt walk call).state.1 = { walk.1 with state := state } := by
  cases call with
  | reset => exact ⟨walk.1.initial, rfl⟩
  | step =>
    obtain ⟨_, option, _, _, hstep⟩ | ⟨_, hstep⟩ | ⟨_, _, _, _, hstep⟩ := attempt_step walk
    · exact ⟨option.1, by rw [hstep]⟩
    · exact ⟨walk.1.state, by rw [hstep]⟩
    · exact ⟨walk.1.state, by rw [hstep]⟩

theorem afterCalls_chain (walk : Chain α Rat × σ) (calls : List Call) :
    ∃ state, (afterCalls walk calls).1 = { walk.1 with state := state } := by
  induction calls generalizing walk with
  | nil => exact ⟨walk.1.state, rfl⟩
  | cons call rest ih =>
    obtain ⟨first, hfirst⟩ := attempt_chain walk call
    obtain ⟨state, hstate⟩ := ih (attempt walk call).state
    rw [hfirst] at hstate
    exact ⟨state, hstate⟩

end Chain

/-- A draw is refused if and only if there is nothing to draw, and then before the source is touched. Otherwise every roll falls on one option, which has weight; up to the whole weight it is the first with weight at which the weight so far is not below the roll; and it is the one that is drawn. So whatever a chain has been through, a step of it goes to an option with weight of the state it is in, or stays because that state has none, or is refused and changes nothing; and starting over takes it to where it began. -/
theorem draws_fall_as_weighed {α : Type} [BEq α] :
    (∀ options : List (α × Rat),
      (Undrawable options → ∃ fault, fault.kind = .value ∧
        ∀ (σ : Type) [Source σ Rat] (source : σ), choose options source = .error fault) ∧
      (¬Undrawable options → ∀ roll : Rat, ∃ place option, options[place]? = some option ∧ 0 < option.2 ∧
        (∀ other, FallsOn options roll other ↔ other = place) ∧
        (roll ≤ weightOf options → roll ≤ weightOf (options.take (place + 1)) ∧
          ∀ earlier < place, ∀ other, options[earlier]? = some other → 0 < other.2 →
            weightOf (options.take (earlier + 1)) < roll) ∧
        ∀ (σ : Type) [Source σ Rat] (source : σ), weightOf options * (Source.unit source : Rat × σ).1 = roll →
          choose options source = .ok (option.1, (Source.unit source : Rat × σ).2))) ∧
    ∀ (σ : Type) [Source σ Rat] (chain : Chain α Rat) (source : σ) (calls : List Chain.Call),
      let now := Chain.afterCalls (chain, source) calls
      let options := (chain.transitions.lookup now.1.state).getD []
      ((∃ place option, options[place]? = some option ∧ 0 < option.2 ∧
          FallsOn options (weightOf options * (Source.unit now.2 : Rat × σ).1) place ∧
          Chain.attempt now .step =
            ⟨({ chain with state := option.1 }, (Source.unit now.2 : Rat × σ).2), .quiet (.ok ())⟩) ∨
        (options = [] ∧ Chain.attempt now .step = ⟨now, .quiet (.ok ())⟩) ∨
        (options ≠ [] ∧ Undrawable options ∧
          ∃ fault, fault.kind = .value ∧ Chain.attempt now .step = ⟨now, .quiet (.error fault)⟩)) ∧
      Chain.attempt now .reset = ⟨({ chain with state := chain.initial }, now.2), .quiet (.ok ())⟩ := by
  refine ⟨fun options => ⟨choose_of_undrawable, fun hdrawable roll => ?_⟩, fun σ _ chain source calls => ?_⟩
  · obtain ⟨hnonneg, hsome⟩ := drawable hdrawable
    obtain ⟨place, option, hoption, hfalls, _⟩ := exists_fallsOn hnonneg hsome roll
    have honly : ∀ other, FallsOn options roll other ↔ other = place := fun other =>
      ⟨fun hother => hother.unique hnonneg hfalls, fun hsame => hsame ▸ hfalls⟩
    refine ⟨place, option, hoption, hfalls.weighty hoption, honly, hfalls.first hnonneg, fun σ _ source hroll => ?_⟩
    obtain ⟨drawn, own, hown, hdrawn, hchoose⟩ := choose_of_drawable hdrawable source
    rw [hroll, honly] at hdrawn
    rw [hdrawn, hoption] at hown
    rw [hchoose, Option.some.inj hown]
  · intro now options
    obtain ⟨state, hnow⟩ := Chain.afterCalls_chain (chain, source) calls
    have hoptions : now.1.options = options := by
      rw [Chain.options, show now.1.transitions = _ from congrArg Chain.transitions hnow]
    have hchain : ∀ state, ({ now.1 with state := state } : Chain α Rat) = { chain with state := state } := by
      intro state
      rw [show now.1 = _ from hnow]
    constructor
    · obtain ⟨place, option, hoption, hfalls, hstep⟩ | hstays | hrefused := Chain.attempt_step now
      · rw [hoptions] at hoption hfalls
        rw [hchain] at hstep
        exact .inl ⟨place, option, hoption, hfalls.weighty hoption, hfalls, hstep⟩
      · exact .inr (.inl (hoptions ▸ hstays))
      · exact .inr (.inr (hoptions ▸ hrefused))
    · rw [Chain.attempt_reset, Chain.reset, show now.1 = _ from hnow]

/-- A roll on the boundary of two options falls on the first of them, and a chain that has gone to a state without options stays there. -/
theorem draws_fall_as_weighed_boundary :
    (¬Undrawable [(7, 0), (1, 2), (7, 0), (3, (1 : Rat))] ∧ FallsOn [(7, 0), (1, 2), (7, 0), (3, (1 : Rat))] 2 1 ∧
      choose [(7, 0), (1, 2), (7, 0), (3, (1 : Rat))] (⟨#[2 / 3], 0⟩ : Script Rat) = .ok (1, ⟨#[2 / 3], 0⟩)) ∧
    ∃ now, now = Chain.afterCalls ((⟨[(0, [(0, 0), (5, 1)])], 0, 0⟩ : Chain Nat Rat), (⟨#[0], 0⟩ : Script Rat)) [.step] ∧
      now.1.state = 5 ∧ Chain.attempt now .step = ⟨now, .quiet (.ok ())⟩ := by
  obtain ⟨hdraws, hwalks⟩ := @draws_fall_as_weighed Nat _
  constructor
  · have hdrawable : ¬Undrawable [(7, 0), (1, 2), (7, 0), (3, (1 : Rat))] := by simp [Undrawable]
    have hfalls : FallsOn [(7, 0), (1, 2), (7, 0), (3, (1 : Rat))] 2 1 :=
      ⟨(1, 2), rfl, by norm_num, .inl (by norm_num [weightOf]), .inl (by norm_num [weightOf])⟩
    obtain ⟨place, option, hoption, _, honly, _, hchoose⟩ := (hdraws [(7, 0), (1, 2), (7, 0), (3, 1)]).2 hdrawable 2
    obtain rfl := (honly 1).1 hfalls
    obtain rfl : (1, 2) = option := Option.some.inj hoption
    refine ⟨hdrawable, hfalls, hchoose (Script Rat) ⟨#[2 / 3], 0⟩ ?_⟩
    change weightOf [(7, 0), (1, 2), (7, 0), (3, 1)] * (2 / 3) = 2
    norm_num [weightOf]
  · obtain ⟨hsteps, _⟩ := hwalks (Script Rat) ⟨[(0, [(0, 0), (5, 1)])], 0, 0⟩ ⟨#[0], 0⟩ [.step]
    have hstate : (Chain.afterCalls ((⟨[(0, [(0, 0), (5, 1)])], 0, 0⟩ : Chain Nat Rat), (⟨#[0], 0⟩ : Script Rat))
        [.step]).1.state = 5 := by
      decide +kernel
    refine ⟨_, rfl, hstate, ?_⟩
    rw [hstate] at hsteps
    obtain ⟨place, option, hoption, _⟩ | ⟨_, hstays⟩ | ⟨hsome, _⟩ := hsteps
    · change ([] : List (Nat × Rat))[place]? = some option at hoption
      rw [List.getElem?_nil] at hoption
      cases hoption
    · exact hstays
    · exact absurd rfl hsome

end TurtleMusic.Chance
