import Mathlib.Algebra.Order.BigOperators.Group.List
import Mathlib.Algebra.Order.Field.Basic
import Mathlib.Data.List.Induction
import Mathlib.Tactic.Linarith
import TurtleMusic.Proofs.Chance.Draw

/-!
# Where rolls fall

With exact weights every option has the rolls above the weight of the options before it and up to its own weight more, and no others reach it. Rolls go from nought to the whole weight as draws go from nought to one, so each option that has weight is drawn by some draw on the unit scale.
-/

namespace TurtleMusic.Chance

open TurtleMusic.Number

variable {α : Type}

/-- The weight of some options taken together. -/
def weightOf (options : List (α × Rat)) : Rat := (options.map (·.2)).sum

@[simp] theorem weightOf_nil : weightOf ([] : List (α × Rat)) = 0 := rfl

theorem weightOf_append (left right : List (α × Rat)) : weightOf (left ++ right) = weightOf left + weightOf right := by
  rw [weightOf, List.map_append, List.sum_append]
  rfl

theorem weightOf_cons (option : α × Rat) (options : List (α × Rat)) :
    weightOf (option :: options) = option.2 + weightOf options := List.sum_cons

theorem weightOf_nonneg {options : List (α × Rat)} (hoptions : ∀ option ∈ options, 0 ≤ option.2) :
    0 ≤ weightOf options := by
  apply List.sum_nonneg
  intro weight hweight
  obtain ⟨option, hoption, rfl⟩ := List.mem_map.1 hweight
  exact hoptions option hoption

theorem weightOf_eq_zero {options : List (α × Rat)} (hoptions : ∀ option ∈ options, option.2 = 0) :
    weightOf options = 0 := by
  apply List.sum_eq_zero
  intro weight hweight
  obtain ⟨option, hoption, rfl⟩ := List.mem_map.1 hweight
  exact hoptions option hoption

theorem weightOf_take_succ {options : List (α × Rat)} {place : Nat} {option : α × Rat}
    (hoption : options[place]? = some option) :
    weightOf (options.take (place + 1)) = weightOf (options.take place) + option.2 := by
  rw [List.take_add_one, hoption, weightOf_append, Option.toList_some, weightOf_cons, weightOf_nil, add_zero]

theorem weightOf_take_le {options : List (α × Rat)} (hoptions : ∀ option ∈ options, 0 ≤ option.2) {first second : Nat}
    (hle : first ≤ second) : weightOf (options.take first) ≤ weightOf (options.take second) := by
  have hmore : 0 ≤ weightOf ((options.take second).drop first) :=
    weightOf_nonneg fun option hoption => hoptions option (List.mem_of_mem_take (List.mem_of_mem_drop hoption))
  have hparts := weightOf_append ((options.take second).take first) ((options.take second).drop first)
  rw [List.take_append_drop, List.take_take, Nat.min_eq_left hle] at hparts
  linarith

theorem totalWeight_eq_weightOf (options : List (α × Rat)) : totalWeight options = weightOf options := by
  rw [weightOf, ← sum_rat, sum, List.foldl_map]
  rfl

/-- A roll beyond the weight of some options goes on to those behind them. -/
theorem reach_append {roll reached : Rat} {left : List (α × Rat)} (hleft : ∀ option ∈ left, 0 ≤ option.2)
    (hbeyond : reached + weightOf left < roll) (right : List (α × Rat)) :
    reach roll reached (left ++ right) = reach roll (reached + weightOf left) right := by
  induction left generalizing reached with
  | nil => rw [weightOf_nil, add_zero, List.nil_append]
  | cons option rest ih =>
    rw [List.forall_mem_cons] at hleft
    rw [weightOf_cons, ← add_assoc] at hbeyond
    have hrest := weightOf_nonneg hleft.2
    rw [List.cons_append, reach, weightOf_cons, ← add_assoc]
    split
    · next hnone =>
      rw [show option.2 = 0 from le_antisymm hnone hleft.1, add_zero] at hbeyond ⊢
      exact ih hleft.2 hbeyond
    · have hpast : ¬roll ≤ reached + option.2 := by linarith
      rw [if_neg hpast]
      exact ih hleft.2 hbeyond

/-- A roll above the weight of the options before an option, and no further above it than the weight of its own, falls on it. -/
theorem reach_option {roll : Rat} {left right : List (α × Rat)} {option : α × Rat} (hleft : ∀ other ∈ left, 0 ≤ other.2)
    (hbeyond : weightOf left < roll) (hupto : roll ≤ weightOf left + option.2) :
    reach roll 0 (left ++ option :: right) = some option.1 := by
  have hweight : ¬option.2 ≤ 0 := by linarith
  rw [reach_append hleft (by rwa [zero_add]), zero_add, reach, if_neg hweight, if_pos hupto]

/-! ### The option of a roll -/

/-- Nothing can be drawn: there are no options, or one has a negative weight, or none has any. -/
def Undrawable (options : List (α × Rat)) : Prop :=
  options = [] ∨ (∃ option ∈ options, option.2 < 0) ∨ ∀ option ∈ options, option.2 = 0

/-- The roll falls on the option at a place, which has weight: it is above the weight of the options before it and not above theirs and its own together. Rolls that are not above nought also fall on the first option that has weight, and those above the whole weight on the last. -/
def FallsOn (options : List (α × Rat)) (roll : Rat) (place : Nat) : Prop :=
  ∃ option, options[place]? = some option ∧ 0 < option.2 ∧
    (weightOf (options.take place) < roll ∨ roll ≤ 0 ∧ weightOf (options.take place) = 0) ∧
    (roll ≤ weightOf (options.take (place + 1)) ∨
      weightOf options < roll ∧ weightOf (options.take (place + 1)) = weightOf options)

/-- Only options that have weight are fallen on. -/
theorem FallsOn.weighty {options : List (α × Rat)} {roll : Rat} {place : Nat} {option : α × Rat}
    (hfalls : FallsOn options roll place) (hoption : options[place]? = some option) : 0 < option.2 := by
  obtain ⟨own, hown, hweight, _⟩ := hfalls
  rw [hoption] at hown
  cases hown
  exact hweight

/-- Options without negative weights, one of which has weight. -/
theorem drawable {options : List (α × Rat)} (hoptions : ¬Undrawable options) :
    (∀ option ∈ options, 0 ≤ option.2) ∧ ∃ option ∈ options, 0 < option.2 := by
  simp only [Undrawable, not_or, not_exists, not_and, not_lt] at hoptions
  obtain ⟨_, hnonneg, hsome⟩ := hoptions
  refine ⟨hnonneg, ?_⟩
  by_contra hnone
  refine hsome fun option hoption => le_antisymm (not_lt.1 fun hpos => hnone ⟨option, hoption, hpos⟩) (hnonneg option hoption)

theorem refusal?_of_undrawable {options : List (α × Rat)} (hoptions : Undrawable options) :
    ∃ fault, refusal? options = some fault ∧ fault.kind = .value := by
  rw [refusal?]
  split
  · exact ⟨_, rfl, rfl⟩
  · next hsome =>
    split
    · exact ⟨_, rfl, rfl⟩
    · next hnonneg =>
      obtain rfl | ⟨option, hoption, hnegative⟩ | hnone := hoptions
      · exact absurd rfl hsome
      · exact absurd (List.any_eq_true.2 ⟨option, hoption, decide_eq_true hnegative⟩) hnonneg
      · have htotal : totalWeight options ≤ 0 := by
          rw [totalWeight_eq_weightOf, weightOf_eq_zero hnone]
        rw [if_pos htotal]
        exact ⟨_, rfl, rfl⟩

/-- A roll reaches the option that it falls on; beyond the whole weight, and only there unless nothing has weight, it reaches none. -/
theorem reach_cases {options : List (α × Rat)} (hoptions : ∀ option ∈ options, 0 ≤ option.2) (roll reached : Rat) :
    (∃ left option right, options = left ++ option :: right ∧ reach roll reached options = some option.1 ∧ 0 < option.2 ∧
      (reached + weightOf left < roll ∨ weightOf left = 0) ∧ roll ≤ reached + weightOf left + option.2) ∨
    reach roll reached options = none ∧ (reached + weightOf options < roll ∨ ∀ option ∈ options, option.2 = 0) := by
  induction options generalizing reached with
  | nil => exact .inr ⟨rfl, .inr (List.forall_mem_nil _)⟩
  | cons first rest ih =>
    rw [List.forall_mem_cons] at hoptions
    rw [reach]
    split
    · next hnone =>
      -- The option is passed over, and having no weight it does not count among those before either.
      have hzero : first.2 = 0 := le_antisymm hnone hoptions.1
      obtain ⟨left, option, right, rfl, hreach, hweight, hbeyond, hupto⟩ | ⟨hreach, hbeyond⟩ := ih hoptions.2 reached
      · refine .inl ⟨first :: left, option, right, rfl, hreach, hweight, ?_⟩
        rw [weightOf_cons, hzero, zero_add]
        exact ⟨hbeyond, hupto⟩
      · refine .inr ⟨hreach, ?_⟩
        rw [weightOf_cons, hzero, zero_add, List.forall_mem_cons]
        exact hbeyond.imp_right fun hrest => ⟨hzero, hrest⟩
    · next hpos =>
      split
      · next hfirst =>
        refine .inl ⟨[], first, rest, rfl, rfl, not_le.1 hpos, .inr rfl, ?_⟩
        rwa [weightOf_nil, add_zero]
      · next hpast =>
        have hrest := ih hoptions.2 (reached + first.2)
        obtain ⟨left, option, right, rfl, hreach, hweight, hbeyond, hupto⟩ | ⟨hreach, hbeyond⟩ := hrest
        · refine .inl ⟨first :: left, option, right, rfl, hreach, hweight, .inl ?_, ?_⟩
          · rw [weightOf_cons, ← add_assoc]
            rcases hbeyond with hbeyond | hnone
            · exact hbeyond
            · linarith
          · rwa [weightOf_cons, ← add_assoc]
        · refine .inr ⟨hreach, .inl ?_⟩
          rw [weightOf_cons, ← add_assoc]
          rcases hbeyond with hbeyond | hnone
          · exact hbeyond
          · have hrest := weightOf_eq_zero hnone
            linarith

theorem exists_last_weighty {options : List (α × Rat)} (hsome : ∃ option ∈ options, 0 < option.2)
    (hoptions : ∀ option ∈ options, 0 ≤ option.2) :
    ∃ left option right, options = left ++ option :: right ∧ 0 < option.2 ∧ (∀ other ∈ right, other.2 = 0) ∧
      (options.filter fun option => 0 < option.2).getLast? = some option := by
  induction options using List.reverseRecOn with
  | nil =>
    obtain ⟨_, hmem, _⟩ := hsome
    exact absurd hmem List.not_mem_nil
  | append_singleton front last ih =>
    by_cases hlast : 0 < last.2
    · refine ⟨front, last, [], rfl, hlast, List.forall_mem_nil _, ?_⟩
      simp [hlast]
    · have hfront : ∃ option ∈ front, 0 < option.2 := by
        obtain ⟨option, hmem, hweight⟩ := hsome
        rcases List.mem_append.1 hmem with hmem | hmem
        · exact ⟨option, hmem, hweight⟩
        · exact absurd (List.mem_singleton.1 hmem ▸ hweight) hlast
      obtain ⟨hbefore, hnonneg⟩ := List.forall_mem_append.1 hoptions
      obtain ⟨left, option, right, rfl, hweight, hright, hlater⟩ := ih hfront hbefore
      have hzero : last.2 = 0 := le_antisymm (not_lt.1 hlast) (hnonneg last (List.mem_singleton_self last))
      refine ⟨left, option, right ++ [last], by rw [List.append_assoc, List.cons_append], hweight, ?_, ?_⟩
      · exact List.forall_mem_append.2 ⟨hright, List.forall_mem_singleton.2 hzero⟩
      · simpa [hzero] using hlater

/-- Every roll falls on an option, and that is the one that is drawn. -/
theorem exists_fallsOn {options : List (α × Rat)} (hoptions : ∀ option ∈ options, 0 ≤ option.2)
    (hsome : ∃ option ∈ options, 0 < option.2) (roll : Rat) :
    ∃ place option, options[place]? = some option ∧ FallsOn options roll place ∧ pick options roll = some option.1 := by
  obtain ⟨left, option, right, rfl, hreach, hweight, hbeyond, hupto⟩ | ⟨hreach, hbeyond⟩ := reach_cases hoptions roll 0
  · have hplace : (left ++ option :: right)[left.length]? = some option := by simp
    rw [zero_add] at hbeyond hupto
    refine ⟨left.length, option, hplace, ⟨option, hplace, hweight, ?_, .inl ?_⟩, by rw [pick, hreach, Option.some_or]⟩
    · rw [List.take_left]
      rcases hbeyond with hbeyond | hfirst
      · exact .inl hbeyond
      · rcases lt_or_ge 0 roll with hpos | hnonpos
        · exact .inl (hfirst.symm ▸ hpos)
        · exact .inr ⟨hnonpos, hfirst⟩
    · rwa [weightOf_take_succ hplace, List.take_left]
  · have htotal : weightOf options < roll := by
      rcases hbeyond with hbeyond | hnone
      · rwa [zero_add] at hbeyond
      · obtain ⟨option, hmem, hweight⟩ := hsome
        exact absurd (hnone option hmem) hweight.ne'
    obtain ⟨left, option, right, rfl, hweight, hright, hlast⟩ := exists_last_weighty hsome hoptions
    have hplace : (left ++ option :: right)[left.length]? = some option := by simp
    have hwhole : weightOf (left ++ option :: right) = weightOf left + option.2 := by
      rw [weightOf_append, weightOf_cons, weightOf_eq_zero hright, add_zero]
    refine ⟨left.length, option, hplace, ⟨option, hplace, hweight, .inl ?_, .inr ⟨htotal, ?_⟩⟩, ?_⟩
    · rw [List.take_left]
      linarith
    · rw [weightOf_take_succ hplace, List.take_left, hwhole]
    · rw [pick, hreach, Option.none_or, hlast, Option.map_some]

theorem FallsOn.not_lt {options : List (α × Rat)} (hoptions : ∀ option ∈ options, 0 ≤ option.2) {roll : Rat}
    {first second : Nat} (hfirst : FallsOn options roll first) (hsecond : FallsOn options roll second) : ¬first < second := by
  intro hless
  obtain ⟨option, hoption, hweight, _, hupto⟩ := hfirst
  obtain ⟨other, hother, hotherWeight, hbeyond, _⟩ := hsecond
  have hbefore := weightOf_take_succ hoption
  have hbehind := weightOf_take_succ hother
  have hbetween := weightOf_take_le hoptions (Nat.succ_le_of_lt hless)
  have hstart : 0 ≤ weightOf (options.take first) :=
    weightOf_nonneg fun option hoption => hoptions option (List.mem_of_mem_take hoption)
  have hwhole : weightOf (options.take (second + 1)) ≤ weightOf options := by
    have hle := weightOf_take_le hoptions (Nat.le_max_left (second + 1) options.length)
    rwa [List.take_of_length_le (Nat.le_max_right _ _)] at hle
  rcases hbeyond with hbeyond | ⟨_, hnone⟩
  · rcases hupto with hupto | ⟨_, hlast⟩ <;> linarith
  · linarith

/-- A roll falls on no two options. -/
theorem FallsOn.unique {options : List (α × Rat)} (hoptions : ∀ option ∈ options, 0 ≤ option.2) {roll : Rat}
    {first second : Nat} (hfirst : FallsOn options roll first) (hsecond : FallsOn options roll second) : first = second :=
  Nat.le_antisymm (Nat.not_lt.1 (hsecond.not_lt hoptions hfirst)) (Nat.not_lt.1 (hfirst.not_lt hoptions hsecond))

/-- The option that a roll up to the whole weight falls on is the first one with weight at which the weight so far is not below the roll. -/
theorem FallsOn.first {options : List (α × Rat)} (hoptions : ∀ option ∈ options, 0 ≤ option.2) {roll : Rat} {place : Nat}
    (hfalls : FallsOn options roll place) (hroll : roll ≤ weightOf options) :
    roll ≤ weightOf (options.take (place + 1)) ∧
      ∀ earlier < place, ∀ option, options[earlier]? = some option → 0 < option.2 →
        weightOf (options.take (earlier + 1)) < roll := by
  obtain ⟨own, _, _, hbeyond, hupto⟩ := hfalls
  refine ⟨hupto.resolve_right fun hpast => absurd hroll (not_le.2 hpast.1), fun earlier hearlier option hoption hweight => ?_⟩
  have hbefore := weightOf_take_succ hoption
  have hbetween := weightOf_take_le hoptions (Nat.succ_le_of_lt hearlier)
  have hstart : 0 ≤ weightOf (options.take earlier) :=
    weightOf_nonneg fun option hoption => hoptions option (List.mem_of_mem_take hoption)
  rcases hbeyond with hbeyond | ⟨_, hnone⟩ <;> linarith

/-! ### Drawing -/

/-- What cannot be drawn from is refused, whatever would be drawn. -/
theorem choose_of_undrawable {options : List (α × Rat)} (hoptions : Undrawable options) :
    ∃ fault, fault.kind = .value ∧ ∀ (σ : Type) [Source σ Rat] (source : σ), choose options source = .error fault := by
  obtain ⟨fault, hfault, hkind⟩ := refusal?_of_undrawable hoptions
  refine ⟨fault, hkind, fun σ _ source => ?_⟩
  rw [choose_eq, hfault]

/-- From anything else one draw gives the option that the roll falls on. -/
theorem choose_of_drawable {σ : Type} [Source σ Rat] {options : List (α × Rat)} (hoptions : ¬Undrawable options) (source : σ) :
    ∃ place option, options[place]? = some option ∧
      FallsOn options (weightOf options * (Source.unit source : Rat × σ).1) place ∧
      choose options source = .ok (option.1, (Source.unit source : Rat × σ).2) := by
  obtain ⟨hnonneg, hsome⟩ := drawable hoptions
  obtain ⟨place, option, hoption, hfalls, hpick⟩ :=
    exists_fallsOn hnonneg hsome (weightOf options * (Source.unit source : Rat × σ).1)
  refine ⟨place, option, hoption, hfalls, ?_⟩
  rw [choose_eq, refusal?_eq_none (fun option hoption => not_lt.2 (hnonneg option hoption)) hsome]
  dsimp only
  rw [totalWeight_eq_weightOf, hpick]

/-- A draw that is refused has not touched the source: with exact weights every roll falls on an option. -/
theorem careful_draw {σ : Type} [Source σ Rat] (options : List (α × Rat)) : (draw options : Act σ α).Careful := by
  by_cases hoptions : Undrawable options
  · obtain ⟨fault, hfault, _⟩ := refusal?_of_undrawable hoptions
    rw [draw, hfault]
    exact Act.careful_throw fault
  · refine Act.Sure.careful (Act.sure_of_isOk fun source => ?_)
    obtain ⟨_, option, _, _, hchoose⟩ := choose_of_drawable hoptions source
    exact ⟨_, hchoose⟩

/-- An option that has weight is drawn by some draw on the unit scale. -/
theorem exists_draw {options : List (α × Rat)} (hoptions : ∀ option ∈ options, 0 ≤ option.2) {option : α × Rat}
    (hmem : option ∈ options) (hweight : 0 < option.2) :
    ∃ draw : Rat, 0 ≤ draw ∧ draw ≤ 1 ∧ ∀ (σ : Type) [Source σ Rat] (source : σ),
      (Source.unit source : Rat × σ).1 = draw → ∃ after, choose options source = .ok (option.1, after) := by
  obtain ⟨left, right, rfl⟩ := List.append_of_mem hmem
  have hleft : ∀ other ∈ left, 0 ≤ other.2 := fun other hother => hoptions other (List.mem_append_left _ hother)
  have hright : ∀ other ∈ right, 0 ≤ other.2 := fun other hother =>
    hoptions other (List.mem_append_right _ (List.mem_cons_of_mem _ hother))
  have hbefore := weightOf_nonneg hleft
  have hbehind := weightOf_nonneg hright
  have hwhole : weightOf (left ++ option :: right) = weightOf left + option.2 + weightOf right := by
    rw [weightOf_append, weightOf_cons, add_assoc]
  have htotal : 0 < weightOf (left ++ option :: right) := by
    rw [hwhole]
    linarith
  refine ⟨(weightOf left + option.2) / weightOf (left ++ option :: right), div_nonneg (by linarith) htotal.le, ?_, ?_⟩
  · rw [div_le_one htotal, hwhole]
    linarith
  · intro σ _ source hdraw
    have hroll : weightOf (left ++ option :: right) * ((weightOf left + option.2) / weightOf (left ++ option :: right)) =
        weightOf left + option.2 := mul_div_cancel₀ _ htotal.ne'
    have hpick : pick (left ++ option :: right) (weightOf left + option.2) = some option.1 := by
      rw [pick, reach_option hleft (by linarith) le_rfl, Option.some_or]
    rw [choose_eq, refusal?_eq_none (fun other hother => not_lt.2 (hoptions other hother)) ⟨option, hmem, hweight⟩]
    dsimp only
    rw [hdraw, totalWeight_eq_weightOf, hroll, hpick]
    exact ⟨_, rfl⟩

/-- A column that has weight is drawn by some draw on the unit scale. -/
theorem exists_draw_column {row : List Rat} (hrow : ∀ weight ∈ row, 0 ≤ weight) {column : Nat} (hcolumn : column < row.length)
    (hweight : 0 < row[column]) :
    ∃ draw : Rat, 0 ≤ draw ∧ draw ≤ 1 ∧ ∀ (σ : Type) [Source σ Rat] (source : σ),
      (Source.unit source : Rat × σ).1 = draw → ∃ after, chooseColumn row source = .ok (some column, after) := by
  have hcolumns : ∀ option ∈ columns row, 0 ≤ option.2 := by
    intro option hoption
    obtain ⟨entry, hentry, rfl⟩ := List.mem_map.1 hoption
    exact hrow _ (List.fst_mem_of_mem_zipIdx hentry)
  have hmem : (column, row[column]) ∈ columns row :=
    List.mem_map.2 ⟨(row[column], column), List.mk_mem_zipIdx_iff_getElem?.2 (List.getElem?_eq_getElem hcolumn), rfl⟩
  obtain ⟨draw, hlow, hhigh, hdraws⟩ := exists_draw hcolumns hmem hweight
  refine ⟨draw, hlow, hhigh, fun σ _ source hdraw => ?_⟩
  obtain ⟨after, hchoose⟩ := hdraws σ source hdraw
  have hany : (row.any fun weight => 0 < weight) = true :=
    List.any_eq_true.2 ⟨row[column], List.getElem_mem hcolumn, decide_eq_true hweight⟩
  rw [chooseColumn, if_pos hany, hchoose]
  exact ⟨after, rfl⟩

end TurtleMusic.Chance
