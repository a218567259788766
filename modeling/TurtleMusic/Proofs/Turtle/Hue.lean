import TurtleMusic.Turtle.Hue

/-!
# Hues inside their range

However far a hue has left the range, bouncing off the ends brings it back in. Where it settles is told by a triangle wave: seen from the lower end, both bounces mirror the place of the hue, and the wave is the same on both sides of every turning point. Each bounce takes one width of the range from the distance to it.
-/

namespace TurtleMusic.Hue

theorem bounce_mem (low high : Int) (hwidth : low < high) (hue : Int) :
    low ≤ bounce low high hwidth hue ∧ bounce low high hwidth hue ≤ high := by
  fun_induction bounce low high hwidth hue with
  | case1 _ _ ih => exact ih
  | case2 _ _ _ ih => exact ih
  | case3 hue hbelow habove => exact ⟨Int.not_lt.1 habove, Int.not_lt.1 hbelow⟩

theorem visible_mem (hue : Int) : lowest ≤ visible hue ∧ visible hue ≤ highest :=
  bounce_mem lowest highest (by decide) hue

/-! ### The triangle wave -/

/-- From nought up to the width and down again, over and over. -/
def wave (width place : Int) : Int :=
  let phase := place % (2 * width)
  if phase ≤ width then phase else 2 * width - phase

section Wave

variable {width : Int} (hwidth : 0 < width)

theorem wave_add_periods (width place periods : Int) : wave width (place + periods * (2 * width)) = wave width place := by
  rw [wave, wave, Int.add_mul_emod_self_right]

include hwidth

theorem wave_mem (place : Int) : 0 ≤ wave width place ∧ wave width place ≤ width := by
  have hleast := Int.emod_nonneg place (show 2 * width ≠ 0 by omega)
  have hmost := Int.emod_lt_of_pos place (show 0 < 2 * width by omega)
  simp only [wave]
  split <;> omega

theorem wave_of_mem {place : Int} (hleast : 0 ≤ place) (hmost : place ≤ width) : wave width place = place := by
  rw [wave, Int.emod_eq_of_lt hleast (by omega)]
  exact if_pos hmost

theorem wave_neg (place : Int) : wave width (-place) = wave width place := by
  have hleast := Int.emod_nonneg place (show 2 * width ≠ 0 by omega)
  simp only [wave]
  rw [Int.neg_emod]
  by_cases hturning : 2 * width ∣ place
  · rw [if_pos hturning, Int.emod_eq_zero_of_dvd hturning]
  · -- The phases of a place and its mirror image make up one period.
    have hphase : place % (2 * width) ≠ 0 := fun hnone => hturning (Int.dvd_of_emod_eq_zero hnone)
    rw [if_neg hturning]
    split <;> split <;> omega

end Wave

/-! ### The bounces -/

/-- How far a hue is from its range. -/
def overshoot (low high hue : Int) : Int :=
  if hue > high then hue - high else if hue < low then low - hue else 0

/-- From the first hue to the settled one in so many bounces, each off the end that was crossed, until the hue is in the range. -/
inductive Bounces (low high : Int) : Int → Nat → Int → Prop
  | settled {hue : Int} (hlow : low ≤ hue) (hhigh : hue ≤ high) : Bounces low high hue 0 hue
  | offHigh {hue last : Int} {count : Nat} (habove : high < hue) (hrest : Bounces low high (2 * high - hue) count last) :
      Bounces low high hue (count + 1) last
  | offLow {hue last : Int} {count : Nat} (hbelow : hue < low) (hrest : Bounces low high (2 * low - hue) count last) :
      Bounces low high hue (count + 1) last

variable {low high : Int} (hwidth : low < high)

theorem overshoot_pos {hue : Int} (hout : high < hue ∨ hue < low) : 0 < overshoot low high hue := by
  rw [overshoot]
  split
  · omega
  · rw [if_pos (by omega)]
    omega

/-- A bounce takes one width of the range from the distance. -/
theorem overshoot_offHigh {hue : Int} (habove : high < hue) :
    overshoot low high (2 * high - hue) = max 0 (overshoot low high hue - (high - low)) := by
  rw [overshoot, overshoot, if_neg (by omega), if_pos habove]
  split <;> omega

include hwidth in
theorem overshoot_offLow {hue : Int} (hbelow : hue < low) :
    overshoot low high (2 * low - hue) = max 0 (overshoot low high hue - (high - low)) := by
  rw [overshoot, overshoot, if_neg (show ¬hue > high by omega), if_pos hbelow]
  split
  · omega
  · rw [if_neg (by omega)]
    omega

/-- With one bounce more goes a distance that is larger by one width, or by all that there is of it. -/
theorem bounces_succ {count : Nat} {before width : Int} (hpositive : 0 < before) (hwidth : 0 < width)
    (hcount : max 0 (before - width) ≤ count * width ∧ count * width < max 0 (before - width) + width) :
    before ≤ (count + 1 : Nat) * width ∧ (count + 1 : Nat) * width < before + width := by
  rw [Int.natCast_succ, Int.add_mul, Int.one_mul]
  cases count with
  | zero =>
    rw [Int.natCast_zero, Int.zero_mul] at hcount ⊢
    omega
  | succ count =>
    have hwhole : 0 ≤ count * width := Int.mul_nonneg (Int.natCast_nonneg count) (Int.le_of_lt hwidth)
    rw [Int.natCast_succ, Int.add_mul, Int.one_mul] at hcount ⊢
    omega

/-- A hue comes back in after as many bounces as there are widths of the range in the distance to it, a part of one counted as a whole. -/
theorem bounce_bounces (hue : Int) : ∃ count : Nat, Bounces low high hue count (bounce low high hwidth hue) ∧
    overshoot low high hue ≤ count * (high - low) ∧ count * (high - low) < overshoot low high hue + (high - low) := by
  have hpositive : 0 < high - low := by omega
  fun_induction bounce low high hwidth hue with
  | case1 hue habove ih =>
    obtain ⟨count, hrest, hcount⟩ := ih
    rw [overshoot_offHigh habove] at hcount
    exact ⟨count + 1, .offHigh habove hrest, bounces_succ (overshoot_pos (.inl habove)) hpositive hcount⟩
  | case2 hue _ hbelow ih =>
    obtain ⟨count, hrest, hcount⟩ := ih
    rw [overshoot_offLow hwidth hbelow] at hcount
    exact ⟨count + 1, .offLow hbelow hrest, bounces_succ (overshoot_pos (.inr hbelow)) hpositive hcount⟩
  | case3 hue hbelow habove =>
    refine ⟨0, .settled (Int.not_lt.1 habove) (Int.not_lt.1 hbelow), ?_⟩
    rw [overshoot, if_neg hbelow, if_neg habove, Int.natCast_zero, Int.zero_mul]
    omega

/-- Both ends of the range are turning points of the wave. -/
theorem bounce_eq_wave (hue : Int) : bounce low high hwidth hue = low + wave (high - low) (hue - low) := by
  have hpositive : 0 < high - low := by omega
  fun_induction bounce low high hwidth hue with
  | case1 hue habove ih =>
    have hmirrored : 2 * high - hue - low = -(hue - low) + 1 * (2 * (high - low)) := by omega
    rw [ih, hmirrored, wave_add_periods, wave_neg hpositive]
  | case2 hue _ hbelow ih =>
    have hmirrored : 2 * low - hue - low = -(hue - low) := by omega
    rw [ih, hmirrored, wave_neg hpositive]
  | case3 hue hbelow habove =>
    rw [wave_of_mem hpositive (by omega) (by omega)]
    omega

/-! ### Reflecting -/

include hwidth in
theorem reflect_of_lt (hue : Int) : reflect hue low high = .ok (low + wave (high - low) (hue - low)) := by
  rw [reflect, dif_pos hwidth, bounce_eq_wave]

theorem reflect_eq_error_iff (hue low high : Int) (fault : Fault) :
    reflect hue low high = .error fault ↔ high < low ∧ fault = .hueBounds low high := by
  rw [reflect]
  by_cases hwidth : low < high
  · rw [dif_pos hwidth]
    exact iff_of_false (fun hok => nomatch hok) fun hempty => absurd hwidth (Int.lt_asymm hempty.1)
  · rw [dif_neg hwidth]
    by_cases hpoint : low = high
    · rw [if_pos hpoint]
      exact iff_of_false (fun hok => nomatch hok) fun hempty => Int.ne_of_gt hempty.1 hpoint
    · rw [if_neg hpoint, Except.error.injEq, eq_comm]
      exact (and_iff_right (by omega)).symm

/-- In a range of some width a hue settles after finitely many bounces, and where it settles is a triangle wave: in the range always, unmoved if it was there, and the same for hues that are a whole number of periods apart. Only a range whose ends are in the wrong order is refused. -/
theorem reflect_wave (hue low high : Int) :
    (low < high → ∃ last, reflect hue low high = .ok last ∧ last = low + wave (high - low) (hue - low) ∧
      (∃ count : Nat, Bounces low high hue count last ∧ overshoot low high hue ≤ count * (high - low) ∧
        count * (high - low) < overshoot low high hue + (high - low)) ∧
      low ≤ last ∧ last ≤ high ∧ (low ≤ hue → hue ≤ high → last = hue) ∧
      ∀ periods, reflect (hue + periods * (2 * (high - low))) low high = .ok last) ∧
    (∀ fault, reflect hue low high = .error fault ↔ high < low ∧ fault = .hueBounds low high) ∧
    (Fault.hueBounds low high).kind = .value := by
  refine ⟨fun hwidth => ?_, reflect_eq_error_iff hue low high, rfl⟩
  have hpositive : 0 < high - low := by omega
  obtain ⟨hleast, hmost⟩ := wave_mem hpositive (hue - low)
  have hbounces := bounce_bounces hwidth hue
  rw [bounce_eq_wave] at hbounces
  refine ⟨_, reflect_of_lt hwidth hue, rfl, hbounces, by omega, by omega, fun hlow hhigh => ?_, fun periods => ?_⟩
  · rw [wave_of_mem hpositive (by omega) (by omega)]
    omega
  · have hplace : hue + periods * (2 * (high - low)) - low = hue - low + periods * (2 * (high - low)) := by omega
    rw [reflect_of_lt hwidth, hplace, wave_add_periods]

/-- Four bounces bring a hue of two thousand back into sight. -/
theorem reflect_wave_far : lowest < highest ∧ reflect 2000 lowest highest = .ok 520 ∧
    (∃ count : Nat, Bounces lowest highest 2000 count 520 ∧ 1250 ≤ (count : Int) * 370 ∧ (count : Int) * 370 < 1620) ∧
    reflect (2000 + 3 * 740) lowest highest = .ok 520 := by
  obtain ⟨last, hlast, hwave, hbounces, -, -, -, hperiods⟩ := (reflect_wave 2000 lowest highest).1 (by decide)
  rw [show lowest + wave (highest - lowest) (2000 - lowest) = 520 by decide] at hwave
  subst hwave
  exact ⟨by decide, hlast, hbounces, hperiods 3⟩

end TurtleMusic.Hue
