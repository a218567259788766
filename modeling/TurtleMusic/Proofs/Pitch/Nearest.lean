import TurtleMusic.Proofs.Pitch.Fold

/-!
# The nearest pitch

Finding the nearest pitch first and clamping it afterwards comes to the same as choosing among the pitches in the range. If the nearest pitch lies beyond one end of a range that spans an octave, every pitch of its class in the range lies on the other side of the reference or on this side of that end, and the one nearest to that end is nearest to the reference.
-/

namespace TurtleMusic.Pitch

variable {low high : Int}

/-- A pitch of a class and a range that is nearest to a reference, and the higher one of two. -/
structure IsNearest (low high reference pitchClass pitch : Int) : Prop where
  low_le : low ≤ pitch
  le_high : pitch ≤ high
  emod : pitch % 12 = pitchClass % 12
  closest {other : Int} (hlow : low ≤ other) (hhigh : other ≤ high) (hclass : other % 12 = pitchClass % 12) :
    (pitch - reference).natAbs ≤ (other - reference).natAbs
  upper {other : Int} (hlow : low ≤ other) (hhigh : other ≤ high) (hclass : other % 12 = pitchClass % 12)
    (htie : (other - reference).natAbs = (pitch - reference).natAbs) : other ≤ pitch

/-- Only the class of the pitch looked for matters. -/
theorem IsNearest.of_emod_eq {reference pitchClass other pitch : Int} (hnearest : IsNearest low high reference pitchClass pitch)
    (hclass : pitchClass % 12 = other % 12) : IsNearest low high reference other pitch where
  low_le := hnearest.low_le
  le_high := hnearest.le_high
  emod := hnearest.emod.trans hclass
  closest hlow hhigh hother := hnearest.closest hlow hhigh (hother.trans hclass.symm)
  upper hlow hhigh hother := hnearest.upper hlow hhigh (hother.trans hclass.symm)

/-- The nearest pitch is at most six half steps away, and six below only if six above would be too high. -/
theorem nearestUnbounded_bounds (reference pitchClass : Int) (high : Option Int) :
    reference - 6 ≤ nearestUnbounded reference pitchClass high ∧ nearestUnbounded reference pitchClass high ≤ reference + 6 ∧
      (nearestUnbounded reference pitchClass high = reference - 6 → ∃ bound, high = some bound ∧ bound < reference + 6) := by
  simp only [nearestUnbounded]
  split
  · omega
  · split
    · omega
    · cases high with
      | none =>
        rw [Option.any_none, if_neg Bool.false_ne_true]
        omega
      | some bound =>
        simp only [Option.any_some, decide_eq_true_eq, Option.some.injEq, exists_eq_left']
        split <;> omega

theorem clampInto_isNearest (hspan : 11 ≤ high - low) (reference pitchClass : Int) :
    IsNearest low high reference pitchClass (clampInto low high (nearestUnbounded reference pitchClass (some high))) := by
  obtain ⟨hleast, hmost, htie⟩ := nearestUnbounded_bounds reference pitchClass (some high)
  simp only [Option.some.injEq, exists_eq_left'] at htie
  have hclass := nearestUnbounded_emod reference pitchClass (some high)
  generalize nearestUnbounded reference pitchClass (some high) = found at hleast hmost htie hclass ⊢
  obtain ⟨hlow, hhigh⟩ := clampInto_mem hspan found
  have hkept := clampInto_emod low high found
  -- Beyond an end of the range, all pitches of the class in the range lie on one side of the reference.
  by_cases habove : high < found
  · have htop := lt_clampInto hspan habove
    generalize clampInto low high found = pitch at hlow hhigh hkept htop ⊢
    constructor <;> intros <;> omega
  · by_cases hbelow : found < low
    · have hbottom := clampInto_lt hbelow (Int.not_lt.1 habove)
      generalize clampInto low high found = pitch at hlow hhigh hkept hbottom ⊢
      constructor <;> intros <;> omega
    · rw [clampInto_of_mem (Int.not_lt.1 hbelow) (Int.not_lt.1 habove)]
      constructor <;> intros <;> omega

theorem nearest_ok (hspan : 11 ≤ high - low) {reference pitchClass pitch : Int}
    (hnearest : nearest reference pitchClass (some low) (some high) = .ok pitch) :
    IsNearest low high reference pitchClass pitch := by
  cases (nearest_eq_ok hspan reference pitchClass).symm.trans hnearest
  exact clampInto_isNearest hspan reference pitchClass

/-- Within a range that spans an octave the pitch that is found is nearest to the reference among all pitches of its class there, and the higher one of two. Without a range it is so among all pitches, and at most six half steps away. -/
theorem nearest_is_nearest (reference pitchClass low high : Int) :
    (11 ≤ high - low → ∃ pitch, nearest reference pitchClass (some low) (some high) = .ok pitch ∧
      IsNearest low high reference pitchClass pitch) ∧
    ∃ pitch, nearest reference pitchClass none none = .ok pitch ∧ pitch % 12 = pitchClass % 12 ∧
      (pitch - reference).natAbs ≤ 6 ∧
      ∀ other, other % 12 = pitchClass % 12 → (pitch - reference).natAbs ≤ (other - reference).natAbs ∧
        ((other - reference).natAbs = (pitch - reference).natAbs → other ≤ pitch) := by
  constructor
  · intro hspan
    exact ⟨_, nearest_eq_ok hspan reference pitchClass, clampInto_isNearest hspan reference pitchClass⟩
  · obtain ⟨hleast, hmost, htie⟩ := nearestUnbounded_bounds reference pitchClass none
    have hclass := nearestUnbounded_emod reference pitchClass none
    have hupper : nearestUnbounded reference pitchClass none ≠ reference - 6 := by
      intro hbelow
      obtain ⟨bound, hbound, -⟩ := htie hbelow
      cases hbound
    exact ⟨_, rfl, hclass, by omega, fun other hother => ⟨by omega, by omega⟩⟩

/-- A tritone either way: the higher pitch if the range holds it, and always without a range. -/
theorem nearest_is_nearest_tied : (11 : Int) ≤ 62 - 48 ∧ nearest 60 6 (some 48) (some 62) = .ok 54 ∧
    IsNearest 48 62 60 6 54 ∧ nearest 60 6 none none = .ok 66 := by
  obtain ⟨⟨pitch, hpitch, hnearest⟩, free, hfree, hclass, -, hclosest⟩ :=
    (nearest_is_nearest 60 6 48 62).imp_left fun h => h (by decide)
  have hwithin : pitch = 54 := by
    obtain ⟨hlow, hhigh, hclass, -, -⟩ := hnearest
    omega
  have hupper : free = 66 := by
    have hthis := hclosest 66 (by decide)
    omega
  subst hwithin hupper
  exact ⟨by decide, hpitch, hnearest, hfree⟩

end TurtleMusic.Pitch
