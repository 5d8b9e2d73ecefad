/-
This file is about rounding to the nearest. A number format is a set of points with values
in an ordered field, and a rounded result is a point whose value no other is closer to the
target than. Where two neighbouring values leave a gap, the result lies below the gap or
above it as the target lies below or above the middle.

The division of natural numbers that rounds halves to the even quotient is exact on
multiples, stays below every whole bound of the quotient, and is at most a half away.
-/

import Mathlib.Algebra.Order.Field.Basic
import Mathlib.Algebra.Order.Group.Unbundled.Abs
import Mathlib.Algebra.Order.Ring.Abs
import Mathlib.Tactic.FieldSimp
import Mathlib.Tactic.Linarith
import Mathlib.Tactic.Ring

namespace Rounding

/-! ### The nearest point -/

section Nearest

variable {Point K : Type} [Field K] [LinearOrder K] [IsStrictOrderedRing K]
  {points : Set Point} {value : Point → K} {target low high : K} {point : Point}

/-- No point is closer to the target. -/
def Nearest (points : Set Point) (value : Point → K) (target : K) (point : Point) : Prop :=
  ∀ other ∈ points, |value point - target| ≤ |value other - target|

/-- Two values with none between them. -/
structure Gap (points : Set Point) (value : Point → K) (low high : K) : Prop where
  order : low < high
  below : ∃ point ∈ points, value point = low
  above : ∃ point ∈ points, value point = high
  apart : ∀ point ∈ points, value point ≤ low ∨ high ≤ value point

theorem Nearest.le_of_lt_middle (nearest : Nearest points value target point)
    (member : point ∈ points) (gap : Gap points value low high)
    (lower : target < (low + high) / 2) : value point ≤ low := by
  obtain ⟨other, inside, same⟩ := gap.below
  have closer := nearest other inside
  rw [same] at closer
  refine (gap.apart point member).resolve_right fun higher => ?_
  have far : high - target ≤ |value point - target| :=
    (sub_le_sub_right higher target).trans (le_abs_self _)
  have near : |low - target| < high - target := by
    rw [abs_lt]
    exact ⟨by linarith [gap.order], by linarith [gap.order]⟩
  exact absurd (closer.trans_lt near) (not_lt.mpr far)

theorem Nearest.le_of_middle_lt (nearest : Nearest points value target point)
    (member : point ∈ points) (gap : Gap points value low high)
    (upper : (low + high) / 2 < target) : high ≤ value point := by
  obtain ⟨other, inside, same⟩ := gap.above
  have closer := nearest other inside
  rw [same] at closer
  refine (gap.apart point member).resolve_left fun under => ?_
  have far : target - low ≤ |value point - target| := by
    rw [abs_sub_comm]
    exact (sub_le_sub_left under target).trans (le_abs_self _)
  have near : |high - target| < target - low := by
    rw [abs_lt]
    exact ⟨by linarith [gap.order], by linarith [gap.order]⟩
  exact absurd (closer.trans_lt near) (not_lt.mpr far)

/-- In the middle the result is one of the two, and the other one is as close. -/
theorem Nearest.eq_of_middle (nearest : Nearest points value target point)
    (member : point ∈ points) (gap : Gap points value low high)
    (middle : target = (low + high) / 2) : value point = low ∨ value point = high := by
  obtain ⟨other, inside, same⟩ := gap.below
  have closer := nearest other inside
  have half : |low - target| = (high - low) / 2 := by
    rw [middle, abs_of_nonpos (by linarith [gap.order])]
    ring
  rw [same, half] at closer
  obtain ⟨least, most⟩ := abs_le.mp closer
  rcases gap.apart point member with lower | higher
  · exact Or.inl (le_antisymm lower (by linarith))
  · exact Or.inr (le_antisymm (by linarith) higher)

/-- Where the middle goes up, the result is below the gap just for the targets below the middle. -/
theorem Nearest.lt_iff (nearest : Nearest points value target point) (member : point ∈ points)
    (gap : Gap points value low high) (up : target = (low + high) / 2 → value point ≠ low) :
    value point < high ↔ target < (low + high) / 2 := by
  rcases lt_trichotomy target ((low + high) / 2) with lower | middle | upper
  · have least := nearest.le_of_lt_middle member gap lower
    exact iff_of_true (least.trans_lt gap.order) lower
  · have same := (nearest.eq_of_middle member gap middle).resolve_left (up middle)
    exact iff_of_false (not_lt.mpr same.ge) middle.not_lt
  · have most := nearest.le_of_middle_lt member gap upper
    exact iff_of_false (not_lt.mpr most) upper.not_gt

/-- Where the middle goes down, the result is above the gap just for the targets above the
middle. -/
theorem Nearest.gt_iff (nearest : Nearest points value target point) (member : point ∈ points)
    (gap : Gap points value low high) (down : target = (low + high) / 2 → value point ≠ high) :
    low < value point ↔ (low + high) / 2 < target := by
  rcases lt_trichotomy target ((low + high) / 2) with lower | middle | upper
  · have least := nearest.le_of_lt_middle member gap lower
    exact iff_of_false (not_lt.mpr least) lower.not_gt
  · have same := (nearest.eq_of_middle member gap middle).resolve_right (down middle)
    exact iff_of_false (not_lt.mpr same.le) (not_lt.mpr middle.le)
  · have most := nearest.le_of_middle_lt member gap upper
    exact iff_of_true (gap.order.trans_le most) upper

end Nearest

/-! ### Division to the nearest -/

/-- The quotient, rounded to the nearest, and from the middle to the even one. -/
def halfEven (number divisor : Nat) : Nat :=
  let rest := number % divisor
  if 2 * rest < divisor ∨ 2 * rest = divisor ∧ number / divisor % 2 = 0 then number / divisor
  else number / divisor + 1

theorem halfEven_mul {divisor : Nat} (positive : 0 < divisor) (number : Nat) :
    halfEven (number * divisor) divisor = number := by
  rw [halfEven, Nat.mul_mod_left, Nat.mul_div_cancel number positive]
  exact if_pos (Or.inl positive)

/-- A whole bound of the quotient bounds what it is rounded to. -/
theorem halfEven_le {number divisor bound : Nat} (positive : 0 < divisor)
    (small : number ≤ bound * divisor) : halfEven number divisor ≤ bound := by
  have quotient : number / divisor ≤ bound := Nat.div_le_of_le_mul (by rwa [Nat.mul_comm])
  rw [halfEven]
  split
  · exact quotient
  · rename_i up
    refine Nat.lt_of_le_of_ne quotient fun same => up (Or.inl ?_)
    have rest : number % divisor = 0 := by
      have whole := Nat.div_add_mod number divisor
      rw [same, Nat.mul_comm] at whole
      omega
    rw [rest]
    exact positive

/-- The error is at most a half. -/
theorem halfEven_error {K : Type} [Field K] [LinearOrder K] [IsStrictOrderedRing K]
    (number : Nat) {divisor : Nat} (positive : 0 < divisor) :
    |(halfEven number divisor : K) - number / divisor| ≤ 1 / 2 := by
  have scale : (0 : K) < divisor := Nat.cast_pos.mpr positive
  have whole : (number : K) = divisor * (number / divisor : Nat) + (number % divisor : Nat) := by
    rw [← Nat.cast_mul, ← Nat.cast_add, Nat.div_add_mod]
  have quotient : (number : K) / divisor =
      (number / divisor : Nat) + (number % divisor : Nat) / divisor := by
    rw [whole, add_div, mul_div_cancel_left₀ _ scale.ne']
  have rest := Nat.mod_lt number positive
  rw [quotient, halfEven]
  split
  · rename_i down
    have half : 2 * (number % divisor) ≤ divisor := by omega
    have bound : ((number % divisor : Nat) : K) / divisor ≤ 1 / 2 := by
      rw [div_le_div_iff₀ scale two_pos, one_mul, mul_comm]
      exact_mod_cast half
    have nonneg : (0 : K) ≤ (number % divisor : Nat) / divisor :=
      div_nonneg (Nat.cast_nonneg _) scale.le
    rw [abs_le]
    exact ⟨by linarith, by linarith⟩
  · rename_i up
    have half : divisor ≤ 2 * (number % divisor) := by omega
    have bound : 1 / 2 ≤ ((number % divisor : Nat) : K) / divisor := by
      rw [div_le_div_iff₀ two_pos scale, one_mul, mul_comm]
      exact_mod_cast half
    have less : ((number % divisor : Nat) : K) / divisor ≤ 1 := by
      rw [div_le_one scale]
      exact_mod_cast rest.le
    rw [abs_le, Nat.cast_add_one]
    exact ⟨by linarith, by linarith⟩

end Rounding
