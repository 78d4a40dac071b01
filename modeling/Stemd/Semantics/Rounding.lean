import Mathlib.Algebra.Order.Floor.Ring
import Mathlib.Tactic.Linarith
import Mathlib.Tactic.Ring

/-! Rounding to the nearest integer, halves away from zero. -/

set_option autoImplicit false

namespace Stemd.Semantics

variable {K : Type} [Field K] [LinearOrder K] [IsStrictOrderedRing K] [FloorRing K]

def roundAway (x : K) : ℤ := if 0 ≤ x then ⌊x + 1 / 2⌋ else ⌈x - 1 / 2⌉

theorem roundAway_of_neg {x : K} (negative : x < 0) : roundAway x = -roundAway (-x) := by
  have shifted : x - 1 / 2 = -(-x + 1 / 2) := by ring
  rw [roundAway, if_neg (not_le.mpr negative), roundAway, if_pos (by linarith), shifted,
    Int.ceil_neg]

theorem roundAway_eq_iff_of_nonneg {x : K} (nonneg : 0 ≤ x) {n : ℤ} :
    roundAway x = n ↔ |n - x| < 1 / 2 ∨ |n - x| = 1 / 2 ∧ 0 < (n - x) * x := by
  rw [roundAway, if_pos nonneg, Int.floor_eq_iff]
  constructor
  · rintro ⟨lower, upper⟩
    rcases lower.lt_or_eq with inside | tie
    · exact .inl (abs_lt.mpr ⟨by linarith, by linarith⟩)
    · have half : (n - x : K) = 1 / 2 := by linarith
      -- Zero is no tie.
      have positive : 0 < x := by
        refine nonneg.lt_of_ne fun zero => ?_
        rw [← zero, sub_zero] at half
        have twice : (n : K) + n = 1 := by linarith
        have twice : n + n = 1 := by exact_mod_cast twice
        omega
      rw [half]
      exact .inr ⟨abs_of_pos (by norm_num), by linarith⟩
  · rintro (inside | ⟨tie, outward⟩)
    · obtain ⟨lower, upper⟩ := abs_lt.mp inside
      exact ⟨by linarith, by linarith⟩
    · rcases eq_or_eq_neg_of_abs_eq tie with above | below
      · exact ⟨by linarith, by linarith⟩
      · rw [below] at outward
        linarith

/-- The nearest integer, and of two the one that lies away from zero. -/
theorem roundAway_eq_iff {x : K} {n : ℤ} :
    roundAway x = n ↔ |n - x| < 1 / 2 ∨ |n - x| = 1 / 2 ∧ 0 < (n - x) * x := by
  rcases le_or_gt 0 x with nonneg | negative
  · exact roundAway_eq_iff_of_nonneg nonneg
  · have mirrored : ((-n : ℤ) : K) - -x = -(n - x) := by
      push_cast
      ring
    rw [roundAway_of_neg negative, neg_eq_iff_eq_neg, roundAway_eq_iff_of_nonneg (by linarith),
      mirrored, abs_neg, neg_mul_neg]

@[simp] theorem roundAway_zero : roundAway (0 : K) = 0 := by
  rw [roundAway_eq_iff]
  simp

theorem roundAway_error (x : K) : |roundAway x - x| ≤ 1 / 2 := by
  rcases roundAway_eq_iff.mp (rfl : roundAway x = roundAway x) with inside | ⟨tie, -⟩
  · exact inside.le
  · exact tie.le

theorem roundAway_abs_le {x : K} {n : ℤ} (within : |x| ≤ n) : |roundAway x| ≤ n := by
  obtain ⟨low, high⟩ := abs_le.mp within
  obtain ⟨below, above⟩ := abs_le.mp (roundAway_error x)
  have upper : (roundAway x : K) < n + 1 := by linarith
  have lower : (-n - 1 : K) < roundAway x := by linarith
  have upper : roundAway x < n + 1 := by exact_mod_cast upper
  have lower : -n - 1 < roundAway x := by exact_mod_cast lower
  exact abs_le.mpr ⟨by omega, by omega⟩

end Stemd.Semantics
