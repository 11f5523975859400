import Mathlib

/-! # Decaying peaks

A value moves towards an observation by a weight and never falls below it. At a constant
observation the weights multiply; where they decay exponentially, how time is divided does
not matter.
-/

namespace Decay

universe u

section Peak

variable {R : Type u} [Field R] [LinearOrder R] [IsStrictOrderedRing R] {w v x b : R}

/-- From `v` towards `x`, keeping the share `w` of `v`, and at least `x`. -/
def peak (w v x : R) : R := max (v * w + x * (1 - w)) x

omit [IsStrictOrderedRing R] in
theorem le_peak : x ≤ peak w v x := le_max_right _ _

theorem peak_le (hw : 0 ≤ w) (hw1 : w ≤ 1) (hv : v ≤ b) (hx : x ≤ b) : peak w v x ≤ b := by
  have hrest : 0 ≤ 1 - w := sub_nonneg.mpr hw1
  apply max_le _ hx
  calc v * w + x * (1 - w) ≤ b * w + b * (1 - w) := by gcongr
    _ = b := by ring

theorem peak_of_le (hw : 0 ≤ w) (h : v ≤ x) : peak w v x = x := by
  apply max_eq_right
  have hshare : v * w ≤ x * w := mul_le_mul_of_nonneg_right h hw
  linarith

theorem peak_of_ge (hw : 0 ≤ w) (h : x ≤ v) : peak w v x = x + (v - x) * w := by
  have hshare : x * w ≤ v * w := mul_le_mul_of_nonneg_right h hw
  unfold peak
  rw [max_eq_left (by linarith)]
  ring

end Peak

/-! ## Exponential weights -/

theorem exp_neg_split (a b h : ℝ) :
    Real.exp (-(a / h)) * Real.exp (-(b / h)) = Real.exp (-((a + b) / h)) := by
  rw [← Real.exp_add]
  congr 1
  ring

/-- Per unit of time an exponential decay keeps `1 / e`, not one half. -/
theorem exp_neg_eq_half_iff (n : ℝ) : Real.exp (-n) = 1 / 2 ^ n ↔ n = 0 := by
  have hhalf : (1 : ℝ) / 2 ^ n = Real.exp (-(Real.log 2 * n)) := by
    rw [Real.exp_neg, one_div, Real.rpow_def_of_pos two_pos]
  rw [hhalf, Real.exp_eq_exp, neg_inj]
  constructor
  · intro h
    have hone : Real.log 2 < 1 := Real.log_two_lt_d9.trans (by norm_num)
    have hzero : n * (1 - Real.log 2) = 0 := by linarith
    rcases mul_eq_zero.mp hzero with hn | hlog
    · exact hn
    · linarith
  · rintro rfl
    ring

end Decay
