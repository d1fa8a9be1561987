import TreeGrowth.Grammar.RuleSet
import Mathlib

/-!
# Exact fractions as scalars

Over the rational numbers the arithmetic of the library has no rounding: sums
do not depend on their order, bounds are the bounds of a linear order, and two
numbers are close if they differ by one part in `10⁹` of the greater.
-/

namespace TreeGrowth

instance : Scalar ℚ where
  decLT := inferInstance
  decLE := inferInstance
  isFinite _ := true

namespace Rational

theorem zero_literal :
    @OfScientific.ofScientific ℚ Scalar.toOfScientific 0 true 1 = 0 := by
  change (0.0 : ℚ) = 0
  norm_num

theorem one_literal :
    @OfScientific.ofScientific ℚ Scalar.toOfScientific 10 true 1 = 1 := by
  change (1.0 : ℚ) = 1
  norm_num

theorem total_eq_sum (weights : List ℚ) : Scalar.total weights = weights.sum := by
  have hfold : ∀ start : ℚ,
      weights.foldl (· + ·) start = start + weights.sum := by
    induction weights with
    | nil => simp
    | cons weight rest ih =>
        intro start
        rw [List.foldl_cons, ih, List.sum_cons, add_assoc]
  have hzero := hfold 0
  rw [zero_add] at hzero
  rw [Scalar.total, zero_literal]
  exact hzero

theorem total_div (factor : ℚ) (weights : List ℚ) :
    Scalar.total (weights.map (· / factor)) = Scalar.total weights / factor := by
  have hmul := List.sum_map_mul_right weights id factor⁻¹
  rw [List.map_id] at hmul
  simp only [id_eq, ← div_eq_mul_inv] at hmul
  rw [total_eq_sum, total_eq_sum, hmul]

theorem magnitude_eq_abs (x : ℚ) : Scalar.magnitude x = |x| := by
  rw [Scalar.magnitude, zero_literal]
  split
  next hneg => exact (abs_of_neg hneg).symm
  next hnonneg => exact (abs_of_nonneg (not_lt.mp hnonneg)).symm

theorem agree_iff (a b : ℚ) : Scalar.agree a b = true ↔ a = b := by
  simp only [Scalar.agree, Bool.and_eq_true, decide_eq_true_eq]
  exact le_antisymm_iff.symm

theorem isClose_iff (a b : ℚ) :
    Scalar.isClose a b = true ↔ |b - a| ≤ 1e-9 * max |a| |b| := by
  have hfactor : (0 : ℚ) ≤ 1e-9 := by norm_num
  have hshare : ∀ x : ℚ, |1e-9 * x| = 1e-9 * |x| := by
    intro x
    rw [abs_mul, abs_of_nonneg hfactor]
  have hclose : Scalar.isClose a b = true ↔
      a = b ∨ |b - a| ≤ |1e-9 * b| ∨ |b - a| ≤ |1e-9 * a| := by
    rw [Scalar.isClose, Bool.or_eq_true, agree_iff]
    simp only [Scalar.isFinite, Bool.true_and, Bool.or_eq_true,
      decide_eq_true_eq, magnitude_eq_abs]
  rw [hclose, hshare, hshare, mul_max_of_nonneg _ _ hfactor, le_max_iff]
  constructor
  · rintro (rfl | hb | ha)
    · left
      rw [sub_self, abs_zero]
      exact mul_nonneg hfactor (abs_nonneg a)
    · exact Or.inr hb
    · exact Or.inl ha
  · rintro (ha | hb)
    · exact Or.inr (Or.inr ha)
    · exact Or.inr (Or.inl hb)

theorem boundedProbability_eq_self_iff (p : ℚ) :
    Rule.boundedProbability p = p ↔ 0 ≤ p ∧ p ≤ 1 := by
  have hfinite : Scalar.isFinite p = true := rfl
  rw [Rule.boundedProbability, if_pos hfinite, Scalar.clamp, Scalar.atMost,
    Scalar.atLeast, zero_literal, one_literal]
  split_ifs <;> grind

end Rational

end TreeGrowth
