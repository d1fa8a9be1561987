import Mathlib
import TreeGrowth.Numeric.Scalar

/-!
# Real numbers as scalars

Over the real numbers the geometry of the library is exact: a square root is
one, the squares of a sine and its cosine add up to one, and every value is a
finite number.
-/

namespace TreeGrowth

noncomputable instance : Scalar ℝ where
  decLT := inferInstance
  decLE := inferInstance
  isFinite _ := true

noncomputable instance : Trigonometric ℝ where
  sqrt := Real.sqrt
  sin := Real.sin
  cos := Real.cos
  atan2 y x := Complex.arg ⟨x, y⟩
  pi := Real.pi

namespace Exact

theorem zero_literal :
    @OfScientific.ofScientific ℝ Scalar.toOfScientific 0 true 1 = 0 := by
  change (0.0 : ℝ) = 0
  norm_num

theorem one_literal :
    @OfScientific.ofScientific ℝ Scalar.toOfScientific 10 true 1 = 1 := by
  change (1.0 : ℝ) = 1
  norm_num

theorem magnitude_eq_abs (x : ℝ) : Scalar.magnitude x = |x| := by
  rw [Scalar.magnitude, zero_literal]
  split
  next hneg => exact (abs_of_neg hneg).symm
  next hnonneg => exact (abs_of_nonneg (not_lt.mp hnonneg)).symm

end Exact

end TreeGrowth
