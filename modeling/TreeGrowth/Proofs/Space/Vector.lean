import Mathlib
import TreeGrowth.Proofs.Numeric.Real
import TreeGrowth.Space.Basis

/-!
# Vectors with real coordinates

Scalar and vector product follow their laws when nothing is rounded.  A vector
of length one is its own direction, a vector that does not count as zero has a
direction, and a rotation keeps all lengths and angles, about whatever axis and
by whatever angle.
-/

namespace TreeGrowth

namespace Vec3

variable {a b k : Vec3 ℝ}

/-! ## Coordinates -/

theorem zero_eq : (zero : Vec3 ℝ) = ⟨0, 0, 0⟩ := by
  rw [zero, Exact.zero_literal]

theorem upAxis_eq : (upAxis : Vec3 ℝ) = ⟨0, 0, 1⟩ := by
  rw [upAxis, Exact.zero_literal, Exact.one_literal]

theorem sideAxis_eq : (sideAxis : Vec3 ℝ) = ⟨1, 0, 0⟩ := by
  rw [sideAxis, Exact.zero_literal, Exact.one_literal]

theorem add_eq (a b : Vec3 ℝ) : a + b = ⟨a.x + b.x, a.y + b.y, a.z + b.z⟩ :=
  rfl

theorem sub_eq (a b : Vec3 ℝ) : a - b = ⟨a.x - b.x, a.y - b.y, a.z - b.z⟩ :=
  rfl

theorem scale_eq (a : Vec3 ℝ) (t : ℝ) :
    a.scale t = ⟨a.x * t, a.y * t, a.z * t⟩ := rfl

theorem shrink_eq (a : Vec3 ℝ) (t : ℝ) :
    a.shrink t = ⟨a.x / t, a.y / t, a.z / t⟩ := rfl

theorem dot_eq (a b : Vec3 ℝ) :
    a.dot b = a.x * b.x + a.y * b.y + a.z * b.z := rfl

theorem cross_eq (a b : Vec3 ℝ) :
    a.cross b =
      ⟨a.y * b.z - a.z * b.y, a.z * b.x - a.x * b.z,
        a.x * b.y - a.y * b.x⟩ := rfl

/-! ## Products -/

theorem dot_comm (a b : Vec3 ℝ) : a.dot b = b.dot a := by
  simp only [dot_eq]
  ring

theorem shrink_dot (a b : Vec3 ℝ) (t : ℝ) :
    (a.shrink t).dot b = a.dot b / t := by
  simp only [dot_eq, shrink_eq]
  ring

theorem dot_shrink (a b : Vec3 ℝ) (t : ℝ) :
    a.dot (b.shrink t) = a.dot b / t := by
  rw [dot_comm, shrink_dot, dot_comm]

/-- What is left of a vector without its part along a direction. -/
theorem sub_scale_dot_self (hb : b.dot b = 1) (a : Vec3 ℝ) :
    (a - b.scale (a.dot b)).dot b = 0 := by
  simp only [dot_eq, sub_eq, scale_eq] at hb ⊢
  linear_combination -(a.x * b.x + a.y * b.y + a.z * b.z) * hb

theorem cross_dot_left (a b : Vec3 ℝ) : (a.cross b).dot a = 0 := by
  simp only [dot_eq, cross_eq]
  ring

theorem cross_dot_right (a b : Vec3 ℝ) : (a.cross b).dot b = 0 := by
  simp only [dot_eq, cross_eq]
  ring

theorem cross_dot_cross_self (a b : Vec3 ℝ) :
    (a.cross b).dot (a.cross b) = a.dot a * b.dot b - a.dot b ^ 2 := by
  simp only [dot_eq, cross_eq]
  ring

/-! ## Lengths and directions -/

theorem norm_eq_one_iff : a.norm = 1 ↔ a.dot a = 1 :=
  Real.sqrt_eq_one

theorem normalize_eq (a : Vec3 ℝ) :
    a.normalize =
      if a.dot a < 1e-8 then ⟨0, 0, 0⟩ else a.shrink (Real.sqrt (a.dot a)) := by
  rw [← zero_eq]
  rfl

theorem norm_mul_norm (a : Vec3 ℝ) (hnonneg : 0 ≤ a.dot a) :
    a.norm * a.norm = a.dot a :=
  Real.mul_self_sqrt hnonneg

theorem shrink_norm_dot_self (hpos : 0 < a.dot a) :
    (a.shrink a.norm).dot (a.shrink a.norm) = 1 := by
  rw [shrink_dot, dot_shrink, div_div, norm_mul_norm a hpos.le,
    div_self hpos.ne']

/-- A vector that is long enough has a direction of length one. -/
theorem dot_normalize_self (hlong : 1e-8 ≤ a.dot a) :
    a.normalize.dot a.normalize = 1 := by
  rw [normalize_eq, if_neg (not_lt.mpr hlong)]
  exact shrink_norm_dot_self (lt_of_lt_of_le (by norm_num) hlong)

theorem normalize_dot_eq_zero (hperpendicular : a.dot b = 0) :
    a.normalize.dot b = 0 := by
  rw [normalize_eq]
  split
  next => simp [dot_eq]
  next => rw [shrink_dot, hperpendicular, zero_div]

theorem normalize_of_unit (hunit : a.dot a = 1) : a.normalize = a := by
  have hlong : ¬a.dot a < 1e-8 := by
    rw [hunit]
    norm_num
  rw [normalize_eq, if_neg hlong, hunit, Real.sqrt_one, shrink_eq, div_one,
    div_one, div_one]

theorem isNearlyZero_iff :
    a.isNearlyZero = true ↔ |a.x| ≤ 1e-4 ∧ |a.y| ≤ 1e-4 ∧ |a.z| ≤ 1e-4 := by
  simp only [isNearlyZero, isWithin, Exact.magnitude_eq_abs, Bool.and_eq_true,
    decide_eq_true_eq, and_assoc]
  rfl

/-- A vector of which some coordinate does not count as zero is long enough to
have a direction. -/
theorem long_of_not_isNearlyZero (ha : ¬a.isNearlyZero = true) :
    1e-8 ≤ a.dot a := by
  have hsquare : ∀ {t : ℝ}, ¬|t| ≤ 1e-4 → 1e-8 ≤ t * t := by
    intro t ht
    have hpower : (1e-8 : ℝ) = 1e-4 * 1e-4 := by norm_num
    rw [← abs_mul_abs_self t, hpower]
    have hlt : (1e-4 : ℝ) < |t| := not_le.mp ht
    gcongr
  rw [isNearlyZero_iff] at ha
  have hx := mul_self_nonneg a.x
  have hy := mul_self_nonneg a.y
  have hz := mul_self_nonneg a.z
  rw [dot_eq]
  by_cases hfirst : |a.x| ≤ 1e-4
  · by_cases hsecond : |a.y| ≤ 1e-4
    · have hthird := hsquare fun h => ha ⟨hfirst, hsecond, h⟩
      linarith
    · have hlarge := hsquare hsecond
      linarith
  · have hlarge := hsquare hfirst
    linarith

/-- Normalizing leaves a direction of length one or none at all. -/
theorem dot_normalize_self_of_not_isNearlyZero
    (hdirected : ¬a.normalize.isNearlyZero = true) :
    a.normalize.dot a.normalize = 1 := by
  apply dot_normalize_self
  by_contra hshort
  apply hdirected
  rw [normalize_eq, if_pos (not_le.mp hshort), isNearlyZero_iff]
  norm_num

/-! ## Rotations -/

/-- The sum by which a vector is turned about an axis of length one. -/
theorem turned_dot_turned (hk : k.dot k = 1) {s t : ℝ}
    (hcircle : s ^ 2 + t ^ 2 = 1) (a b : Vec3 ℝ) :
    (a.scale t + (k.cross a).scale s + (k.scale (k.dot a)).scale (1 - t)).dot
        (b.scale t + (k.cross b).scale s +
          (k.scale (k.dot b)).scale (1 - t)) = a.dot b := by
  simp only [dot_eq, add_eq, cross_eq, scale_eq] at hk ⊢
  linear_combination
    (a.x * b.x + a.y * b.y + a.z * b.z -
      (k.x * a.x + k.y * a.y + k.z * a.z) *
        (k.x * b.x + k.y * b.y + k.z * b.z)) * hcircle +
    (s ^ 2 * (a.x * b.x + a.y * b.y + a.z * b.z) +
      (1 - t) ^ 2 * (k.x * a.x + k.y * a.y + k.z * a.z) *
        (k.x * b.x + k.y * b.y + k.z * b.z)) * hk

/-- A rotation keeps lengths and angles.  An axis that does not count as zero
has a direction, and any other axis moves nothing. -/
theorem rotate_dot_rotate (a b axis : Vec3 ℝ) (angle : ℝ) :
    (a.rotate axis angle).dot (b.rotate axis angle) = a.dot b := by
  unfold rotate
  split
  next => rfl
  next haxis =>
    have hunit := dot_normalize_self (long_of_not_isNearlyZero haxis)
    have hcircle := Real.sin_sq_add_cos_sq (radians angle)
    rw [Exact.one_literal]
    exact turned_dot_turned hunit hcircle a b

/-! ## Directions across -/

/-- The upward axis is not parallel to a direction that is not steep. -/
theorem upAxis_cross_long (ha : a.dot a = 1) (hflat : a.z ^ 2 ≤ 1 - 1e-8) :
    1e-8 ≤ (upAxis.cross a).dot (upAxis.cross a) := by
  rw [cross_dot_cross_self, ha, upAxis_eq]
  simp only [dot_eq]
  linarith

/-- The side axis is not parallel to a direction that is steep. -/
theorem sideAxis_cross_long (hsteep : 1e-8 ≤ a.z ^ 2) :
    1e-8 ≤ (sideAxis.cross a).dot (sideAxis.cross a) := by
  rw [cross_dot_cross_self, sideAxis_eq]
  simp only [dot_eq]
  nlinarith [mul_self_nonneg a.y]

/-- The upward axis is across from what is not steep and the side axis from what
is steep, so a threshold that is neither close to zero nor close to one leaves a
direction across in both cases. -/
theorem acrossFrom_spec (ha : a.dot a = 1) (steepness : ℝ)
    (hnonneg : 0 ≤ steepness) (hlow : 1e-8 ≤ steepness ^ 2)
    (hhigh : steepness ^ 2 ≤ 1 - 1e-8) :
    (a.acrossFrom steepness).dot (a.acrossFrom steepness) = 1 ∧
      (a.acrossFrom steepness).dot a = 0 := by
  unfold acrossFrom
  rw [Exact.magnitude_eq_abs]
  split
  next hflat =>
    have hsquare : a.z ^ 2 < steepness ^ 2 := by
      rw [← sq_abs a.z]
      exact pow_lt_pow_left₀ hflat (abs_nonneg _) (by decide)
    have hlong := upAxis_cross_long ha (hsquare.le.trans hhigh)
    exact ⟨dot_normalize_self hlong,
      normalize_dot_eq_zero (cross_dot_right upAxis a)⟩
  next hsteep =>
    have hsquare : steepness ^ 2 ≤ a.z ^ 2 := by
      rw [← sq_abs a.z]
      exact pow_le_pow_left₀ hnonneg (not_lt.mp hsteep) 2
    have hlong := sideAxis_cross_long (hlow.trans hsquare)
    exact ⟨dot_normalize_self hlong,
      normalize_dot_eq_zero (cross_dot_right sideAxis a)⟩

end Vec3

end TreeGrowth
