import Mathlib
import TreeGrowth.Mesh.Sweep
import TreeGrowth.Proofs.Space.Orthonormal

/-!
# Frames for rings and for shading

A ring is drawn between two directions across its axis, and a surface normal is
given a tangent across it.  Both are built from an axis of the world, the one
with a threshold for the normalized direction and the other with one for the
normal itself; neither threshold lets the axis come near to what it is crossed
with.
-/

namespace TreeGrowth

namespace Vec3

variable {a d normal : Vec3 ℝ}

theorem add_sub_cancel_left (a b : Vec3 ℝ) : a + b - a = b := by
  simp [add_eq, sub_eq]

theorem scale_dot (a b : Vec3 ℝ) (t : ℝ) :
    (a.scale t).dot b = a.dot b * t := by
  simp only [dot_eq, scale_eq]
  ring

theorem norm_scale {t : ℝ} (hunit : a.dot a = 1) (hnonneg : 0 ≤ t) :
    (a.scale t).norm = t := by
  have hsquare : (a.scale t).dot (a.scale t) = t * t := by
    rw [scale_dot, dot_comm, scale_dot, hunit, one_mul]
  change Real.sqrt ((a.scale t).dot (a.scale t)) = t
  rw [hsquare, Real.sqrt_mul_self hnonneg]

theorem shrink_scale {t : ℝ} (ht : t ≠ 0) (a : Vec3 ℝ) :
    (a.scale t).shrink t = a := by
  simp [scale_eq, shrink_eq, ht]

/-- What is across the direction of a vector is across the vector. -/
theorem dot_eq_zero_of_normalize (hlong : 1e-8 ≤ d.dot d)
    (hacross : a.dot d.normalize = 0) : a.dot d = 0 := by
  have hpos : (0 : ℝ) < d.dot d := lt_of_lt_of_le (by norm_num) hlong
  rw [normalize_eq, if_neg (not_lt.mpr hlong), dot_shrink] at hacross
  exact (div_eq_zero_iff.mp hacross).resolve_right (Real.sqrt_pos.mpr hpos).ne'

/-! ## Tangents -/

/-- The tangent has length one and is perpendicular to the normal. -/
structure IsTangent (tangent normal : Vec3 ℝ) : Prop where
  norm : tangent.norm = 1
  perpendicular : tangent.dot normal = 0

/-- A normal that is steep is crossed with the side axis and any other with the
upward one, and neither product is short. -/
theorem exists_tangent_eq (hunit : normal.dot normal = 1) :
    ∃ reference : Vec3 ℝ,
      1e-8 ≤ (reference.cross normal).dot (reference.cross normal) ∧
        normal.tangent = (reference.cross normal).shrink
          (reference.cross normal).norm := by
  set reference : Vec3 ℝ := if 0.9 ≤ |normal.z| then sideAxis else upAxis
    with hreference
  have hlong :
      1e-8 ≤ (reference.cross normal).dot (reference.cross normal) := by
    rw [hreference]
    split
    next hsteep =>
      apply sideAxis_cross_long
      rw [← sq_abs]
      nlinarith
    next hflat =>
      apply upAxis_cross_long hunit
      rw [← sq_abs]
      nlinarith [abs_nonneg normal.z]
  refine ⟨reference, hlong, ?_⟩
  have hsquare := norm_mul_norm (reference.cross normal)
    (le_trans (by norm_num) hlong)
  have hlong' : smallSquare ≤
      (reference.cross normal).norm * (reference.cross normal).norm :=
    hsquare.symm ▸ hlong
  unfold tangent
  rw [Exact.magnitude_eq_abs]
  exact if_pos hlong'

theorem isTangent_tangent (hunit : normal.norm = 1) :
    normal.tangent.IsTangent normal := by
  obtain ⟨reference, hlong, htangent⟩ :=
    exists_tangent_eq (norm_eq_one_iff.mp hunit)
  have hpos : 0 < (reference.cross normal).dot (reference.cross normal) :=
    lt_of_lt_of_le (by norm_num) hlong
  rw [htangent]
  constructor
  · rw [norm_eq_one_iff, shrink_norm_dot_self hpos]
  · rw [shrink_dot, cross_dot_right, zero_div]

/-! ## Rings -/

/-- The two directions between which a ring is drawn complete the direction of
its axis to a basis. -/
theorem isOrthonormal_perpendicularPair (hlong : 1e-8 ≤ d.dot d) :
    Basis.IsOrthonormal
      ⟨d.normalize, d.perpendicularPair.1, d.perpendicularPair.2⟩ := by
  have hunit := dot_normalize_self hlong
  obtain ⟨hright, hacross⟩ := acrossFrom_spec hunit 0.9
    (by norm_num) (by norm_num) (by norm_num)
  exact Basis.isOrthonormal_of_perpendicular hunit hright hacross

end Vec3

/-- A vertex on the circle around a centre that is perpendicular to a direction,
with the normal that points from the centre to the vertex. -/
structure OnRing (center direction : Vec3 ℝ) (radius : ℝ)
    (position normal : Vec3 ℝ) : Prop where
  distance : (position - center).norm = radius
  perpendicular : (position - center).dot direction = 0
  normal_norm : normal.norm = 1
  outward : position - center = normal.scale radius

namespace Basis.IsOrthonormal

variable {b : Basis ℝ} {s t : ℝ}

/-- The point of the circle between left and up. -/
theorem circle_dot_self (hb : b.IsOrthonormal) (hcircle : s ^ 2 + t ^ 2 = 1) :
    (b.left.scale t + b.up.scale s).dot (b.left.scale t + b.up.scale s) =
      1 := by
  have hleft := Vec3.norm_eq_one_iff.mp hb.left_norm
  have hup := Vec3.norm_eq_one_iff.mp hb.up_norm
  have hleft_up := hb.left_up
  simp only [Vec3.dot_eq, Vec3.add_eq, Vec3.scale_eq] at hleft hup hleft_up ⊢
  linear_combination t ^ 2 * hleft + s ^ 2 * hup + 2 * s * t * hleft_up +
    hcircle

theorem circle_dot_forward (hb : b.IsOrthonormal) :
    (b.left.scale t + b.up.scale s).dot b.forward = 0 := by
  have hleft := hb.forward_left
  have hup := hb.forward_up
  simp only [Vec3.dot_eq, Vec3.add_eq, Vec3.scale_eq] at hleft hup ⊢
  linear_combination t * hleft + s * hup

end Basis.IsOrthonormal

/-- A ring of positive radius lies on its circle, whatever its direction is as
long as it has one. -/
theorem onRing_of_mem_ringVertices {config : GeometryConfig ℝ}
    {center direction : Vec3 ℝ} {radius v : ℝ} {n : Nat}
    (hlong : 1e-8 ≤ direction.dot direction) (hradius : 0 < radius)
    {vertex : MeshVertex ℝ}
    (hvertex : vertex ∈ ringVertices config center direction radius n v) :
    OnRing center direction radius vertex.position vertex.normal := by
  obtain ⟨i, -, rfl⟩ := List.mem_map.mp hvertex
  have hbasis := Vec3.isOrthonormal_perpendicularPair hlong
  set turn : ℝ := 2.0 * Trigonometric.pi / n
  set angle : ℝ := i * turn
  set point := direction.perpendicularPair.1.scale (Trigonometric.cos angle) +
    direction.perpendicularPair.2.scale (Trigonometric.sin angle)
  have hunit : point.dot point = 1 :=
    hbasis.circle_dot_self (Real.sin_sq_add_cos_sq angle)
  have hacross : point.dot direction = 0 :=
    Vec3.dot_eq_zero_of_normalize hlong hbasis.circle_dot_forward
  have hdistance := Vec3.norm_scale hunit hradius.le
  have hoffset : center + point.scale radius - center = point.scale radius :=
    Vec3.add_sub_cancel_left center _
  have hnormal : (if 0.0 < (point.scale radius).norm then
      (point.scale radius).shrink (point.scale radius).norm else Vec3.zero) =
        point := by
    rw [hdistance, Exact.zero_literal, if_pos hradius,
      Vec3.shrink_scale hradius.ne']
  constructor
  · exact (congrArg Vec3.norm hoffset).trans hdistance
  · have hplane : (point.scale radius).dot direction = 0 := by
      rw [Vec3.scale_dot, hacross, zero_mul]
    exact (congrArg (Vec3.dot · direction) hoffset).trans hplane
  · exact (congrArg Vec3.norm hnormal).trans (Vec3.norm_eq_one_iff.mpr hunit)
  · exact hoffset.trans (congrArg (Vec3.scale · radius) hnormal.symm)

end TreeGrowth
