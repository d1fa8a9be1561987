import TreeGrowth.Proofs.Space.Vector

/-!
# Bases that are right-handed and orthonormal

A basis is built, and after every turn restored, from a forward direction of
length one and a left direction across it.  Where left is lost, an axis of the
world stands in that is not parallel to forward, so nothing but the length of
forward decides whether a restored basis is orthonormal; and no turn changes
that length.
-/

namespace TreeGrowth

namespace Basis

/-- Three directions of length one, each perpendicular to the two others, in
the order of a right hand. -/
structure IsOrthonormal (b : Basis ℝ) : Prop where
  forward_norm : b.forward.norm = 1
  left_norm : b.left.norm = 1
  up_norm : b.up.norm = 1
  forward_left : b.forward.dot b.left = 0
  forward_up : b.forward.dot b.up = 0
  left_up : b.left.dot b.up = 0
  up_eq : b.up = b.forward.cross b.left

/-- The third direction follows from two that are perpendicular. -/
theorem isOrthonormal_of_perpendicular {f l : Vec3 ℝ} (hf : f.dot f = 1)
    (hl : l.dot l = 1) (hperpendicular : l.dot f = 0) :
    IsOrthonormal ⟨f, l, (f.cross l).normalize⟩ := by
  have hcross : (f.cross l).dot (f.cross l) = 1 := by
    rw [Vec3.cross_dot_cross_self, hf, hl, Vec3.dot_comm, hperpendicular]
    norm_num
  rw [Vec3.normalize_of_unit hcross]
  exact {
    forward_norm := Vec3.norm_eq_one_iff.mpr hf
    left_norm := Vec3.norm_eq_one_iff.mpr hl
    up_norm := Vec3.norm_eq_one_iff.mpr hcross
    forward_left := (Vec3.dot_comm f l).trans hperpendicular
    forward_up := (Vec3.dot_comm f _).trans (Vec3.cross_dot_left f l)
    left_up := (Vec3.dot_comm l _).trans (Vec3.cross_dot_right f l)
    up_eq := rfl }

variable {b : Basis ℝ}

/-- Any forward direction gives a basis, also none at all and a vertical
one. -/
theorem isOrthonormal_ofForward (forward : Vec3 ℝ) :
    (ofForward forward).IsOrthonormal := by
  have hbuilt : ∀ f : Vec3 ℝ, f.dot f = 1 →
      IsOrthonormal ⟨f, f.acrossFrom 0.99,
        (f.cross (f.acrossFrom 0.99)).normalize⟩ := by
    intro f hf
    obtain ⟨hl, hperpendicular⟩ := Vec3.acrossFrom_spec hf 0.99
      (by norm_num) (by norm_num) (by norm_num)
    exact isOrthonormal_of_perpendicular hf hl hperpendicular
  unfold ofForward
  simp only
  split
  next =>
    apply hbuilt
    rw [Vec3.upAxis_eq, Vec3.dot_eq]
    norm_num
  next hdirected =>
    exact hbuilt _ (Vec3.dot_normalize_self_of_not_isNearlyZero hdirected)

/-- A basis is restored from a forward direction of length one, whatever left
and up have become. -/
theorem isOrthonormal_restore (hforward : b.forward.dot b.forward = 1) :
    b.restore.IsOrthonormal := by
  unfold restore
  rw [Vec3.normalize_of_unit hforward]
  simp only
  split
  next =>
    obtain ⟨hl, hperpendicular⟩ := Vec3.acrossFrom_spec hforward 0.9
      (by norm_num) (by norm_num) (by norm_num)
    exact isOrthonormal_of_perpendicular hforward hl hperpendicular
  next hdirected =>
    have hl := Vec3.dot_normalize_self_of_not_isNearlyZero hdirected
    have hperpendicular := Vec3.normalize_dot_eq_zero
      (Vec3.sub_scale_dot_self hforward b.left)
    exact isOrthonormal_of_perpendicular hforward hl hperpendicular

/-! ## Turns -/

namespace IsOrthonormal

theorem forward_dot_self (hb : b.IsOrthonormal) :
    b.forward.dot b.forward = 1 :=
  Vec3.norm_eq_one_iff.mp hb.forward_norm

/-- Whatever a rotation makes of the forward direction, its length is one. -/
theorem rotate_forward (hb : b.IsOrthonormal) (axis : Vec3 ℝ) (angle : ℝ) :
    (b.forward.rotate axis angle).dot (b.forward.rotate axis angle) = 1 := by
  rw [Vec3.rotate_dot_rotate, hb.forward_dot_self]

theorem yaw (hb : b.IsOrthonormal) (angle : ℝ) :
    (b.yaw angle).IsOrthonormal :=
  isOrthonormal_restore (hb.rotate_forward b.up angle)

theorem pitch (hb : b.IsOrthonormal) (angle : ℝ) :
    (b.pitch angle).IsOrthonormal :=
  isOrthonormal_restore (hb.rotate_forward b.left angle)

theorem roll (hb : b.IsOrthonormal) (angle : ℝ) :
    (b.roll angle).IsOrthonormal :=
  isOrthonormal_restore hb.forward_dot_self

theorem rotate (hb : b.IsOrthonormal) (axis : Vec3 ℝ) (angle : ℝ) :
    (b.rotate axis angle).IsOrthonormal :=
  isOrthonormal_restore (hb.rotate_forward axis angle)

end IsOrthonormal

end Basis

end TreeGrowth
