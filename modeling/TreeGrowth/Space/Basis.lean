import TreeGrowth.Space.Vec3

/-!
# Bases

A basis is an orientation in space: forward, left and up, each of length one and perpendicular to
the two others, with up equal to forward times left.  Where only one direction is given, the others
are built from an axis of the world that is not parallel to it.
-/

namespace TreeGrowth

structure Basis (K : Type) where
  forward : Vec3 K
  left : Vec3 K
  up : Vec3 K
  deriving Repr

section Reference

variable {K : Type} [Trigonometric K]

/-- A direction across `forward`, built from the upward axis, or from the side axis where `forward`
is at least as steep as the threshold. -/
def Vec3.acrossFrom (steepness : K) (forward : Vec3 K) : Vec3 K :=
  if Scalar.magnitude forward.z < steepness then (Vec3.upAxis.cross forward).normalize
  else (Vec3.sideAxis.cross forward).normalize

/-- Two directions that span the plane across a direction. -/
def Vec3.perpendicularPair (direction : Vec3 K) : Vec3 K × Vec3 K :=
  let d := direction.normalize
  let right := d.acrossFrom 0.9
  (right, (d.cross right).normalize)

/-- A direction across a surface normal, for shading: built from the upward axis, or from the side
axis for a steep normal. -/
def Vec3.tangent (normal : Vec3 K) : Vec3 K :=
  let reference := if 0.9 ≤ Scalar.magnitude normal.z then Vec3.sideAxis else Vec3.upAxis
  let t := reference.cross normal
  let length := t.norm
  if Vec3.smallSquare ≤ length * length then t.shrink length else Vec3.zero

end Reference

namespace Basis

variable {K : Type} [Trigonometric K]

/-- The basis of a forward direction; without a direction it looks up. -/
def ofForward (forward : Vec3 K) : Basis K :=
  let f := forward.normalize
  let f := if f.isNearlyZero then Vec3.upAxis else f
  let left := f.acrossFrom 0.99
  { forward := f, left, up := (f.cross left).normalize }

/-- The basis nearest to three drifted directions: forward keeps its direction, left gives up what
it shares with forward, and up follows from the two.  A left that is lost in this way is built
anew. -/
def restore (b : Basis K) : Basis K :=
  let f := b.forward.normalize
  let l := (b.left - f.scale (b.left.dot f)).normalize
  let l := if l.isNearlyZero then f.acrossFrom 0.9 else l
  { forward := f, left := l, up := (f.cross l).normalize }

/-- Turns about up: positive angles turn forward towards left. -/
def yaw (b : Basis K) (angle : K) : Basis K :=
  restore
    { b with forward := b.forward.rotate b.up angle, left := b.left.rotate b.up angle }

/-- Turns about left: positive angles turn forward away from up. -/
def pitch (b : Basis K) (angle : K) : Basis K :=
  restore { b with forward := b.forward.rotate b.left angle, up := b.up.rotate b.left angle }

/-- Turns about forward: positive angles turn left towards up. -/
def roll (b : Basis K) (angle : K) : Basis K :=
  restore { b with left := b.left.rotate b.forward angle, up := b.up.rotate b.forward angle }

/-- Turns all three directions about an axis and restores the basis. -/
def rotate (b : Basis K) (axis : Vec3 K) (angle : K) : Basis K :=
  restore
    { forward := b.forward.rotate axis angle
      left := b.left.rotate axis angle
      up := b.up.rotate axis angle }

end Basis

end TreeGrowth
