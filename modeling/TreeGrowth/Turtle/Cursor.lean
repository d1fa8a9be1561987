import TreeGrowth.Space.Basis
import TreeGrowth.Turtle.Config

/-!
# The cursor and what it leaves behind

A cursor is a place in space with an orientation, the width of what it draws and the number of
branches that it is inside of.  It leaves tapered branch segments and leaves behind.
-/

namespace TreeGrowth

structure Cursor (K : Type) where
  position : Vec3 K
  basis : Basis K
  width : K
  depth : Nat
  deriving Repr

/-- A tapered piece of a branch between two positions. -/
structure Segment (K : Type) where
  startPosition : Vec3 K
  endPosition : Vec3 K
  startRadius : K
  endRadius : K
  direction : Vec3 K
  depth : Nat
  /-- The segment to whose end this one is joined. -/
  parent : Option Int
  deriving Repr

structure Leaf (K : Type) where
  position : Vec3 K
  normal : Vec3 K
  up : Vec3 K
  /-- Width and height. -/
  size : K × K
  /-- The angle by which the leaf is turned in its plane. -/
  rotation : K
  depth : Nat
  deriving Repr

def Segment.length {K : Type} [Trigonometric K] (s : Segment K) : K :=
  (s.endPosition - s.startPosition).norm

namespace Cursor

variable {K : Type} [Trigonometric K]

def standard : Cursor K where
  position := Vec3.zero
  basis := { forward := Vec3.upAxis, left := ⟨0.0, -1.0, 0.0⟩, up := Vec3.sideAxis }
  width := 5.0
  depth := 0

def ofConfig (c : TurtleConfig K) : Except ShapeError (Cursor K) := do
  let forward ← Vec3.ofList c.initialForward
  let position ← Vec3.ofList c.initialPosition
  return { position, basis := Basis.ofForward forward, width := c.initialWidth, depth := 0 }

/-- Yields to the pull: forward turns towards the direction of the pull, in the plane that the two
span, and never comes nearer to it than ten degrees.  A forward that already points along the pull
or straight against it is left alone. -/
def bend (c : TurtleConfig K) (b : Basis K) : Except ShapeError (Basis K) :=
  if c.tropismStrength ≤ 0.0 then .ok b
  else
    (Vec3.ofList c.tropismDirection).map fun direction =>
      let away := -direction.normalize
      if away.isZero then b
      else
        let along := b.forward.dot away
        let inPlane := b.forward - away.scale along
        let length := inPlane.norm
        if length < Vec3.smallLength then b
        else
          let axis := away.cross (inPlane.shrink length)
          let elevation := Vec3.degrees (Trigonometric.atan2 along length)
          let target := Scalar.atLeast (-80.0) (elevation - c.tropismStrength * 5.0)
          let angle := elevation - target
          if 0.01 < angle then b.rotate axis angle else b

end Cursor

end TreeGrowth
