import TreeGrowth.Numeric.Scalar

/-!
# Vectors of space

Vectors with three coordinates in a right-handed system whose third axis points up.  A vector that
is too short to have a direction is normalized to the zero vector, and a rotation about such an axis
moves nothing.
-/

namespace TreeGrowth

structure Vec3 (K : Type) where
  x : K
  y : K
  z : K
  deriving Repr

structure ShapeError where
  size : Nat
  deriving Repr, DecidableEq

def ShapeError.message (e : ShapeError) : String :=
  "cannot reshape array of size " ++ e.size.repr ++ " into shape (3,)"

namespace Vec3

variable {K : Type}

def ofList : List K → Except ShapeError (Vec3 K)
  | [x, y, z] => .ok ⟨x, y, z⟩
  | other => .error ⟨other.length⟩

section Linear

variable [Scalar K]

def zero : Vec3 K := ⟨0.0, 0.0, 0.0⟩

def upAxis : Vec3 K := ⟨0.0, 0.0, 1.0⟩

/-- The axis that stands in for the upward one where a direction is too steep. -/
def sideAxis : Vec3 K := ⟨1.0, 0.0, 0.0⟩

instance : Add (Vec3 K) := ⟨fun a b => ⟨a.x + b.x, a.y + b.y, a.z + b.z⟩⟩

instance : Sub (Vec3 K) := ⟨fun a b => ⟨a.x - b.x, a.y - b.y, a.z - b.z⟩⟩

instance : Neg (Vec3 K) := ⟨fun a => ⟨-a.x, -a.y, -a.z⟩⟩

def scale (a : Vec3 K) (k : K) : Vec3 K := ⟨a.x * k, a.y * k, a.z * k⟩

def shrink (a : Vec3 K) (k : K) : Vec3 K := ⟨a.x / k, a.y / k, a.z / k⟩

def dot (a b : Vec3 K) : K := a.x * b.x + a.y * b.y + a.z * b.z

def cross (a b : Vec3 K) : Vec3 K :=
  ⟨a.y * b.z - a.z * b.y, a.z * b.x - a.x * b.z, a.x * b.y - a.y * b.x⟩

/-- Whether every coordinate lies within a tolerance of zero. -/
def isWithin (tolerance : K) (a : Vec3 K) : Bool :=
  decide (Scalar.magnitude a.x ≤ tolerance) && decide (Scalar.magnitude a.y ≤ tolerance) &&
    decide (Scalar.magnitude a.z ≤ tolerance)

/-- The length below which a coordinate counts as zero. -/
def smallLength : K := 1e-4

def isNearlyZero (a : Vec3 K) : Bool := a.isWithin smallLength

def isZero (a : Vec3 K) : Bool :=
  Scalar.agree a.x 0.0 && Scalar.agree a.y 0.0 && Scalar.agree a.z 0.0

end Linear

section Euclidean

variable [Trigonometric K]

def norm (a : Vec3 K) : K := Trigonometric.sqrt (a.dot a)

/-- The squared length below which a vector has no direction. -/
def smallSquare : K := 1e-8

/-- The vector of length one in the same direction, or zero where the squared length lies below the
tolerance. -/
def normalizeAbove (tolerance : K) (a : Vec3 K) : Vec3 K :=
  let square := a.dot a
  if square < tolerance then zero else a.shrink (Trigonometric.sqrt square)

/-- The vector of length one in the same direction, or zero for a vector without direction. -/
def normalize (a : Vec3 K) : Vec3 K := a.normalizeAbove smallSquare

def radians (degrees : K) : K := degrees * (Trigonometric.pi / 180.0)

def degrees (radians : K) : K := radians * (180.0 / Trigonometric.pi)

/-- The vector turned about an axis, by degrees and by the right-hand rule.  The part along the axis
stays, the part across it turns. -/
def rotate (a axis : Vec3 K) (angle : K) : Vec3 K :=
  if axis.isNearlyZero then a
  else
    let k := axis.normalize
    let theta := radians angle
    let c := Trigonometric.cos theta
    let s := Trigonometric.sin theta
    a.scale c + (k.cross a).scale s + (k.scale (k.dot a)).scale (1.0 - c)

end Euclidean

end Vec3

end TreeGrowth
