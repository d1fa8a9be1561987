/-!
# Scalars

The numbers of a growing tree: lengths, weights and coordinates.  Every geometric and stochastic
definition of the library is written over a type `K` of scalars, so that one text is read both over
machine numbers, which run, and over an exact field, in which laws of geometry and chance hold
without rounding.

Nothing here assumes that the order of `K` is total: a machine number may be unordered, and the
bounds `atLeast` and `atMost` let such a value through unchanged.
-/

namespace TreeGrowth

/-- Numbers with arithmetic, decidable comparisons and decimal literals. -/
class Scalar (K : Type) extends
    Add K, Sub K, Mul K, Div K, Neg K, LT K, LE K, OfScientific K, NatCast K where
  decLT : ∀ a b : K, Decidable (a < b)
  decLE : ∀ a b : K, Decidable (a ≤ b)
  /-- Whether a value is a number, neither infinite nor undefined. -/
  isFinite : K → Bool

class Trigonometric (K : Type) extends Scalar K where
  sqrt : K → K
  sin : K → K
  cos : K → K
  /-- The angle of the point whose second coordinate comes first. -/
  atan2 : K → K → K
  pi : K

namespace Scalar

instance instDecidableLT {K : Type} [Scalar K] (a b : K) : Decidable (a < b) := decLT a b

instance instDecidableLE {K : Type} [Scalar K] (a b : K) : Decidable (a ≤ b) := decLE a b

variable {K : Type} [Scalar K]

/-- Raises `x` to `lo` where `x` lies below it. -/
def atLeast (lo x : K) : K := if x < lo then lo else x

/-- Lowers `x` to `hi` where `x` lies above it. -/
def atMost (hi x : K) : K := if hi < x then hi else x

/-- Brings `x` into the range from `lo` to `hi`; an unordered value stays as it is. -/
def clamp (lo hi x : K) : K := atMost hi (atLeast lo x)

def magnitude (x : K) : K := if x < 0.0 then -x else x

/-- Sum from left to right, starting at zero.  Every addition rounds on its own, as in the runtime's
built-in sum up to release 3.11; later releases carry the rounding errors along, and their totals
may differ. -/
def total (xs : List K) : K := xs.foldl (· + ·) 0.0

/-- Two values that compare equal in both directions. -/
def agree (a b : K) : Bool := decide (a ≤ b) && decide (b ≤ a)

/-- Equality up to a relative error of one part in `10⁹`; an infinite value is close to itself
only. -/
def isClose (a b : K) : Bool :=
  agree a b ||
    (isFinite a && isFinite b &&
      (decide (magnitude (b - a) ≤ magnitude (1e-9 * b)) ||
        decide (magnitude (b - a) ≤ magnitude (1e-9 * a))))

end Scalar

instance : Scalar Float where
  decLT := Float.decLt
  decLE := Float.decLe
  natCast := Float.ofNat
  isFinite := Float.isFinite

instance : Trigonometric Float where
  sqrt := Float.sqrt
  sin := Float.sin
  cos := Float.cos
  atan2 := Float.atan2
  pi := 3.141592653589793

end TreeGrowth
