import TreeGrowth.Numeric.Scalar

/-!
# Random sources

A random source hands out numbers and carries its own state, so that whoever holds the state decides
what is drawn next.  The stochastic parts of the library are written over any source: laws that hold
for every source hold for every sequence of draws.
-/

namespace TreeGrowth

/-- A source of uniform draws; `K` is the type of its numbers. -/
class RandomSource (G : Type) (K : outParam Type) where
  /-- A number from zero up to, and not including, one. -/
  unit : G → K × G
  /-- An index below a positive count. -/
  index : Nat → G → Nat × G

namespace RandomSource

variable {G K : Type} [RandomSource G K] [Scalar K]

/-- A number from `low` up to `high`: one unit draw, stretched and moved. -/
def between (low high : K) (source : G) : K × G :=
  let (u, source) := unit source
  (low + (high - low) * u, source)

end RandomSource

inductive SeedError
  | negative (seed : Int)
  deriving Repr, DecidableEq

def SeedError.message : SeedError → String
  | .negative _ => "expected non-negative integer"

/-- A random source that starts from a whole number, always with the same draws. -/
class SeededSource (G : Type) (K : outParam Type) extends RandomSource G K where
  ofEntropy : Nat → G

/-- What a fresh source is made of: a positive seed stands for itself, while seed zero takes
`entropy`, a number gathered outside. -/
def SeededSource.ofSeed {G K : Type} [SeededSource G K] (entropy : Nat) (seed : Int) :
    Except SeedError G :=
  if seed < 0 then .error (.negative seed)
  else if seed = 0 then .ok (ofEntropy entropy)
  else .ok (ofEntropy seed.toNat)

/-- The number to gather for the source made after one from `seed`. -/
def nextEntropy (entropy : Nat) (seed : Int) : Nat := if seed = 0 then entropy + 1 else entropy

end TreeGrowth
