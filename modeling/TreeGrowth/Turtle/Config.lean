import TreeGrowth.Numeric.Scalar

/-!
# How a word is drawn

The parameters of a drawing: the angles of the turns and their jitter, the steps and the widths, the
pull of the ground, and where the drawing begins.  Angles are in degrees.
-/

namespace TreeGrowth

/-- The parameters of a drawing.  Vectors are lists of coordinates that are checked where they are
used. -/
structure TurtleConfig (K : Type) where
  yawAngle : K
  pitchAngle : K
  rollAngle : K
  stepLength : K
  /-- The share of a step by which it may be longer or shorter. -/
  stepVariation : K
  /-- The radius at the foot of the trunk. -/
  initialWidth : K
  /-- The share of the width that a branch keeps. -/
  widthFalloff : K
  minWidth : K
  /-- How strongly growth is pulled; full strength is up to five degrees in a step. -/
  tropismStrength : K
  tropismDirection : List K
  /-- Width and height of a leaf. -/
  leafSize : K × K
  /-- The chance that a branch is drawn at all. -/
  branchProbability : K
  /-- Between which angles yaw and roll are jittered; not at all unless the first is the smaller. -/
  turnVariation : K × K
  /-- Between which angles pitch is jittered. -/
  pitchVariation : K × K
  /-- The chance that a pitch goes the other way. -/
  pitchFlipProbability : K
  initialPosition : List K
  initialForward : List K
  /-- The greatest angle of a random roll at the start. -/
  initialRoll : K
  seed : Int

namespace TurtleConfig

variable {K : Type} [Scalar K]

/-- A drawing upwards from the origin, without any randomness. -/
def standard : TurtleConfig K where
  yawAngle := 25.0
  pitchAngle := 25.0
  rollAngle := 25.0
  stepLength := 10.0
  stepVariation := 0.0
  initialWidth := 5.0
  widthFalloff := 0.7
  minWidth := 0.5
  tropismStrength := 0.0
  tropismDirection := [0.0, 0.0, -1.0]
  leafSize := (10.0, 15.0)
  branchProbability := 1.0
  turnVariation := (0.0, 0.0)
  pitchVariation := (0.0, 0.0)
  pitchFlipProbability := 0.0
  initialPosition := [0.0, 0.0, 0.0]
  initialForward := [0.0, 0.0, 1.0]
  initialRoll := 0.0
  seed := 0

/-- The parameters with every share, chance and width brought into its range. -/
def bounded (c : TurtleConfig K) : TurtleConfig K :=
  { c with
    stepVariation := Scalar.clamp 0.0 0.99 c.stepVariation
    widthFalloff := Scalar.clamp 0.0 1.0 c.widthFalloff
    minWidth := Scalar.atLeast 0.0 c.minWidth
    tropismStrength := Scalar.clamp 0.0 1.0 c.tropismStrength
    branchProbability := Scalar.clamp 0.0 1.0 c.branchProbability
    pitchFlipProbability := Scalar.clamp 0.0 1.0 c.pitchFlipProbability
    initialRoll := Scalar.atLeast 0.0 c.initialRoll }

end TurtleConfig

end TreeGrowth
