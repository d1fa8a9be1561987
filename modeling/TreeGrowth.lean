import TreeGrowth.Grammar.Background
import TreeGrowth.Main
import TreeGrowth.Proofs.Rewriting.BestFit
import TreeGrowth.Proofs.Rewriting.Expansion
import TreeGrowth.Proofs.Rewriting.Counting
import TreeGrowth.Proofs.Rewriting.Drawless
import TreeGrowth.Proofs.Growth.Course
import TreeGrowth.Proofs.Engine.Operation
import TreeGrowth.Proofs.Growth.Notes
import TreeGrowth.Proofs.Engine.Reachable
import TreeGrowth.Proofs.Growth.Isolation
import TreeGrowth.Proofs.Growth.Told
import TreeGrowth.Proofs.Bracket.Balanced
import TreeGrowth.Proofs.Turtle.Step
import TreeGrowth.Proofs.Bracket.Walk
import TreeGrowth.Proofs.Bracket.Matching
import TreeGrowth.Proofs.Background.Consumer
import TreeGrowth.Proofs.Background.Events
import TreeGrowth.Proofs.Mesh.Draft
import TreeGrowth.Proofs.Mesh.Layout
import TreeGrowth.Proofs.Mesh.Sections
import TreeGrowth.Proofs.Mesh.Detail
import TreeGrowth.Proofs.Mesh.Strip
import TreeGrowth.Proofs.Turtle.Chain
import TreeGrowth.Proofs.Mesh.Runs
import TreeGrowth.Proofs.Mesh.Surface
import TreeGrowth.Proofs.Text.Padding
import TreeGrowth.Proofs.Decimal.Numeral
import TreeGrowth.Proofs.Decimal.Hundredths
import TreeGrowth.Proofs.RuleText.Marks
import TreeGrowth.Proofs.RuleText.Spelling
import TreeGrowth.Proofs.RuleText.RoundTrip
import TreeGrowth.Proofs.Growth.Stepwise
import TreeGrowth.Proofs.Growth.Length
import TreeGrowth.Proofs.Growth.Statistics
import TreeGrowth.Proofs.Rewriting.Classes
import TreeGrowth.Proofs.Growth.RuleOrder
import TreeGrowth.Proofs.Numeric.Rational
import TreeGrowth.Proofs.Rewriting.Places
import TreeGrowth.Proofs.Rewriting.Scaling
import TreeGrowth.Proofs.Numeric.Machine
import TreeGrowth.Proofs.Turtle.Encounter
import TreeGrowth.Proofs.Turtle.Branch
import TreeGrowth.Proofs.Turtle.Width
import TreeGrowth.Proofs.Turtle.Alike
import TreeGrowth.Proofs.Growth.Memory
import TreeGrowth.Proofs.Growth.Return
import TreeGrowth.Proofs.Engine.Readiness
import TreeGrowth.Proofs.Tree.Stages
import TreeGrowth.Proofs.Tree.Outcome
import TreeGrowth.Proofs.Mesh.Size
import TreeGrowth.Proofs.Tree.Size
import TreeGrowth.Proofs.Growth.Stop
import TreeGrowth.Proofs.Growth.FixedPoint
import TreeGrowth.Proofs.Rewriting.Proportion
import TreeGrowth.Proofs.Engine.SetUp
import TreeGrowth.Proofs.Engine.Growing
import TreeGrowth.Proofs.Turtle.Depth
import TreeGrowth.Proofs.Mesh.Rings
import TreeGrowth.Proofs.Mesh.Bark
import TreeGrowth.Proofs.Numeric.Nearest
import TreeGrowth.Proofs.Numeric.Units
import TreeGrowth.Proofs.Rewriting.Weightless
import TreeGrowth.Proofs.Turtle.Bare
import TreeGrowth.Proofs.Numeric.Real
import TreeGrowth.Proofs.Space.Vector
import TreeGrowth.Proofs.Space.Orthonormal
import TreeGrowth.Proofs.Turtle.Orientation
import TreeGrowth.Proofs.Log.SetUp
import TreeGrowth.Proofs.RuleText.Arrows
import TreeGrowth.Proofs.Numeric.Extent
import TreeGrowth.Proofs.Numeric.Power
import TreeGrowth.Proofs.Engine.Estimate
import TreeGrowth.Proofs.Random.Bounded
import TreeGrowth.Proofs.Random.Pcg64
import TreeGrowth.Proofs.Rewriting.EqualChance
import TreeGrowth.Proofs.Space.Frame
import TreeGrowth.Proofs.Mesh.Shading
