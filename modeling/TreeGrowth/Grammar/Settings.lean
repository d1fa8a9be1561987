/-!
# Limits of growth

A run of an engine is bounded in its number of passes and in the length of its word.
-/

namespace TreeGrowth

/-- The limits of a run, its seed and what it keeps and tells. -/
structure GrowthSettings where
  passLimit : Nat := 10
  lengthLimit : Nat := 100000
  /-- Zero asks for a fresh start on every run. -/
  seed : Int := 0
  /-- Whether the word after every pass is kept. -/
  keepHistory : Bool := true
  /-- Whether single passes are reported as information rather than for debugging. -/
  verbose : Bool := false
  passLimit_pos : 1 ≤ passLimit := by decide
  passLimit_le : passLimit ≤ 100 := by decide
  lengthLimit_pos : 1 ≤ lengthLimit := by decide
  lengthLimit_le : lengthLimit ≤ 10000000 := by decide

/-- Brings a whole number into the range from `lo` to `hi`. -/
def clampNat (lo hi : Nat) (n : Int) : Nat := min (max n.toNat lo) hi

theorem le_clampNat {lo hi : Nat} (h : lo ≤ hi) (n : Int) : lo ≤ clampNat lo hi n := by
  unfold clampNat
  omega

theorem clampNat_le (lo hi : Nat) (n : Int) : clampNat lo hi n ≤ hi := by
  unfold clampNat
  omega

namespace GrowthSettings

/-- The greatest length that an estimate or a limit may have. -/
def longest : Nat := 10000000

/-- The settings with other limits, each brought into its range. -/
def withLimits (s : GrowthSettings) (passes length : Int) : GrowthSettings :=
  { s with
    passLimit := clampNat 1 100 passes
    lengthLimit := clampNat 1 10000000 length
    passLimit_pos := le_clampNat (by decide) passes
    passLimit_le := clampNat_le 1 100 passes
    lengthLimit_pos := le_clampNat (by decide) length
    lengthLimit_le := clampNat_le 1 10000000 length }

/-- The number of passes of a run for which `requested` passes are asked. -/
def passesFor (s : GrowthSettings) (requested : Int) : Nat := min requested.toNat s.passLimit

end GrowthSettings

end TreeGrowth
