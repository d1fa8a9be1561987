/-!
# Machine numbers taken apart

A machine number is a sign, a whole mantissa and a power of two.  All decimal texts of the library
are computed from these three in exact arithmetic on natural numbers.
-/

namespace TreeGrowth

inductive Binary64
  | nan
  | infinite (negative : Bool)
  /-- The number `mantissa * 2 ^ exponent`, with its sign kept apart so that zero has one too. -/
  | finite (negative : Bool) (mantissa : Nat) (exponent : Int)
  deriving Repr, DecidableEq

namespace Binary64

/-- Reads the eleven exponent bits and the fifty-two fraction bits. -/
def ofFloat (x : Float) : Binary64 :=
  let bits := x.toBits.toNat
  let negative := decide (bits / Nat.pow 2 63 = 1)
  let biased : Nat := bits / Nat.pow 2 52 % Nat.pow 2 11
  let fraction : Nat := bits % Nat.pow 2 52
  if biased = 2047 then
    if fraction = 0 then .infinite negative else .nan
  else if biased = 0 then .finite negative fraction (-1074)
  else .finite negative (Nat.pow 2 52 + fraction) (biased - 1075)

end Binary64

/-- A nonnegative fraction `numerator / denominator`. -/
structure Ratio where
  numerator : Nat
  denominator : Nat
  deriving Repr, DecidableEq

namespace Ratio

/-- The value `mantissa * 2 ^ two * 10 ^ ten`. -/
def ofPowers (mantissa : Nat) (two ten : Int) : Ratio where
  numerator := mantissa * Nat.pow 2 two.toNat * Nat.pow 10 ten.toNat
  denominator := Nat.pow 2 (-two).toNat * Nat.pow 10 (-ten).toNat

/-- The nearest natural number; a half goes to the even neighbour. -/
def round (q : Ratio) : Nat :=
  let whole := q.numerator / q.denominator
  let rest := q.numerator % q.denominator
  if 2 * rest < q.denominator then whole
  else if q.denominator < 2 * rest then whole + 1
  else whole + whole % 2

end Ratio

end TreeGrowth
