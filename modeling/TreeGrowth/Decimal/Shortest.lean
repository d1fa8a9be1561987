import TreeGrowth.Decimal.Fixed

/-!
# The shortest decimal that reads back

`shortest` writes a machine number with the fewest significant digits that still read back as the
same number, and of those the nearest.  Numbers from `10⁻⁴` up to `10¹⁶` are written positionally
with at least one decimal place, others as a power of ten.
-/

namespace TreeGrowth.Decimal

/-- The points of a decimal grid that surround a value and read back as it. -/
structure ReadingInterval where
  /-- Quarter units of the mantissa: the lower end, the value itself and the upper end. -/
  lower : Nat
  value : Nat
  upper : Nat
  /-- The power of two of one quarter unit. -/
  exponent : Int
  /-- Whether the two ends themselves read back as the value. -/
  closed : Bool

/-- All reals that round to `mantissa * 2 ^ exponent`.  Below a power of two the next machine
number is only half as far away, unless the value is among the smallest. -/
def ReadingInterval.ofParts (mantissa : Nat) (exponent : Int) : ReadingInterval where
  lower := if mantissa = Nat.pow 2 52 ∧ -1074 < exponent then 4 * mantissa - 1 else 4 * mantissa - 2
  value := 4 * mantissa
  upper := 4 * mantissa + 2
  exponent := exponent - 2
  closed := decide (mantissa % 2 = 0)

/-- The grid point nearest to the value among the two around it that read back, on the grid of
multiples of `10 ^ k`. -/
def ReadingInterval.gridPoint? (r : ReadingInterval) (k : Int) : Option Nat :=
  let unit := Ratio.ofPowers 1 r.exponent (-k)
  let below := r.value * unit.numerator / unit.denominator
  let inside (c : Nat) : Bool :=
    let at' := c * unit.denominator
    let lo := r.lower * unit.numerator
    let hi := r.upper * unit.numerator
    if r.closed then decide (lo ≤ at') && decide (at' ≤ hi)
    else decide (lo < at') && decide (at' < hi)
  let gapBelow := r.value * unit.numerator - below * unit.denominator
  let gapAbove := (below + 1) * unit.denominator - r.value * unit.numerator
  match inside below, inside (below + 1) with
  | true, true =>
      if gapBelow < gapAbove then some below
      else if gapAbove < gapBelow then some (below + 1)
      else some (below + below % 2)
  | true, false => some below
  | false, true => some (below + 1)
  | false, false => none

/-- Searches grids of more and more significant digits. -/
def shortestFrom (r : ReadingInterval) (lead : Int) : Nat → Nat → Nat × Int
  | 0, count => (r.value, lead - count)
  | more + 1, count =>
      let k := lead - count
      match r.gridPoint? k with
      | some c => (c, k)
      | none => shortestFrom r lead more (count + 1)

/-- The significant digits, without zeros at the end, and the power of ten of the first. -/
def shortestDigits (mantissa : Nat) (exponent : Int) : List Char × Int :=
  let lead := leadingExponent mantissa exponent
  let (c, k) := shortestFrom (.ofParts mantissa exponent) lead 17 0
  let all := digits c
  ((all.reverse.dropWhile (· = '0')).reverse, k + (all.length - 1 : Nat))

/-- Places digits whose first has the power of ten `lead`. -/
def positional (ds : List Char) (lead : Int) : List Char :=
  if lead < 0 then
    ['0', '.'] ++ List.replicate ((-lead).toNat - 1) '0' ++ ds
  else
    let whole := lead.toNat + 1
    let front := ds.take whole ++ List.replicate (whole - ds.length) '0'
    let rest := ds.drop whole
    front ++ '.' :: (if rest.isEmpty then ['0'] else rest)

/-- One digit, the others behind a point, and the power of ten. -/
def powerForm (ds : List Char) (lead : Int) : List Char :=
  match ds with
  | [] => exponentText lead
  | [d] => d :: exponentText lead
  | d :: rest => d :: '.' :: rest ++ exponentText lead

/-- The shortest text that reads back as the number. -/
def shortest (x : Float) : List Char :=
  match Binary64.ofFloat x with
  | .nan => nanText
  | .infinite negative => signed negative infinityText
  | .finite negative mantissa exponent =>
      if mantissa = 0 then signed negative ['0', '.', '0']
      else
        let (ds, lead) := shortestDigits mantissa exponent
        signed negative (if -4 ≤ lead ∧ lead < 16 then positional ds lead else powerForm ds lead)

end TreeGrowth.Decimal
