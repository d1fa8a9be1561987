import TreeGrowth.Decimal.Binary64

/-!
# Decimals with a given number of places

`fixed` writes a machine number with a set number of decimal places, `scientific` with one digit
before the point and a power of ten, and `general` chooses between the two by the size of the
number.  All three round the exact value, a half to the even digit.
-/

namespace TreeGrowth.Decimal

def digits (n : Nat) : List Char := Nat.toDigits 10 n

/-- Fills a text with zeros on the left up to a width. -/
def zeroFilled (width : Nat) (text : List Char) : List Char :=
  List.replicate (width - text.length) '0' ++ text

def signed (negative : Bool) (text : List Char) : List Char :=
  if negative then '-' :: text else text

def nanText : List Char := ['n', 'a', 'n']

def infinityText : List Char := ['i', 'n', 'f']

/-- Sets the decimal point of `n` so that `places` digits follow it. -/
def withPlaces (places n : Nat) : List Char :=
  let ds := zeroFilled (places + 1) (digits n)
  let whole := ds.length - places
  if places = 0 then ds else ds.take whole ++ '.' :: ds.drop whole

/-- The number with `places` digits after the point. -/
def fixed (places : Nat) (x : Float) : List Char :=
  match Binary64.ofFloat x with
  | .nan => nanText
  | .infinite negative => signed negative infinityText
  | .finite negative mantissa exponent =>
      signed negative (withPlaces places (Ratio.ofPowers mantissa exponent places).round)

/-- The greatest `k` with `10 ^ k` at most the positive value `mantissa * 2 ^ exponent`.  The number
of binary digits gives a first guess that is never above it, and at most one below. -/
def leadingExponent (mantissa : Nat) (exponent : Int) : Int :=
  let guess := ((mantissa.log2 + exponent) * 30103 - 1) / 100000 - 1
  let reaches (k : Int) : Bool :=
    let q := Ratio.ofPowers mantissa exponent (-k)
    decide (q.denominator ≤ q.numerator)
  if reaches (guess + 2) then guess + 2 else if reaches (guess + 1) then guess + 1 else guess

/-- A positive value rounded to `places + 1` significant digits, as the digits read as one natural
number and the power of ten of the first of them. -/
def rounded (places mantissa : Nat) (exponent : Int) : Nat × Int :=
  let k := leadingExponent mantissa exponent
  let n := (Ratio.ofPowers mantissa exponent (places - k)).round
  if n = Nat.pow 10 (places + 1) then (Nat.pow 10 places, k + 1) else (n, k)

/-- The power of ten of a scientific text: a sign and at least two digits. -/
def exponentText (k : Int) : List Char :=
  'e' :: (if k < 0 then '-' else '+') :: zeroFilled 2 (digits k.natAbs)

/-- The number with one digit before the point, `places` digits after it and a power of ten. -/
def scientific (places : Nat) (x : Float) : List Char :=
  match Binary64.ofFloat x with
  | .nan => nanText
  | .infinite negative => signed negative infinityText
  | .finite negative mantissa exponent =>
      let (n, k) := if mantissa = 0 then (0, 0) else rounded places mantissa exponent
      signed negative (withPlaces places n ++ exponentText k)

/-- Drops the zeros that end a fraction, and the point if nothing is left behind it. -/
def trimFraction (text : List Char) : List Char :=
  if text.contains '.' then
    let kept := (text.reverse.dropWhile (· = '0'))
    (if kept.head? = some '.' then kept.tail else kept).reverse
  else text

/-- Ends a text without a point in one. -/
def pointed (text : List Char) : List Char :=
  if text.contains '.' then text else text ++ ['.']

/-- At most `precision` significant digits, scientific where the power of ten is below `-4` or not
below the precision.  The fraction loses the zeros at its end, unless `full`. -/
def general (precision : Nat) (full : Bool) (x : Float) : List Char :=
  match Binary64.ofFloat x with
  | .nan => nanText
  | .infinite negative => signed negative infinityText
  | .finite negative mantissa exponent =>
      let places := precision - 1
      let trim (text : List Char) := if full then pointed text else trimFraction text
      let (n, k) := if mantissa = 0 then (0, 0) else rounded places mantissa exponent
      let text :=
        if k < -4 ∨ (places : Int) < k then
          trim (withPlaces places n) ++ exponentText k
        else
          let after := (places - k).toNat
          trim (withPlaces after (Ratio.ofPowers mantissa exponent after).round)
      signed negative text

end TreeGrowth.Decimal
