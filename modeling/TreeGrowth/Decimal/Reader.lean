import TreeGrowth.Text.Blank
import TreeGrowth.Text.DecimalDigit

/-!
# Reading numbers

`readDecimal?` reads a decimal number with an optional sign, fraction and power of ten, or the words
for infinity and for an undefined number; `readInteger?` reads a whole number.  Single underscores
may stand between two digits.  Digits of every script count, and the value is the machine number
nearest to the decimal.
-/

namespace TreeGrowth.Decimal

open Text

/-- Blanks of the smallest character set, which may surround a number. -/
def isPlainBlank (c : Char) : Bool := (9 ≤ c.toNat && c.toNat ≤ 13) || c.toNat == 32

/-- The text of a number in the smallest character set.  A text already within it stays as it is;
of any other, foreign blanks become spaces, foreign digits their value, and all else a character
that no number contains. -/
def plainForm (text : List Char) : List Char :=
  if text.all fun c => c.toNat < 128 then text
  else text.map fun c =>
    if c.toNat < 127 then c
    else if isBlank c then ' '
    else match digitValue? c with
      | some d => Nat.digitChar d
      | none => '?'

def unpadded (text : List Char) : List Char :=
  ((text.dropWhile isPlainBlank).reverse.dropWhile isPlainBlank).reverse

/-- Removes underscores, each of which has to stand between two digits. -/
def joinGroups? : List Char → Option (List Char)
  | [] => some []
  | ['_'] => none
  | [c] => some [c]
  | c :: '_' :: d :: rest =>
      if c.isDigit && d.isDigit then (joinGroups? (d :: rest)).map (c :: ·) else none
  | c :: d :: rest => if c = '_' then none else (joinGroups? (d :: rest)).map (c :: ·)

/-- The number that a row of decimal digits stands for. -/
def digitsValue (ds : List Char) : Nat := ds.foldl (fun n c => 10 * n + (c.toNat - 48)) 0

/-- Splits off a sign; `true` is minus. -/
def splitSign : List Char → Bool × List Char
  | '-' :: rest => (true, rest)
  | '+' :: rest => (false, rest)
  | rest => (false, rest)

/-- A written number: `digits * 10 ^ exponent`. -/
structure Written where
  digits : Nat
  exponent : Int
  deriving Repr, DecidableEq

/-- The machine number nearest to a written number.  Powers of ten far outside the range of machine
numbers are settled by the number of digits alone. -/
def Written.toFloat (w : Written) : Float :=
  let magnitude : Int := (Nat.toDigits 10 w.digits).length + w.exponent
  if w.digits = 0 ∨ magnitude < -400 then 0.0
  else if 400 < magnitude then 1.0 / 0.0
  else if 0 ≤ w.exponent then Float.ofScientific (w.digits * Nat.pow 10 w.exponent.toNat) false 0
  else Float.ofScientific w.digits true (-w.exponent).toNat

/-- The power of ten behind the mantissa: nothing, or the letter and a signed row of digits. -/
def readPower? : List Char → Option Int
  | [] => some 0
  | c :: rest =>
      if c = 'e' ∨ c = 'E' then
        let (negative, ds) := splitSign rest
        if ds.isEmpty || !ds.all Char.isDigit then none
        else if negative then some (-(digitsValue ds : Int)) else some (digitsValue ds)
      else none

/-- Digits, an optional point with digits behind it, and an optional power of ten. -/
def readWritten? (text : List Char) : Option Written :=
  let whole := text.takeWhile Char.isDigit
  let rest := text.dropWhile Char.isDigit
  let (fraction, rest) :=
    match rest with
    | '.' :: more => (more.takeWhile Char.isDigit, more.dropWhile Char.isDigit)
    | _ => ([], rest)
  if whole.isEmpty && fraction.isEmpty then none
  else (readPower? rest).map fun power =>
    ⟨digitsValue (whole ++ fraction), power - fraction.length⟩

/-- The words that stand for a number, in any mixture of cases. -/
def readWord? (text : List Char) : Option Float :=
  let word := text.map Char.toLower
  if word = "inf".toList ∨ word = "infinity".toList then some (1.0 / 0.0)
  else if word = "nan".toList then some (0.0 / 0.0)
  else none

def readDecimal? (text : List Char) : Option Float :=
  (joinGroups? (unpadded (plainForm text))).bind fun body =>
    let (negative, body) := splitSign body
    let value := (readWord? body).orElse fun _ => (readWritten? body).map Written.toFloat
    value.map fun x => if negative then -x else x

/-- The most digits that a whole number may be written with. -/
def integerDigitLimit : Nat := 4300

/-- The whole number that a text stands for, if it is one. -/
def readInteger? (text : List Char) : Option Int :=
  (joinGroups? (unpadded (plainForm text))).bind fun body =>
    let (negative, ds) := splitSign body
    if ds.isEmpty || !ds.all Char.isDigit || integerDigitLimit < ds.length then none
    else if negative then some (-(digitsValue ds : Int)) else some (digitsValue ds)

end TreeGrowth.Decimal
