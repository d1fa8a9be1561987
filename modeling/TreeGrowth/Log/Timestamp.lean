import TreeGrowth.Decimal.Fixed

/-!
# Time stamps

A moment is a number of seconds since the first of January 1970, in universal time.  It is rounded
to the nearest microsecond, a half to the even one, and shown as a date of the Gregorian calendar
with the time of the day.
-/

namespace TreeGrowth

structure Timestamp where
  year : Int
  month : Nat
  day : Nat
  hour : Nat
  minute : Nat
  second : Nat
  microsecond : Nat
  deriving Repr, DecidableEq

namespace Timestamp

/-- The year, month and day of a number of days since the first of January 1970.  Years are counted
from March, so that the day that comes and goes is the last one, in eras of four hundred years. -/
def civil (days : Int) : Int × Nat × Nat :=
  let shifted := days + 719468
  let era := shifted.fdiv 146097
  let dayOfEra := (shifted.fmod 146097).toNat
  let yearOfEra := (dayOfEra - dayOfEra / 1460 + dayOfEra / 36524 - dayOfEra / 146096) / 365
  let dayOfYear := dayOfEra - (365 * yearOfEra + yearOfEra / 4 - yearOfEra / 100)
  let monthFromMarch := (5 * dayOfYear + 2) / 153
  let day := dayOfYear - (153 * monthFromMarch + 2) / 5 + 1
  let month := if monthFromMarch < 10 then monthFromMarch + 3 else monthFromMarch - 9
  let year := era * 400 + yearOfEra
  (if month ≤ 2 then year + 1 else year, month, day)

/-- The moment that lies a number of microseconds after the first of January 1970. -/
def ofMicroseconds (n : Int) : Timestamp :=
  let seconds := n.fdiv 1000000
  let (year, month, day) := civil (seconds.fdiv 86400)
  let secondOfDay := (seconds.fmod 86400).toNat
  { year
    month
    day
    hour := secondOfDay / 3600
    minute := secondOfDay / 60 % 60
    second := secondOfDay % 60
    microsecond := (n.fmod 1000000).toNat }

/-- The moment of a number of seconds.  Only the fraction is rounded. -/
def ofSeconds (seconds : Float) : Timestamp :=
  match Binary64.ofFloat seconds with
  | .finite negative mantissa exponent =>
      let q := Ratio.ofPowers mantissa exponent 0
      let whole := q.numerator / q.denominator
      let fraction := Float.ofNat (q.numerator % q.denominator) / Float.ofNat q.denominator
      let micro :=
        match Binary64.ofFloat (fraction * 1000000.0) with
        | .finite _ m e => (Ratio.ofPowers m e 0).round
        | _ => 0
      let total : Int := (whole * 1000000 + micro : Nat)
      ofMicroseconds (if negative then -total else total)
  | _ => ofMicroseconds 0

def padded (width n : Nat) : List Char := Decimal.zeroFilled width (Decimal.digits n)

def afterYear (t : Timestamp) : List Char :=
  '-' :: padded 2 t.month ++ '-' :: padded 2 t.day ++ 'T' :: padded 2 t.hour ++
    ':' :: padded 2 t.minute ++ ':' :: padded 2 t.second

/-- The form for people, down to the millisecond. -/
def human (t : Timestamp) : List Char :=
  padded 1 t.year.toNat ++ t.afterYear ++ '.' :: padded 3 (t.microsecond / 1000) ++ ['Z']

/-- The form for machines, with all microseconds unless there are none. -/
def machine (t : Timestamp) : List Char :=
  padded 4 t.year.toNat ++ t.afterYear ++
    (if t.microsecond = 0 then [] else '.' :: padded 6 t.microsecond) ++ "+00:00".toList

end Timestamp

end TreeGrowth
