import TreeGrowth.Log.Value

/-!
# Message templates

A message may be a template with places for arguments.  A place begins with a percent sign and says
how its argument is written: flags, a width, a precision and a letter for the kind of text.  A
message without arguments is no template.
-/

namespace TreeGrowth

inductive TemplateError
  | tooFewArguments
  | tooManyArguments
  /-- A place that is not complete. -/
  | incomplete
  /-- A letter that stands for no kind of text. -/
  | unknownLetter (letter : Char)
  /-- An argument that has no text of the kind. -/
  | mismatch (letter : Char)
  /-- A place for a named argument where arguments have no names, or not this one. -/
  | missingName (name : String)
  deriving Repr, DecidableEq

structure TemplatePlace where
  left : Bool := false
  plus : Bool := false
  space : Bool := false
  zeros : Bool := false
  alternate : Bool := false
  width : Nat := 0
  precision : Option Nat := none
  letter : Char

namespace TemplatePlace

def padded (p : TemplatePlace) (text : List Char) : List Char :=
  let fill := List.replicate (p.width - text.length) ' '
  if p.left then text ++ fill else fill ++ text

def signText (p : TemplatePlace) (negative : Bool) : List Char :=
  if negative then ['-'] else if p.plus then ['+'] else if p.space then [' '] else []

/-- A sign, a mark of the base and digits, filled up to the width: with zeros before the digits, or
with blanks around the whole. -/
def number (p : TemplatePlace) (negative : Bool) (base digits : List Char) : List Char :=
  let sign := p.signText negative ++ base
  if p.zeros && !p.left then
    sign ++ List.replicate (p.width - sign.length - digits.length) '0' ++ digits
  else p.padded (sign ++ digits)

def word (p : TemplatePlace) (text : List Char) : List Char :=
  p.padded (p.precision.elim text text.take)

/-- The whole number that an argument stands for; a fraction is cut off. -/
def wholeOf? : LogValue → Option Int
  | .whole n => some n
  | .truth b => some (if b then 1 else 0)
  | .real x =>
      match Binary64.ofFloat x with
      | .finite negative mantissa exponent =>
          let q := Ratio.ofPowers mantissa exponent 0
          let n : Int := (q.numerator / q.denominator : Nat)
          some (if negative then -n else n)
      | _ => none
  | _ => none

def strictWholeOf? : LogValue → Option Int
  | .whole n => some n
  | .truth b => some (if b then 1 else 0)
  | _ => none

def realOf? : LogValue → Option Float
  | .real x => some x
  | .whole n => some (if n < 0 then -Float.ofNat n.natAbs else Float.ofNat n.natAbs)
  | .truth b => some (if b then 1.0 else 0.0)
  | _ => none

/-- The digits of a number in a base, with the precision as their least number. -/
def baseDigits (p : TemplatePlace) (base : Nat) (n : Int) : List Char :=
  Decimal.zeroFilled (p.precision.getD 0) (Nat.toDigits base n.natAbs)

def upperAscii (text : List Char) : List Char := text.map Char.toUpper

def realDigits (p : TemplatePlace) (x : Float) : List Char :=
  let places := p.precision.getD 6
  let x := if Decimal.fixed 0 x |>.head? |> (· == some '-') then -x else x
  let letter := p.letter.toLower
  let text :=
    if letter = 'f' then Decimal.fixed places x
    else if letter = 'e' then Decimal.scientific places x
    else Decimal.general places p.alternate x
  let text :=
    if p.alternate && x.isFinite then
      Decimal.pointed (text.takeWhile (· ≠ 'e')) ++ text.dropWhile (· ≠ 'e')
    else text
  if p.letter.isUpper then upperAscii text else text

def render (p : TemplatePlace) (v : LogValue) : Except TemplateError (List Char) :=
  let mismatch : Except TemplateError (List Char) := .error (.mismatch p.letter)
  match p.letter with
  | 's' => .ok (p.word v.shown)
  | 'r' => .ok (p.word v.written)
  | 'a' => .ok (p.word (v.written.flatMap Text.plainEscape))
  | 'd' | 'i' | 'u' =>
      (wholeOf? v).elim mismatch fun n => .ok (p.number (decide (n < 0)) [] (p.baseDigits 10 n))
  | 'x' | 'X' =>
      (strictWholeOf? v).elim mismatch fun n =>
        let base := if p.alternate then ['0', p.letter] else []
        let digits := p.baseDigits 16 n
        .ok (p.number (decide (n < 0)) base (if p.letter = 'X' then upperAscii digits else digits))
  | 'o' =>
      (strictWholeOf? v).elim mismatch fun n =>
        .ok (p.number (decide (n < 0)) (if p.alternate then ['0', 'o'] else []) (p.baseDigits 8 n))
  | 'e' | 'E' | 'f' | 'F' | 'g' | 'G' =>
      (realOf? v).elim mismatch fun x =>
        let negative := (Decimal.fixed 0 x).head? == some '-'
        .ok (p.number negative [] (p.realDigits x))
  | 'c' =>
      match v with
      | .text s => if s.length = 1 then .ok (p.padded s.toList) else mismatch
      | v =>
          (strictWholeOf? v).elim mismatch fun n =>
            if 0 ≤ n ∧ n.toNat.isValidChar then .ok (p.padded [Char.ofNat n.toNat]) else mismatch
  | letter => .error (.unknownLetter letter)

/-- Adds a flag, if the character is one. -/
def flag? (p : TemplatePlace) : Char → Option TemplatePlace
  | '-' => some { p with left := true }
  | '+' => some { p with plus := true }
  | ' ' => some { p with space := true }
  | '0' => some { p with zeros := true }
  | '#' => some { p with alternate := true }
  | _ => none

def readFlags (p : TemplatePlace) : List Char → TemplatePlace × List Char
  | [] => (p, [])
  | c :: rest =>
      match p.flag? c with
      | some p => readFlags p rest
      | none => (p, c :: rest)

/-- Reads a number that is written out, or taken from the arguments where an asterisk stands. -/
def readSize (text : List Char) (arguments : List LogValue) :
    Except TemplateError (Option Int × List Char × List LogValue) :=
  match text with
  | '*' :: rest =>
      match arguments with
      | [] => .error .tooFewArguments
      | v :: arguments =>
          (strictWholeOf? v).elim (.error (.mismatch '*')) fun n => .ok (some n, rest, arguments)
  | _ =>
      let ds := text.takeWhile Char.isDigit
      let size : Option Int := if ds.isEmpty then none else some (Nat.ofDigitChars 10 ds 0)
      .ok (size, text.dropWhile Char.isDigit, arguments)

/-- Reads a place behind its percent sign and its name. -/
def read (text : List Char) (arguments : List LogValue) :
    Except TemplateError (TemplatePlace × List Char × List LogValue) := do
  let (p, text) := readFlags { letter := 's' } text
  let (width, text, arguments) ← readSize text arguments
  let w := width.getD 0
  let p := { p with width := w.natAbs, left := p.left || decide (w < 0) }
  let (precision, text, arguments) ← (match text with
    | '.' :: rest => do
        let (n, rest, arguments) ← readSize rest arguments
        pure (some (n.getD 0).toNat, rest, arguments)
    | _ => pure (none, text, arguments))
  let text := match text with
    | c :: rest => if c = 'h' ∨ c = 'l' ∨ c = 'L' then rest else text
    | [] => []
  match text with
  | [] => .error .incomplete
  | letter :: rest => return ({ p with precision, letter }, rest, arguments)

end TemplatePlace

namespace Template

/-- Fills a template from its front.  Named arguments are those of the only argument, if that is a
record.  Every round uses up at least one character of the template, so that its length is enough
fuel. -/
def fillWith (names : LogFields) :
    Nat → List Char → List LogValue → Except TemplateError (List Char × List LogValue)
  | 0, text, arguments => .ok (text, arguments)
  | fuel + 1, text, arguments =>
      let front := text.takeWhile (· ≠ '%')
      match text.dropWhile (· ≠ '%') with
      | [] => .ok (front, arguments)
      | [_] => .error .incomplete
      | _ :: '%' :: rest => do
          let (filled, arguments) ← fillWith names fuel rest arguments
          return (front ++ '%' :: filled, arguments)
      | _ :: '(' :: rest => do
          let name := String.ofList (rest.takeWhile (· ≠ ')'))
          match names.lookup name with
          | none => .error (.missingName name)
          | some v =>
              let after := (rest.dropWhile (· ≠ ')')).drop 1
              let (place, after, _) ← TemplatePlace.read after []
              let piece ← place.render v
              let (filled, arguments) ← fillWith names fuel after arguments
              return (front ++ piece ++ filled, arguments)
      | _ :: rest => do
          let (place, rest, arguments) ← TemplatePlace.read rest arguments
          match arguments with
          | [] => .error .tooFewArguments
          | v :: arguments =>
              let piece ← place.render v
              let (filled, arguments) ← fillWith names fuel rest arguments
              return (front ++ piece ++ filled, arguments)

def fill (template : List Char) (arguments : List LogValue) :
    Except TemplateError (List Char) :=
  match arguments with
  | [] => .ok template
  | [.record (field :: fields)] =>
      (fillWith (field :: fields) template.length template arguments).map Prod.fst
  | _ =>
      match fillWith [] template.length template arguments with
      | .error e => .error e
      | .ok (text, []) => .ok text
      | .ok (_, _ :: _) => .error .tooManyArguments

end Template

end TreeGrowth
