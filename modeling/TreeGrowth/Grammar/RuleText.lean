import TreeGrowth.Decimal.Fixed
import TreeGrowth.Decimal.Reader
import TreeGrowth.Grammar.Rule

/-!
# The notation of rules

A rule is written `L < P > R -> S (p)`: a left context, the predecessor, a right context, the
successor and the weight.  The contexts and the weight may be missing, blanks between the parts do
not matter, and the arrow may be the single character of that name.

Reading goes from the outside in.  A trailing number between parentheses is the weight; the first
arrow separates the successor; the first `<` separates the left context and the first `>` after it
the right one.
-/

namespace TreeGrowth

def RuleError.message : RuleError Float → String
  | .predecessorLength w =>
      "Predecessor must be exactly 1 character, got '" ++ String.ofList w ++ "'"
  | .emptySuccessor => "Successor cannot be empty"
  | .leftContextLength w => "Left context must be 0 or 1 character, got '" ++ String.ofList w ++ "'"
  | .rightContextLength w =>
      "Right context must be 0 or 1 character, got '" ++ String.ofList w ++ "'"
  | .probabilityNotFinite p =>
      "Probability must be finite, got " ++ String.ofList (Decimal.fixed 0 p)

inductive RuleTextError
  | empty
  | noArrow
  | noSuccessor
  | invalid (fault : RuleError Float)

def RuleTextError.message : RuleTextError → String
  | .empty => "Rule string is empty"
  | .noArrow => "Rule must contain '->' or '→' separator"
  | .noSuccessor => "Successor (right side of ->) cannot be empty"
  | .invalid fault => fault.message

namespace Rule

/-- The weight of a rule as it is written behind the successor: two decimal places, and nothing at
all for full weight. -/
def weightText (p : Float) : List Char :=
  if p < 1.0 then ' ' :: '(' :: Decimal.fixed 2 p ++ [')'] else []

def leftText (context : Word) : List Char :=
  if context.isEmpty then [] else context ++ [' ', '<', ' ']

def rightText (context : Word) : List Char :=
  if context.isEmpty then [] else ' ' :: '>' :: ' ' :: context

def render (r : Rule Float) : List Char :=
  leftText r.leftContext ++ r.predecessor ++ rightText r.rightContext ++
    [' ', '-', '>', ' '] ++ r.successor ++ weightText r.probability

/-- Where `mark` first occurs in `text`, which begins at the given position. -/
def positionFrom? (mark : List Char) (position : Nat) : List Char → Option Nat
  | [] => none
  | c :: rest =>
      if mark.isPrefixOf (c :: rest) then some position
      else positionFrom? mark (position + 1) rest

/-- The parts of `text` before and after the first occurrence of `mark`. -/
def splitAtFirst? (mark text : List Char) : Option (List Char × List Char) :=
  (positionFrom? mark 0 text).map fun i => (text.take i, text.drop (i + mark.length))

def arrow : List Char := ['-', '>']

def singleArrow : List Char := ['→']

/-- The text between the parentheses that end `text`, if it holds no parentheses itself, and what
stands before them. -/
def splitParenthesized? (text : List Char) : Option (List Char × List Char) :=
  match text.reverse with
  | ')' :: rest =>
      let inner := rest.takeWhile fun c => c ≠ '(' && c ≠ ')'
      match rest.dropWhile fun c => c ≠ '(' && c ≠ ')' with
      | '(' :: before => some (before.reverse, inner.reverse)
      | _ => none
  | _ => none

/-- Splits off a weight at the end of a text.  What is between the parentheses has to be a number,
or else it belongs to the successor and the weight is full. -/
def splitWeight (text : List Char) : List Char × Float :=
  let weight? := (splitParenthesized? text).bind fun (before, inner) =>
    (Decimal.readDecimal? (Text.trim inner)).map fun p => (Text.trimEnd before, p)
  weight?.getD (text, 1.0)

/-- Splits the text before the arrow into the left context, the predecessor and the right
context. -/
def splitContexts (side : List Char) : Word × Word × Word :=
  let (left, rest) :=
    match splitAtFirst? ['<'] side with
    | some (left, rest) => (Text.trim left, Text.trim rest)
    | none => ([], side)
  match splitAtFirst? ['>'] rest with
  | some (predecessor, right) => (left, Text.trim predecessor, Text.trim right)
  | none => (left, rest, [])

def parse (text : List Char) : Except RuleTextError (Rule Float) :=
  let text := Text.trim text
  if text.isEmpty then .error .empty
  else
    let (body, p) := splitWeight text
    match (splitAtFirst? arrow body).orElse fun _ => splitAtFirst? singleArrow body with
    | none => .error .noArrow
    | some (side, successor) =>
        let side := Text.trim side
        let successor := Text.trim successor
        if successor.isEmpty then .error .noSuccessor
        else
          let (left, predecessor, right) := splitContexts side
          let rule := ofWords left predecessor right successor p
          match rule.fault? with
          | some fault => .error (.invalid fault)
          | none => .ok rule

end Rule

end TreeGrowth
