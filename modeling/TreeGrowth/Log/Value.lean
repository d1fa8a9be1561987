import TreeGrowth.Decimal.Shortest
import TreeGrowth.Text.Quoted

/-!
# Values of log fields

A field of a log line holds a value: nothing, a truth value, a number, a text, or a list or record
of values.  A value is shown to people as it is, with quoted texts inside lists and records, and to
machines as JSON in the smallest character set.
-/

namespace TreeGrowth

inductive LogValue
  | nothing
  | truth (b : Bool)
  | whole (n : Int)
  | real (x : Float)
  | text (s : String)
  | list (items : List LogValue)
  | record (fields : List (String × LogValue))

namespace LogValue

def integerText (n : Int) : List Char :=
  Decimal.signed (decide (n < 0)) (Decimal.digits n.natAbs)

mutual

def written : LogValue → List Char
  | nothing => "None".toList
  | truth true => "True".toList
  | truth false => "False".toList
  | whole n => integerText n
  | real x => Decimal.shortest x
  | text s => Text.quoted s.toList
  | list items => '[' :: writtenItems items ++ [']']
  | record fields => '\x7b' :: writtenFields fields ++ ['\x7d']

def writtenItems : List LogValue → List Char
  | [] => []
  | [v] => v.written
  | v :: w :: rest => v.written ++ ',' :: ' ' :: writtenItems (w :: rest)

def writtenFields : List (String × LogValue) → List Char
  | [] => []
  | [(name, v)] => Text.quoted name.toList ++ ':' :: ' ' :: v.written
  | (name, v) :: w :: rest =>
      Text.quoted name.toList ++ ':' :: ' ' :: v.written ++ ',' :: ' ' :: writtenFields (w :: rest)

end

def shown : LogValue → List Char
  | text s => s.toList
  | v => v.written

/-- Two units of 16 bits for a character beyond the first plane. -/
def surrogates (n : Nat) : List Nat :=
  if n < 0x10000 then [n] else [0xd800 + (n - 0x10000) / 0x400, 0xdc00 + (n - 0x10000) % 0x400]

def jsonChar (c : Char) : List Char :=
  if c = '"' ∨ c = '\\' then ['\\', c]
  else if c = '\n' then ['\\', 'n']
  else if c = '\r' then ['\\', 'r']
  else if c = '\t' then ['\\', 't']
  else if c = '\x08' then ['\\', 'b']
  else if c = '\x0c' then ['\\', 'f']
  else if 32 ≤ c.toNat ∧ c.toNat < 127 then [c]
  else (surrogates c.toNat).flatMap fun unit => '\\' :: 'u' :: Text.hexadecimal 4 unit

def jsonText (s : String) : List Char := '"' :: s.toList.flatMap jsonChar ++ ['"']

/-- A number of a JSON text, which also has words for what is no number. -/
def jsonNumber (x : Float) : List Char :=
  if x.isNaN then "NaN".toList
  else if x.isInf then Decimal.signed (decide (x < 0.0)) "Infinity".toList
  else Decimal.shortest x

mutual

def json : LogValue → List Char
  | nothing => "null".toList
  | truth true => "true".toList
  | truth false => "false".toList
  | whole n => integerText n
  | real x => jsonNumber x
  | text s => jsonText s
  | list items => '[' :: jsonItems items ++ [']']
  | record fields => '\x7b' :: jsonFields fields ++ ['\x7d']

def jsonItems : List LogValue → List Char
  | [] => []
  | [v] => v.json
  | v :: w :: rest => v.json ++ ',' :: ' ' :: jsonItems (w :: rest)

def jsonFields : List (String × LogValue) → List Char
  | [] => []
  | [(name, v)] => jsonText name ++ ':' :: ' ' :: v.json
  | (name, v) :: w :: rest =>
      jsonText name ++ ':' :: ' ' :: v.json ++ ',' :: ' ' :: jsonFields (w :: rest)

end

end LogValue

/-- Named values in the order in which they were first set. -/
abbrev LogFields := List (String × LogValue)

namespace LogFields

/-- Sets a field, in its place if it is there already. -/
def set (name : String) (value : LogValue) : LogFields → LogFields
  | [] => [(name, value)]
  | (other, v) :: rest =>
      if other = name then (name, value) :: rest else (other, v) :: set name value rest

def setAll (fields added : LogFields) : LogFields :=
  added.foldl (fun fields (name, value) => set name value fields) fields

def remove (fields : LogFields) (names : List String) : LogFields :=
  fields.filter fun (name, _) => !names.contains name

def shown : LogFields → List Char
  | [] => []
  | [(name, v)] => name.toList ++ '=' :: v.shown
  | (name, v) :: w :: rest => name.toList ++ '=' :: v.shown ++ ' ' :: shown (w :: rest)

end LogFields

end TreeGrowth
