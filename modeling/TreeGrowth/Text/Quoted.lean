import TreeGrowth.Text.Printable

/-!
# Quoted text

A text is quoted between two apostrophes, or between two quotation marks if it holds an apostrophe
and no quotation mark.  The mark itself and the backslash are escaped; line ends and tabs have
letters of their own; any other character that is not printable is written by its code point.
-/

namespace TreeGrowth.Text

/-- The lower-case hexadecimal digits of a number, filled up to a width. -/
def hexadecimal (width n : Nat) : List Char :=
  let ds := Nat.toDigits 16 n
  List.replicate (width - ds.length) '0' ++ ds

def quoteMark (text : List Char) : Char :=
  if text.contains '\'' && !text.contains '"' then '"' else '\''

/-- A character that is not printable, by its code point in the narrowest of three forms. -/
def codePointEscape (c : Char) : List Char :=
  let n := c.toNat
  if n < 0x100 then '\\' :: 'x' :: hexadecimal 2 n
  else if n < 0x10000 then '\\' :: 'u' :: hexadecimal 4 n
  else '\\' :: 'U' :: hexadecimal 8 n

def escapeIn (mark c : Char) : List Char :=
  if c = mark ∨ c = '\\' then ['\\', c]
  else if c = '\n' then ['\\', 'n']
  else if c = '\r' then ['\\', 'r']
  else if c = '\t' then ['\\', 't']
  else if isPrintable c then [c]
  else codePointEscape c

def quoted (text : List Char) : List Char :=
  let mark := quoteMark text
  mark :: text.flatMap (escapeIn mark) ++ [mark]

/-- One character of a text of which only the printable part of the smallest character set stays. -/
def plainEscape (c : Char) : List Char := if c.toNat < 128 then [c] else codePointEscape c

def plainQuoted (text : List Char) : List Char := (quoted text).flatMap plainEscape

end TreeGrowth.Text
