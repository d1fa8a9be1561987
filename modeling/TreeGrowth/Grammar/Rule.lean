import TreeGrowth.Numeric.Scalar

/-!
# Production rules

A rule rewrites one symbol, its predecessor, into a word, its successor.  It may ask for a certain
neighbour on either side, and it carries a weight against other rules that fit as closely.
-/

namespace TreeGrowth

/-- A word is a sequence of symbols, and every character is a symbol. -/
abbrev Word := List Char

/-- A production rule.  An empty context asks for nothing. -/
structure Rule (K : Type) where
  leftContext : Word
  predecessor : Word
  rightContext : Word
  successor : Word
  probability : K
  deriving Repr

inductive RuleError (K : Type)
  | predecessorLength (predecessor : Word)
  | emptySuccessor
  | leftContextLength (context : Word)
  | rightContextLength (context : Word)
  | probabilityNotFinite (probability : K)
  deriving Repr

namespace Rule

variable {K : Type} [Scalar K]

/-- A finite weight lies between zero and one; a weight that is no number is kept to be refused. -/
def boundedProbability (p : K) : K := if Scalar.isFinite p then Scalar.clamp 0.0 1.0 p else p

def ofWords (left predecessor right successor : Word) (p : K) : Rule K where
  leftContext := left
  predecessor := predecessor
  rightContext := right
  successor := successor
  probability := boundedProbability p

/-- The first fault of a rule, in the order of its parts. -/
def fault? (r : Rule K) : Option (RuleError K) :=
  if r.predecessor.length ≠ 1 then some (.predecessorLength r.predecessor)
  else if r.successor.isEmpty then some .emptySuccessor
  else if 1 < r.leftContext.length then some (.leftContextLength r.leftContext)
  else if 1 < r.rightContext.length then some (.rightContextLength r.rightContext)
  else if Scalar.isFinite r.probability then none
  else some (.probabilityNotFinite r.probability)

def isValid (r : Rule K) : Bool := r.fault?.isNone

omit [Scalar K]

def isContextSensitive (r : Rule K) : Bool :=
  !r.leftContext.isEmpty || !r.rightContext.isEmpty

def specificity (r : Rule K) : Nat :=
  (if r.leftContext.isEmpty then 0 else 1) + (if r.rightContext.isEmpty then 0 else 1)

/-- A context against the neighbour on its side, `none` at the end of a word.  A context that asks
for something never finds it there. -/
def contextMatches (context : Word) (neighbor : Option Word) : Bool :=
  context.isEmpty || neighbor == some context

/-- Whether both contexts of a rule are met. -/
def matchesContext (r : Rule K) (left right : Option Word) : Bool :=
  contextMatches r.leftContext left && contextMatches r.rightContext right

/-- Whether two rules have the same four words and the same weight. -/
def sameAs (r s : Rule K) : Bool :=
  r.predecessor == s.predecessor && r.successor == s.successor &&
    Scalar.agree r.probability s.probability &&
    r.leftContext == s.leftContext && r.rightContext == s.rightContext

end Rule

end TreeGrowth
