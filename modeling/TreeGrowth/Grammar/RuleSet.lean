import TreeGrowth.Grammar.RuleText

/-!
# Lists of rules

What can be said of a list of rules before anything grows: which rules are at fault, how they are
grouped and ordered, how much they lengthen a word, and what kinds of rules there are.
-/

namespace TreeGrowth.Rule

variable {K : Type}

def forPredecessor (rules : List (Rule K)) (predecessor : Word) : List (Rule K) :=
  rules.filter fun r => r.predecessor == predecessor

def contextSensitive (rules : List (Rule K)) : List (Rule K) :=
  rules.filter fun r => r.isContextSensitive

def contextFree (rules : List (Rule K)) : List (Rule K) :=
  rules.filter fun r => !r.isContextSensitive

/-- The most specific rules first; equally specific ones keep their order. -/
def sortBySpecificity (rules : List (Rule K)) : List (Rule K) :=
  rules.mergeSort fun r s => decide (s.specificity ≤ r.specificity)

/-- The symbols that are rewritten, in the order in which they first occur. -/
def predecessors (rules : List (Rule K)) : List Word :=
  (rules.map fun r => r.predecessor).eraseDups

variable [Scalar K]

/-- One line for every rule: the fault of a rule with its position, and nothing for a valid one. -/
def faultLines (rules : List (Rule Float)) : List String :=
  rules.zipIdx.map fun (r, i) =>
    match r.fault? with
    | some fault => "Rule " ++ i.repr ++ ": " ++ fault.message
    | none => ""

/-- The weights of all rules for a predecessor, added up in order. -/
def groupTotal (rules : List (Rule K)) (predecessor : Word) : K :=
  Scalar.total ((forPredecessor rules predecessor).map fun r => r.probability)

/-- Whether the weights of a group are brought to a sum of one: it has several rules, and their sum
is positive and not one already. -/
def needsScaling (rules : List (Rule K)) (predecessor : Word) : Bool :=
  let sum := groupTotal rules predecessor
  decide (1 < (forPredecessor rules predecessor).length) && decide (0.0 < sum) &&
    !Scalar.isClose sum 1.0

/-- Scales the weights of every group of rules for one predecessor to a sum of one.  Contexts do not
split groups. -/
def normalize (rules : List (Rule K)) : List (Rule K) :=
  rules.map fun r =>
    if needsScaling rules r.predecessor then
      { r with probability := boundedProbability (r.probability / groupTotal rules r.predecessor) }
    else r

/-- The weighted mean length of a successor: into how many symbols one rewritten symbol grows.  A
list without weight does not grow. -/
def growthFactor (rules : List (Rule K)) : K :=
  let weight := Scalar.total (rules.map fun r => r.probability)
  if rules.isEmpty || decide (weight ≤ 0.0) then 1.0
  else Scalar.total (rules.map fun r => (r.successor.length : K) * r.probability) / weight

/-- A rule whose weight is not full. -/
def isStochastic (r : Rule K) : Bool := !Scalar.isClose r.probability 1.0

/-- Which neighbours a rule asks for, and whether its weight is full. -/
structure Kind where
  left : Bool
  right : Bool
  stochastic : Bool
  deriving Repr, DecidableEq

def kind (r : Rule K) : Kind where
  left := !r.leftContext.isEmpty
  right := !r.rightContext.isEmpty
  stochastic := r.isStochastic

def Kind.description (k : Kind) : String :=
  let context :=
    match k.left, k.right with
    | true, true => "Full Context-Sensitive"
    | true, false => "Left Context-Sensitive"
    | false, true => "Right Context-Sensitive"
    | false, false => "Context-Free"
  context ++ (if k.stochastic then ", Stochastic" else ", Deterministic")

end TreeGrowth.Rule
