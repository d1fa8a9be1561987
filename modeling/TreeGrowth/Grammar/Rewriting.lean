import TreeGrowth.Grammar.Rule
import TreeGrowth.Random.Source

/-!
# One pass of rewriting

A pass rewrites all symbols of a word at once.  For each symbol, the rules for it whose contexts
match the neighbours compete, and only the most specific of them are eligible.  A single eligible
rule fires, several are drawn by weight, and without one the symbol stays.

The neighbours are always those of the word before the pass.  The scan stops as soon as its output
is longer than the limit, and the output is then cut to the limit.
-/

namespace TreeGrowth

/-- Rules grouped by the symbol that they rewrite, in the order of its first rule. -/
structure RuleTable (K : Type) where
  groups : List (Word × List (Rule K))

namespace RuleTable

variable {K : Type}

/-- Adds a rule at the end of its group, or as a new group. -/
def add (r : Rule K) : List (Word × List (Rule K)) → List (Word × List (Rule K))
  | [] => [(r.predecessor, [r])]
  | (symbol, rules) :: groups =>
      if symbol = r.predecessor then (symbol, rules ++ [r]) :: groups
      else (symbol, rules) :: add r groups

def ofRules (rules : List (Rule K)) : RuleTable K where
  groups := rules.foldl (fun groups r => add r groups) []

def candidates (table : RuleTable K) (symbol : Char) : List (Rule K) :=
  (table.groups.lookup [symbol]).getD []

end RuleTable

/-- What happens to a symbol. -/
inductive Choice (K : Type)
  /-- No rule is eligible. -/
  | keep
  /-- One rule is eligible. -/
  | forced (rule : Rule K)
  /-- Several rules are eligible, and this one was drawn. -/
  | drawn (rule : Rule K)

namespace Choice

variable {K : Type}

def rule? : Choice K → Option (Rule K)
  | keep => none
  | forced rule => some rule
  | drawn rule => some rule

def isDrawn : Choice K → Bool
  | drawn _ => true
  | _ => false

/-- Lets one more rule compete with the equally specific ones found so far. -/
def contend (left right : Option Word) (best : List (Rule K)) (r : Rule K) : List (Rule K) :=
  if r.matchesContext left right then
    match best.head? with
    | none => [r]
    | some b =>
        if b.specificity < r.specificity then [r]
        else if b.specificity = r.specificity then best ++ [r]
        else best
  else best

/-- The most specific of the rules whose contexts match. -/
def eligible (candidates : List (Rule K)) (left right : Option Word) : List (Rule K) :=
  candidates.foldl (contend left right) []

variable [Scalar K]

/-- The first rule at which the running sum of the weights exceeds the draw. -/
def reaching? (draw : K) : K → List (Rule K) → Option (Rule K)
  | _, [] => none
  | sum, r :: rest =>
      let sum := sum + r.probability
      if draw < sum then some r else reaching? draw sum rest

variable {G : Type} [RandomSource G K]

/-- Draws one of several rules by weight; rules without any weight are equally likely.  The last
rule stands in where the sum of all weights does not exceed the draw. -/
def drawRule (first : Rule K) (others : List (Rule K)) (source : G) : Rule K × G :=
  let rules := first :: others
  let weight := Scalar.total (rules.map fun r => r.probability)
  if weight ≤ 0.0 then
    let (i, source) := RandomSource.index rules.length source
    (rules.getD i first, source)
  else
    let (draw, source) := RandomSource.between 0.0 weight source
    ((reaching? draw 0.0 rules).getD (others.getLastD first), source)

/-- Decides among eligible rules; only several of them take a draw. -/
def among (rules : List (Rule K)) (source : G) : Choice K × G :=
  match rules with
  | [] => (keep, source)
  | [r] => (forced r, source)
  | first :: others =>
      let (r, source) := drawRule first others source
      (drawn r, source)

/-- Decides what happens to a symbol between its neighbours. -/
def ofCandidates (candidates : List (Rule K)) (left right : Option Word) (source : G) :
    Choice K × G :=
  among (eligible candidates left right) source

end Choice

structure Tally where
  /-- Symbols that were rewritten. -/
  rewritten : Nat := 0
  /-- Symbols that were rewritten by a rule that asks for a neighbour. -/
  inContext : Nat := 0
  /-- Symbols for which a rule was drawn. -/
  drawn : Nat := 0
  deriving Repr, DecidableEq

def Tally.count {K : Type} (tally : Tally) (choice : Choice K) : Tally where
  rewritten := tally.rewritten + (if choice.rule?.isSome then 1 else 0)
  inContext := tally.inContext + (if choice.rule?.any Rule.isContextSensitive then 1 else 0)
  drawn := tally.drawn + (if choice.isDrawn then 1 else 0)

/-- A pass under way: the symbols written so far, the tally and the random source. -/
structure Scan (G : Type) where
  output : Array Char
  tally : Tally
  source : G

namespace Scan

variable {K G : Type} [Scalar K] [RandomSource G K]

def symbol (table : RuleTable K) (left : Option Char) (symbol : Char) (right : Option Char)
    (scan : Scan G) : Scan G :=
  let (choice, source) :=
    Choice.ofCandidates (table.candidates symbol) (left.map ([·])) (right.map ([·])) scan.source
  let piece := choice.rule?.elim [symbol] fun r => r.successor
  { output := scan.output.appendList piece, tally := scan.tally.count choice, source }

/-- Scans the rest of a word, whose left neighbour is given, and says whether the output came to
exceed the limit. -/
def word (table : RuleTable K) (limit : Nat) (left : Option Char) : Word → Scan G → Scan G × Bool
  | [], scan => (scan, false)
  | c :: rest, scan =>
      let scan := scan.symbol table left c rest.head?
      if limit < scan.output.size then (scan, true)
      else word table limit (some c) rest scan

end Scan

structure Pass (G : Type) where
  word : Word
  truncated : Bool
  tally : Tally
  source : G

/-- Rewrites all symbols of a word, up to a limit on the length of the new word. -/
def rewritePass {K G : Type} [Scalar K] [RandomSource G K] (table : RuleTable K) (limit : Nat)
    (tally : Tally) (source : G) (word : Word) : Pass G :=
  let (scan, truncated) := Scan.word table limit none word { output := #[], tally, source }
  let written := scan.output.toList
  { word := if truncated then written.take limit else written
    truncated
    tally := scan.tally
    source := scan.source }

end TreeGrowth
