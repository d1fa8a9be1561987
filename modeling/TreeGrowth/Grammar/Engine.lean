import TreeGrowth.Grammar.Rewriting
import TreeGrowth.Grammar.RuleSet
import TreeGrowth.Grammar.Settings
import TreeGrowth.Log.Entry
import TreeGrowth.Text.Quoted

/-!
# Engines

An engine holds a start word, rules and settings, and remembers how its last run went.  It has a
random source of its own for single passes, while every run starts a source anew from the seed of
the settings.
-/

namespace TreeGrowth

structure Progress where
  passes : Nat := 0
  fraction : Float := 0.0
  growing : Bool := false
  word : Word := []

inductive StopReason
  /-- All requested passes were made. -/
  | completed
  /-- More passes were requested than the settings allow. -/
  | passLimit
  | lengthLimit
  | cancelled
  /-- A pass left the word as it was. -/
  | fixedPoint
  deriving Repr, DecidableEq

def StopReason.name : StopReason → String
  | .completed => "completed"
  | .passLimit => "max_iterations"
  | .lengthLimit => "max_string_length"
  | .cancelled => "cancelled"
  | .fixedPoint => "fixed_point"

/-- Symbols with the number of their occurrences, in ascending order. -/
abbrev SymbolCounts := List (Char × Nat)

namespace SymbolCounts

def add (c : Char) : SymbolCounts → SymbolCounts
  | [] => [(c, 1)]
  | (d, n) :: rest =>
      if c = d then (d, n + 1) :: rest
      else if c < d then (c, 1) :: (d, n) :: rest
      else (d, n) :: add c rest

def ofWord (word : Word) : SymbolCounts := word.foldl (fun counts c => add c counts) []

end SymbolCounts

structure Statistics where
  passes : Nat := 0
  length : Nat := 0
  tally : Tally := {}
  symbols : SymbolCounts := []
  reason : StopReason := .completed

structure Engine (G : Type) where
  start : Word
  rules : List (Rule Float)
  settings : GrowthSettings
  statistics : Statistics
  progress : Progress
  source : G
  /-- The number from which the next source without a seed is made. -/
  entropy : Nat
  journal : Journal

namespace Engine

variable {G : Type} [SeededSource G Float]

def create (start : Word) (settings : GrowthSettings) (entropy : Nat) :
    Except SeedError (Engine G) := do
  let source ← SeededSource.ofSeed entropy settings.seed
  return {
    start
    rules := []
    settings
    statistics := {}
    progress := { word := start }
    source
    entropy := nextEntropy entropy settings.seed
    journal := #[] }

omit [SeededSource G Float] in
def report (e : Engine G) (severity : Severity) (message : String) : Engine G :=
  { e with journal := e.journal.push ⟨severity, message⟩ }

/-- Starts the engine's own source anew from the seed of its settings. -/
def restartSource (e : Engine G) : Except SeedError (Engine G) :=
  (SeededSource.ofSeed e.entropy e.settings.seed).map fun source =>
    { e with source, entropy := nextEntropy e.entropy e.settings.seed }

/-- Sets the start word and forgets the last run.  New settings also restart the source; if their
seed is refused, the start word and the settings are already set and the last run is kept. -/
def restart (start : Word) (settings? : Option GrowthSettings) (e : Engine G) :
    Engine G × Except SeedError Unit :=
  let e := { e with start }
  let restarted : Except SeedError (Engine G) × Engine G :=
    match settings? with
    | none => (.ok e, e)
    | some settings =>
        let e := { e with settings }
        (e.restartSource, e)
  match restarted with
  | (.error fault, e) => (e, .error fault)
  | (.ok e, _) =>
      let e := { e with progress := { word := start }, statistics := {} }
      (e.report .debug ("Initialized with axiom: " ++ String.ofList start), .ok ())

omit [SeededSource G Float] in
/-- Clears the start word, the rules and the last run. -/
def reset (e : Engine G) : Engine G :=
  { e with start := [], rules := [], progress := {}, statistics := {} }

/-- Sets the seed and restarts the source; a refused seed is set all the same. -/
def reseed (seed : Int) (e : Engine G) : Engine G × Except SeedError Unit :=
  let e := { e with settings := { e.settings with seed } }
  match e.restartSource with
  | .ok e => (e, .ok ())
  | .error fault => (e, .error fault)

omit [SeededSource G Float]

/-- Adds a rule at the end; a faulty one is reported and refused. -/
def addRule (rule : Rule Float) (e : Engine G) : Engine G × Bool :=
  match rule.fault? with
  | some fault =>
      (e.report .warning ("Rejected invalid rule " ++ String.ofList (Text.quoted rule.render) ++
        ": " ++ fault.message), false)
  | none =>
      let e := { e with rules := e.rules ++ [rule] }
      (e.report .debug ("Added rule: " ++ String.ofList rule.render), true)

/-- Adds a rule given in its notation; a text that is no rule is reported and refused. -/
def addRuleText (text : List Char) (e : Engine G) : Engine G × Bool :=
  match Rule.parse text with
  | .ok rule => e.addRule rule
  | .error fault =>
      (e.report .warning ("Could not parse rule " ++ String.ofList (Text.quoted text) ++ ": " ++
        fault.message), false)

/-- Removes all rules for a symbol and says how many there were. -/
def removeRules (predecessor : Word) (e : Engine G) : Engine G × Nat :=
  let kept := e.rules.filter fun r => r.predecessor != predecessor
  ({ e with rules := kept }, e.rules.length - kept.length)

/-- Removes the first rule that is the same as the given one. -/
def removeRule (rule : Rule Float) (e : Engine G) : Engine G × Bool :=
  ({ e with rules := e.rules.eraseP fun r => r.sameAs rule }, e.rules.any fun r => r.sameAs rule)

def clearRules (e : Engine G) : Engine G := { e with rules := [] }

def hasRuleFor (symbol : Word) (e : Engine G) : Bool :=
  e.rules.any fun r => r.predecessor == symbol

inductive StartFault
  | emptyStart
  | noRules
  deriving Repr, DecidableEq

def StartFault.message : StartFault → String
  | .emptyStart => "Axiom cannot be empty"
  | .noRules => "No rules defined"

/-- All that keeps an engine from a sound run: what it lacks, then the faults of its rules. -/
def faults (e : Engine G) : List String :=
  (if e.start.isEmpty then [StartFault.emptyStart.message] else []) ++
    (if e.rules.isEmpty then [StartFault.noRules.message] else []) ++
    (Rule.faultLines e.rules).filter fun line => !line.isEmpty

def isReady (e : Engine G) : Bool := e.faults.isEmpty

/-- Rewrites a word once with the engine's own source; no statistics are kept. -/
def singlePass (word : Word) (e : Engine G) : Engine G × Word :=
  let pass := rewritePass (RuleTable.ofRules e.rules) e.settings.lengthLimit {} e.source word
  ({ e with source := pass.source }, pass.word)

inductive EstimateError
  /-- The number of passes is too great for a machine number. -/
  | hugeExponent
  /-- The power is too great for a machine number. -/
  | hugePower
  deriving Repr, DecidableEq

def EstimateError.message : EstimateError → String
  | .hugeExponent => "int too large to convert to float"
  | .hugePower => "(34, 'Numerical result out of range')"

/-- About how long the word is after a number of passes: the start word lengthened in every pass by
the growth factor, which counts as at least one.  How machine numbers are raised to a power is left
to the platform. -/
def estimateLengthBy (power : Float → Float → Float) (passes : Int) (e : Engine G) :
    Except EstimateError Nat :=
  if e.start.isEmpty || e.rules.isEmpty then .ok 0
  else
    let exponent := Float.ofNat passes.toNat
    if !exponent.isFinite then .error .hugeExponent
    else
      let growth := Scalar.atLeast 1.0 (Rule.growthFactor e.rules)
      let power := power growth exponent
      if growth.isFinite && !power.isFinite then .error .hugePower
      else
        let estimate := Scalar.atMost (Float.ofNat GrowthSettings.longest)
          (Float.ofNat e.start.length * power)
        .ok estimate.toUInt64.toNat

def estimateLength (passes : Int) (e : Engine G) : Except EstimateError Nat :=
  e.estimateLengthBy Float.pow passes

end Engine

end TreeGrowth
