import TreeGrowth.Grammar.Engine

/-!
# Runs

A run rewrites the start word of an engine, pass after pass, until it has made all passes, meets a
limit, is cancelled, or reaches a word that a pass leaves as it was.  It works on the rules and the
settings that the engine had when it began, and draws from a source of its own.

An observer is told of every pass and may do anything to the engine meanwhile, cancel the run, or
break it off with an error.  Cancelling is honoured between passes only.
-/

namespace TreeGrowth

inductive RunStatus
  | success
  | failure
  | cancelled
  deriving Repr, DecidableEq

def RunStatus.name : RunStatus → String
  | .success => "success"
  | .failure => "failure"
  | .cancelled => "cancelled"

/-- What a run has come to.  A cancelled run still has the word of its last pass. -/
structure RunResult where
  word : Word := []
  status : RunStatus := .success
  message : String := ""
  /-- The start word and the word after every pass, if they are kept. -/
  history : List Word := []
  statistics : Statistics := {}

namespace RunResult

def succeeded (r : RunResult) : Bool := r.status == .success

/-- The result of a run that did not begin or was broken off. -/
def failed (message : String) : RunResult := { status := .failure, message }

end RunResult

inductive RunError
  | seed (fault : SeedError)
  /-- An observer broke the run off. -/
  | observer (message : String)
  deriving Repr, DecidableEq

def RunError.message : RunError → String
  | .seed fault => fault.message
  | .observer message => message

/-- What an observer sees and may change: the engine, whether the run is to be cancelled, and a
memory of its own. -/
structure Run (G σ : Type) where
  engine : Engine G
  cancelled : Bool
  memory : σ

def Run.report {G σ : Type} (run : Run G σ) (severity : Severity) (message : String) : Run G σ :=
  { run with engine := run.engine.report severity message }

/-- What is done after each pass; a message breaks the run off. -/
structure Observer (G σ : Type) where
  /-- Told the number of passes made and the new word. -/
  onPass : Nat → Word → Run G σ → Run G σ × Option String
  /-- Told the share of the passes made, after `onPass`. -/
  onProgress : Float → Run G σ → Run G σ × Option String

def Observer.idle {G σ : Type} : Observer G σ where
  onPass _ _ run := (run, none)
  onProgress _ run := (run, none)

/-- What a run takes from the engine when it begins. -/
structure RunPlan where
  start : Word
  table : RuleTable Float
  settings : GrowthSettings
  /-- The number of passes to make. -/
  passes : Nat
  /-- The severity of reports on single passes. -/
  severity : Severity

def RunPlan.ofEngine {G : Type} (requested : Int) (e : Engine G) : RunPlan where
  start := e.start
  table := RuleTable.ofRules e.rules
  settings := e.settings
  passes := e.settings.passesFor requested
  severity := if e.settings.verbose then .info else .debug

structure Growth (G σ : Type) where
  word : Word
  passes : Nat
  /-- The words so far, if they are kept. -/
  history : Array Word
  tally : Tally
  source : G
  run : Run G σ

inductive Halt
  | stop (reason : StopReason)
  | broken (message : String)

namespace Growth

variable {G σ : Type} [SeededSource G Float]

omit [SeededSource G Float] in
/-- The reason to make no further pass, if there is one already before it. -/
def stopBefore? (plan : RunPlan) (g : Growth G σ) : Option StopReason :=
  if g.run.cancelled then some .cancelled
  else if plan.settings.lengthLimit ≤ g.word.length then some .lengthLimit
  else none

/-- Rewrites the word once and records the new one with the engine. -/
def rewrite (plan : RunPlan) (g : Growth G σ) : Growth G σ × Bool :=
  let pass := rewritePass plan.table plan.settings.lengthLimit g.tally g.source g.word
  let passes := g.passes + 1
  let fraction := Float.ofNat passes / Float.ofNat plan.passes
  let engine :=
    { g.run.engine with
      progress := { g.run.engine.progress with passes, fraction, word := pass.word } }
  let engine := engine.report plan.severity
    ("Iteration " ++ passes.repr ++ ": length=" ++ pass.word.length.repr)
  ({ word := pass.word
     passes
     history := if plan.settings.keepHistory then g.history.push pass.word else g.history
     tally := pass.tally
     source := pass.source
     run := { g.run with engine } },
   pass.truncated)

omit [SeededSource G Float] in
/-- Tells the observer of the pass just made. -/
def notify (plan : RunPlan) (observer : Observer G σ) (g : Growth G σ) :
    Growth G σ × Option String :=
  match observer.onPass g.passes g.word g.run with
  | (run, some message) => ({ g with run }, some message)
  | (run, none) =>
      let (run, broken) :=
        observer.onProgress (Float.ofNat g.passes / Float.ofNat plan.passes) run
      ({ g with run }, broken)

/-- Makes one pass, unless there is a reason against it, and says whether to go on. -/
def step (plan : RunPlan) (observer : Observer G σ) (g : Growth G σ) :
    Growth G σ × Option Halt :=
  match g.stopBefore? plan with
  | some reason => (g, some (.stop reason))
  | none =>
      let before := g.word
      let (g, truncated) := g.rewrite plan
      match g.notify plan observer with
      | (g, some message) => (g, some (.broken message))
      | (g, none) =>
          if truncated then
            let run := g.run.report .warning
              ("String length exceeded maximum (" ++ plan.settings.lengthLimit.repr ++
                ") during iteration " ++ g.passes.repr ++ ", truncated")
            ({ g with run }, some (.stop .lengthLimit))
          else if g.word = before then
            let run := g.run.report plan.severity
              ("String unchanged at iteration " ++ g.passes.repr ++ ", stopping")
            ({ g with run }, some (.stop .fixedPoint))
          else (g, none)

/-- Makes as many passes as are left, or until there is a reason to stop. -/
def advance (plan : RunPlan) (observer : Observer G σ) :
    Nat → Growth G σ → Growth G σ × Option Halt
  | 0, g => (g, none)
  | left + 1, g =>
      match g.step plan observer with
      | (g, none) => advance plan observer left g
      | (g, some halt) => (g, some halt)

omit [SeededSource G Float] in
/-- Closes a run that was not broken off: the reason is settled and reported, and the engine
remembers the statistics. -/
def finish (plan : RunPlan) (requested : Int) (early : Option StopReason) (g : Growth G σ) :
    RunResult × Run G σ :=
  let reason := early.getD
    (if (plan.settings.passLimit : Int) < requested then .passLimit else .completed)
  let run :=
    match early with
    | none | some .fixedPoint => g.run
    | some reason => g.run.report .info ("Generation terminated early: " ++ reason.name)
  let statistics : Statistics :=
    { passes := g.passes
      length := g.word.length
      tally := g.tally
      symbols := SymbolCounts.ofWord g.word
      reason }
  let engine :=
    { run.engine with
      progress := { run.engine.progress with growing := false, fraction := 1.0 }
      statistics }
  ({ word := g.word
     status := if reason = .cancelled then .cancelled else .success
     history := g.history.toList
     statistics },
   { run with engine })

end Growth

namespace Run

variable {G σ : Type} [SeededSource G Float]

omit [SeededSource G Float] in
def startFault? (run : Run G σ) : Option Engine.StartFault :=
  if run.engine.start.isEmpty then some .emptyStart
  else if run.engine.rules.isEmpty then some .noRules
  else none

omit [SeededSource G Float] in
def refusal : Engine.StartFault → String
  | .emptyStart => "Generation failed: axiom is empty"
  | .noRules => "Generation failed: no rules defined"

def begin (plan : RunPlan) (source : G) (run : Run G σ) : Growth G σ :=
  let engine :=
    { run.engine with
      progress := { growing := true, word := plan.start }
      entropy := nextEntropy run.engine.entropy plan.settings.seed }
  { word := plan.start
    passes := 0
    history := if plan.settings.keepHistory then #[plan.start] else #[]
    tally := {}
    source
    run := { run with
      engine := engine.report plan.severity ("Iteration 0: length=" ++ plan.start.length.repr) } }

/-- Rewrites the start word up to `requested` times, as the settings allow.  A run that is broken
off leaves the engine growing. -/
def generate (requested : Int) (observer : Observer G σ) (run : Run G σ) :
    Except RunError RunResult × Run G σ :=
  match run.startFault? with
  | some fault => (.ok (.failed fault.message), run.report .warning (refusal fault))
  | none =>
      let plan := RunPlan.ofEngine requested run.engine
      match SeededSource.ofSeed run.engine.entropy plan.settings.seed with
      | .error fault => (.error (.seed fault), run)
      | .ok source =>
          match (run.begin plan source).advance plan observer plan.passes with
          | (g, some (.broken message)) => (.error (.observer message), g.run)
          | (g, some (.stop reason)) =>
              let (result, run) := g.finish plan requested (some reason)
              (.ok result, run)
          | (g, none) =>
              let (result, run) := g.finish plan requested none
              (.ok result, run)

end Run

namespace Engine

variable {G : Type} [SeededSource G Float]

def generate (requested : Int) (e : Engine G) : Except RunError RunResult × Engine G :=
  let (result, run) :=
    Run.generate requested .idle { engine := e, cancelled := false, memory := () }
  (result, run.engine)

/-- The word of a run, or the empty word if it fails. -/
def generateWord (requested : Int) (e : Engine G) : Except RunError Word × Engine G :=
  let (result, e) := e.generate requested
  (result.map fun r => if r.succeeded then r.word else [], e)

end Engine

end TreeGrowth
