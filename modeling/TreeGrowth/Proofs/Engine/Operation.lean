import TreeGrowth.Grammar.Generation

/-!
# Operations on an engine

Whoever holds an engine changes it by a fixed set of operations.  A run is one
of them, and its observer may operate on the engine in turn, so that operations
nest to any depth: a script says which ones follow on each pass.
-/

namespace TreeGrowth

inductive Operation
  | restart (start : Word) (settings? : Option GrowthSettings)
  | reset
  | reseed (seed : Int)
  | addRule (rule : Rule Float)
  | addRuleText (text : List Char)
  | removeRules (predecessor : Word)
  | removeRule (rule : Rule Float)
  | clearRules
  | singlePass (word : Word)
  /-- A run that does what the script says after each of its passes. -/
  | generate (requested : Int) (script : Nat → List Operation)

/-- The observer that operates on the engine after each pass and knows no more
than the number of passes.  A message breaks the run off. -/
def Observer.operating {G σ : Type}
    (operate : Nat → Engine G → Engine G × Option String) : Observer G σ where
  onPass passes _ run :=
    let (engine, raised) := operate passes run.engine
    ({ run with engine }, raised)
  onProgress _ run := (run, none)

variable {G : Type} [SeededSource G Float]

mutual

def Operation.perform (e : Engine G) : Operation → Engine G × Option String
  | .restart start settings? =>
      match e.restart start settings? with
      | (e, .ok _) => (e, none)
      | (e, .error fault) => (e, some fault.message)
  | .reset => (e.reset, none)
  | .reseed seed =>
      match e.reseed seed with
      | (e, .ok _) => (e, none)
      | (e, .error fault) => (e, some fault.message)
  | .addRule rule => ((e.addRule rule).1, none)
  | .addRuleText text => ((e.addRuleText text).1, none)
  | .removeRules predecessor => ((e.removeRules predecessor).1, none)
  | .removeRule rule => ((e.removeRule rule).1, none)
  | .clearRules => (e.clearRules, none)
  | .singlePass word => ((e.singlePass word).1, none)
  | .generate requested script =>
      let observer : Observer G Unit :=
        .operating fun passes e => Operation.performAll e (script passes)
      match Run.generate requested observer
        { engine := e, cancelled := false, memory := () } with
      | (.ok _, run) => (run.engine, none)
      | (.error fault, run) => (run.engine, some fault.message)
termination_by structural operation => operation

def Operation.performAll (e : Engine G) :
    List Operation → Engine G × Option String
  | [] => (e, none)
  | operation :: rest =>
      match Operation.perform e operation with
      | (e, some message) => (e, some message)
      | (e, none) => Operation.performAll e rest
termination_by structural operations => operations

end

def Observer.performing {σ : Type} (script : Nat → List Operation) :
    Observer G σ :=
  .operating fun passes e => Operation.performAll e (script passes)

end TreeGrowth
