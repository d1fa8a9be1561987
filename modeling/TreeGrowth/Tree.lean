import TreeGrowth.Grammar.Generation
import TreeGrowth.Mesh.Sweep
import TreeGrowth.Turtle.Walk

/-!
# Growing a tree

A tree is grown in four steps: an engine is given the rules, the engine rewrites the start word, the
word is drawn, and the drawing is swept into meshes.  One seed drives both the rewriting and the
drawing.  A rule that is refused and a run that does not succeed end the growth with a message.
-/

namespace TreeGrowth

/-- A rule of a recipe, as it is or in its notation. -/
inductive RecipeRule
  | rule (rule : Rule Float)
  | text (text : List Char)

def RecipeRule.render : RecipeRule → List Char
  | .rule r => r.render
  | .text t => t

/-- The reference tree: every step grows two arms of three pieces each, with a leaf at the tip. -/
def referenceStart : Word := ['F']

def referenceRule : List Char := "F -> FF&[-/F+F+FL]^[+\\F-F-FL]".toList

/-- High, middle and low detail, the last without leaves. -/
def standardLevels : List DetailLevel :=
  [{ ringSize := 12, screenSize := 1.0, includeLeaves := true },
    { ringSize := 8, screenSize := 0.5, includeLeaves := true },
    { ringSize := 4, screenSize := 0.25, includeLeaves := false }]

structure TreeRecipe where
  start : Word := referenceStart
  rules : List RecipeRule := [.text referenceRule]
  passes : Int := 4
  /-- The seed of the rewriting and of the drawing, whatever their own settings say. -/
  seed : Int := 0
  growth : GrowthSettings := {}
  turtle : TurtleConfig Float := .standard
  geometry : GeometryConfig Float := .standard
  levels : List DetailLevel := standardLevels

structure Tree where
  success : Bool := false
  message : String := ""
  word : Word := []
  run : Option RunResult := none
  interpretation : Option (Interpretation Float) := none
  meshes : List (Mesh Float) := []

namespace Tree

/-- The position of the mesh for a level of detail, the first or the last one where there is no such
level. -/
def levelPosition? (t : Tree) (level : Int) : Option Nat :=
  if t.meshes.isEmpty then none else some (min level.toNat (t.meshes.length - 1))

def segmentCount (t : Tree) : Nat := t.interpretation.elim 0 fun i => i.segments.size

def leafCount (t : Tree) : Nat := t.interpretation.elim 0 fun i => i.leaves.size

end Tree

inductive TreeError
  | run (fault : RunError)
  | turtle (fault : TurtleError)
  deriving Repr, DecidableEq

def TreeError.message : TreeError → String
  | .run fault => fault.message
  | .turtle fault => fault.message

/-- Who watches a growth, with a memory, and may ask to cancel the rewriting. -/
structure TreeObserver (σ : Type) where
  /-- Told the number of a step that is done. -/
  onStep : Nat → σ → σ
  /-- What happens meanwhile in the course of a pass of the rewriting. -/
  duringPass : Nat → σ → σ
  isCancelled : σ → Bool

def TreeObserver.steps : Nat := 4

/-- The outcome of a growth, the memory of its observer and what was reported. -/
structure TreeGrowthReport (σ : Type) where
  outcome : Except TreeError Tree
  memory : σ
  journal : Journal

namespace TreeRecipe

variable {G σ : Type} [SeededSource G Float]

omit [SeededSource G Float] in
def addRule (e : Engine G) : RecipeRule → Engine G × Bool
  | .rule r => e.addRule r
  | .text t => e.addRuleText t

omit [SeededSource G Float] in
/-- Gives the engine all rules, up to the first that it refuses. -/
def addRules : List RecipeRule → Engine G → Engine G × Option RecipeRule
  | [], e => (e, none)
  | rule :: rest, e =>
      match addRule e rule with
      | (e, true) => addRules rest e
      | (e, false) => (e, some rule)

/-- Rewrites the start word while the observer may ask to cancel. -/
def rewrite (recipe : TreeRecipe) (observer : TreeObserver σ) (e : Engine G) (memory : σ) :
    Except RunError RunResult × Run G σ :=
  let watch : Observer G σ :=
    { onPass := fun passes _ run =>
        let memory := observer.duringPass passes run.memory
        ({ run with memory, cancelled := observer.isCancelled memory }, none)
      onProgress := fun _ run => (run, none) }
  Run.generate recipe.passes watch
    { engine := e, cancelled := observer.isCancelled memory, memory }

variable (G) in
/-- The length of the word that the recipe's rules grow. -/
def wordLength (recipe : TreeRecipe) (entropy : Nat) : Nat :=
  let settings := { recipe.growth with seed := recipe.seed }
  match (Engine.create recipe.start settings entropy : Except SeedError (Engine G)) with
  | .error _ => 0
  | .ok engine =>
      let quiet : TreeObserver Unit := ⟨fun _ s => s, fun _ s => s, fun _ => false⟩
      (recipe.rewrite quiet (addRules recipe.rules engine).1 ()).2.engine.statistics.length

def turtleConfig (recipe : TreeRecipe) : TurtleConfig Float :=
  { recipe.turtle with seed := recipe.seed, leafSize := recipe.geometry.leafSize }

/-- The text that ends a growth whose rewriting did not succeed. -/
def stopMessage (result : RunResult) : String :=
  if result.message.isEmpty then "Generation " ++ result.status.name else result.message

variable (G) in
/-- Draws the word and sweeps the drawing into meshes. -/
def draw (recipe : TreeRecipe) (observer : TreeObserver σ) (result : RunResult) (entropy : Nat)
    (memory : σ) (journal : Journal) : TreeGrowthReport σ :=
  let (drawing, notices) := Walk.interpret G entropy recipe.turtleConfig result.word
  let journal := journal ++ notices.map TurtleNotice.entry
  match drawing with
  | .error fault => { outcome := .error (.turtle fault), memory, journal }
  | .ok interpretation =>
      let memory := observer.onStep 3 memory
      let (meshes, entries) :=
        Mesh.ofLevels recipe.geometry interpretation.segments interpretation.leaves recipe.levels
      let memory := observer.onStep 4 memory
      let summary := "Tree built: " ++ result.word.length.repr ++ " symbols, " ++
        interpretation.segments.size.repr ++ " segments, " ++ interpretation.leaves.size.repr ++
        " leaves, " ++ meshes.length.repr ++ " LODs"
      { outcome := .ok
          { success := true
            word := result.word
            run := some result
            interpretation := some interpretation
            meshes }
        memory
        journal := (journal ++ entries).push ⟨.info, summary⟩ }

variable (G) in
def grow (recipe : TreeRecipe) (observer : TreeObserver σ) (entropy : Nat) (memory : σ) :
    TreeGrowthReport σ :=
  let settings := { recipe.growth with seed := recipe.seed }
  match (Engine.create recipe.start settings entropy : Except SeedError (Engine G)) with
  | .error fault => { outcome := .error (.run (.seed fault)), memory, journal := #[] }
  | .ok engine =>
      match addRules recipe.rules engine with
      | (engine, some refused) =>
          { outcome := .ok { message := "Invalid rule: " ++ String.ofList refused.render }
            memory
            journal := engine.journal }
      | (engine, none) =>
          match recipe.rewrite observer engine (observer.onStep 1 memory) with
          | (.error fault, run) =>
              { outcome := .error (.run fault)
                memory := run.memory
                journal := run.engine.journal }
          | (.ok result, run) =>
              if result.succeeded then
                recipe.draw G observer result run.engine.entropy
                  (observer.onStep 2 run.memory) run.engine.journal
              else
                let message := stopMessage result
                { outcome := .ok { message, word := result.word, run := some result }
                  memory := run.memory
                  journal := run.engine.journal.push
                    ⟨.warning, "Tree generation stopped: " ++ message⟩ }

end TreeRecipe

end TreeGrowth
