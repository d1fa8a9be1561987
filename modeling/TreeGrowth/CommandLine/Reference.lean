import TreeGrowth.CommandLine.Options
import TreeGrowth.Log.Root
import TreeGrowth.Random.Pcg64
import TreeGrowth.Tree

/-!
# The reference tree on the command line

The command grows the reference tree and reports on its word, its drawing and its meshes.  What it
prints and logs is computed here; writing it out is left to the caller.
-/

namespace TreeGrowth.Reference

def options : List OptionSpec :=
  [⟨["-h", "--help"], .help⟩, ⟨["--iterations"], .whole⟩, ⟨["--seed"], .whole⟩,
    ⟨["--tropism"], .real⟩, ⟨["--branch-probability"], .real⟩, ⟨["--out"], .text⟩,
    ⟨["--log-level"], .text⟩]

structure Request where
  iterations : Int := 4
  seed : Int := 42
  tropism : Float := 0.0
  branchProbability : Float := 1.0
  /-- Where to save the most detailed mesh. -/
  out : String := ""
  logLevel : String := "WARNING"

def Request.take (r : Request) : String × OptionValue → Request
  | ("--iterations", .whole n) => { r with iterations := n }
  | ("--seed", .whole n) => { r with seed := n }
  | ("--tropism", .real x) => { r with tropism := x }
  | ("--branch-probability", .real x) => { r with branchProbability := x }
  | ("--out", .text s) => { r with out := s }
  | ("--log-level", .text s) => { r with logLevel := s }
  | _ => r

inductive Failure
  | setup (fault : SetupError)
  | tree (fault : TreeError)
  deriving Repr, DecidableEq

def Failure.message : Failure → String
  | .setup fault => fault.message
  | .tree fault => fault.message

inductive Ending
  | exit (code : Nat)
  | failure (fault : Failure)

/-- Everything that the command prints, logs and saves. -/
structure Report where
  ending : Ending
  printed : List String := []
  /-- What goes to the error output. -/
  logged : String := ""
  /-- The mesh to save, and where. -/
  saved : Option (String × Mesh Float) := none

def program : String := "run_reference_tree.py"

def helpLines : List String :=
  ["usage: " ++ program ++ " [options]", "",
    "Generate the reference L-System tree and report mesh statistics", "",
    "options:",
    "  -h, --help                show this text",
    "  --iterations N            rewrite passes (default: 4)",
    "  --seed N                  random seed, 0 for a different tree every run (default: 42)",
    "  --tropism X               tropism strength in [0, 1] (default: 0)",
    "  --branch-probability X    chance that each bracketed branch is drawn (default: 1.0)",
    "  --out FILE                save the most detailed mesh to this .npz file",
    "  --log-level LEVEL         logging level (default: WARNING)"]

def rule : String := String.ofList (List.replicate 70 '=')

def heading (title : String) : List String := ["", rule, "  " ++ title, rule]

/-- A text in a column, at its left or its right end. -/
def column (width : Nat) (atRight : Bool) (text : String) : String :=
  let fill := String.ofList (List.replicate (width - text.length) ' ')
  if atRight then fill ++ text else text ++ fill

def line (name value : String) : String := "  " ++ column 19 false name ++ value

/-- The upmost of the ends of all segments; undefined if one of them is. -/
def height (segments : Array (Segment Float)) : Float :=
  let tops := segments.toList.map fun s => s.endPosition.z
  if tops.any Float.isNaN then 0.0 / 0.0
  else tops.tail.foldl (fun m z => if m < z then z else m) (tops.headD 0.0)

def meshRow (cells : List String) : String :=
  match cells with
  | [] => "  "
  | number :: others =>
      "  " ++ column 5 false number ++
        String.join ((others.zip [8, 10, 11, 12]).map fun (cell, width) => column width true cell)

/-- The path in its plain form: no empty parts, and no parts that stand for the same place. -/
def plainPath (path : String) : String :=
  let cs := path.toList
  let slashes := (cs.takeWhile (· = '/')).length
  let root := if slashes = 0 then "" else if slashes = 2 then "//" else "/"
  let parts := (path.splitOn "/").filter fun part => part ≠ "" && part ≠ "."
  let plain := root ++ "/".intercalate parts
  if plain.isEmpty then "." else plain

def archivePath (path : String) : String :=
  let plain := plainPath path
  if plain.endsWith ".npz" then plain else plain ++ ".npz"

def directoryOf (path : String) : String :=
  let parts := path.splitOn "/"
  match parts.dropLast with
  | [] => "."
  | [""] => "/"
  | parents => "/".intercalate parents

def Request.recipe (r : Request) : TreeRecipe :=
  { passes := r.iterations
    seed := r.seed
    turtle :=
      { (TurtleConfig.standard : TurtleConfig Float) with
        tropismStrength := r.tropism
        branchProbability := r.branchProbability } }

/-- The lines on a tree, given the time that its word took. -/
def treeLines (recipe : TreeRecipe) (tree : Tree) (milliseconds : Float) : List String :=
  let statistics := tree.run.elim {} RunResult.statistics
  let segments := tree.interpretation.elim #[] Interpretation.segments
  heading "GRAMMAR" ++
    [line "String length:" statistics.length.repr,
      line "Passes:" statistics.passes.repr,
      line "Rules applied:" statistics.tally.rewritten.repr,
      line "Termination:" statistics.reason.name,
      line "Time:" (String.ofList (Decimal.fixed 2 milliseconds) ++ " ms")] ++
    heading "TURTLE" ++
    [line "Segments:" segments.size.repr,
      line "Leaves:" tree.leafCount.repr,
      line "Max depth:" (tree.interpretation.elim 0 Interpretation.maxDepth).repr] ++
    (if segments.isEmpty then []
      else [line "Height:" (String.ofList (Decimal.fixed 1 (height segments)))]) ++
    heading "MESH LODS" ++
    [meshRow ["LOD", "Radial", "Vertices", "Triangles", "Leaf verts"]] ++
    ((recipe.levels.zip tree.meshes).zipIdx.map fun ((level, mesh), i) =>
      meshRow [i.repr, level.ringSize.repr, mesh.vertices.size.repr, mesh.triangleCount.repr,
        mesh.leafVertices.repr])

/-- The outside of a run of the command: what the clock and the terminal say. -/
structure Surroundings where
  /-- Seconds since the first of January 1970. -/
  now : Float := 0.0
  /-- How long the word took, in milliseconds. -/
  elapsed : Float := 0.0
  onTerminal : Bool := false
  /-- A number for trees without a seed. -/
  entropy : Nat := 0

def logAll (now : Float) (journal : Journal) (root : LogRoot) : LogRoot :=
  journal.foldl
    (fun root entry =>
      root.log
        { created := now
          level := entry.severity.rank
          name := "tree"
          template := entry.message })
    root

def perform (request : Request) (around : Surroundings) : Report :=
  let setup : LogSetup :=
    { level := request.logLevel, context := [("seed", .whole request.seed)] }
  match LogRoot.setup setup { onTerminal := around.onTerminal } with
  | (_, .error fault) => { ending := .failure (.setup fault) }
  | (root, .ok _) =>
      let recipe := request.recipe
      let observer : TreeObserver (List Nat) :=
        { onStep := fun step steps => steps ++ [step]
          duringPass := fun _ steps => steps
          isCancelled := fun _ => false }
      let growth := recipe.grow Pcg64 observer around.entropy []
      let opening := heading "L-SYSTEM TREE" ++
        ["  Axiom:      " ++ String.ofList recipe.start,
          "  Rule:       " ++ String.ofList referenceRule,
          "  Iterations: " ++ toString recipe.passes,
          "  Seed:       " ++ toString recipe.seed] ++
        growth.memory.map fun step =>
          "  [" ++ step.repr ++ "/" ++ TreeObserver.steps.repr ++ "] done"
      let logged := String.ofList (logAll around.now growth.journal root).takeConsole.1
      match growth.outcome with
      | .error fault => { ending := .failure (.tree fault), printed := opening, logged }
      | .ok tree =>
          if !tree.success then
            { ending := .exit 1, printed := opening ++ ["", "  FAILED: " ++ tree.message], logged }
          else
            let printed := opening ++ treeLines recipe tree around.elapsed
            match request.out.isEmpty, tree.meshes with
            | false, mesh :: _ =>
                { ending := .exit 0
                  printed := printed ++ ["", "  Saved LOD0 to " ++ plainPath request.out]
                  logged
                  saved := some (archivePath request.out, mesh) }
            | _, _ => { ending := .exit 0, printed, logged }

/-- Reads the arguments and carries out what they ask for. -/
def run (arguments : List String) (around : Surroundings) : Report :=
  match Invocation.ofArguments options arguments with
  | .error fault =>
      { ending := .exit 2, logged := program ++ ": error: " ++ fault.message ++ "\n" }
  | .ok .help => { ending := .exit 0, printed := helpLines }
  | .ok (.run values) => perform (values.foldl Request.take {}) around

end TreeGrowth.Reference
