import TreeGrowth.Grammar.Generation

/-!
# Runs in the background

A background task makes one run and posts what happens to a queue: after every pass the new word and
the share of the passes made, and at the very end the result.  Meanwhile somebody else may look at
the task, drain its queue or ask it to stop; an interlude says what they do at each moment at which
the task can be met.

The result is stored before the last event is posted, and the task is done only after both.
-/

namespace TreeGrowth

inductive TaskEvent
  | iteration (passes : Nat) (word : Word)
  | progress (fraction : Float)
  | complete (result : RunResult)

structure GrowthTask (σ : Type) where
  /-- Events that were posted and not yet drained, oldest first. -/
  queue : Array TaskEvent := #[]
  result : Option RunResult := none
  done : Bool := false
  memory : σ

namespace GrowthTask

variable {σ : Type}

def post (event : TaskEvent) (task : GrowthTask σ) : GrowthTask σ :=
  { task with queue := task.queue.push event }

def drain (task : GrowthTask σ) : List TaskEvent × GrowthTask σ :=
  (task.queue.toList, { task with queue := #[] })

def result? (task : GrowthTask σ) : Option RunResult := if task.done then task.result else none

/-- A moment at which others may meet the task. -/
inductive Moment
  /-- Before the first pass. -/
  | start
  /-- In the course of a pass. -/
  | pass (passes : Nat)
  /-- After the word of a pass was posted. -/
  | iteration (passes : Nat)
  /-- After the share of the passes was posted. -/
  | progress (fraction : Float)
  /-- After the result was stored. -/
  | stored
  /-- After the last event was posted. -/
  | posted
  /-- After the task was done. -/
  | finished
  deriving Repr

/-- What others do at each moment.  A message is an error raised within the task; it breaks off a
pass and is of no effect outside one. -/
abbrev Interlude (G σ : Type) :=
  Moment → Run G (GrowthTask σ) → Run G (GrowthTask σ) × Option String

end GrowthTask

namespace Run

variable {G σ : Type}

def cancel (run : Run G (GrowthTask σ)) : Run G (GrowthTask σ) :=
  { run with cancelled := true }.report .info "Generation cancel requested"

def post (event : TaskEvent) (run : Run G (GrowthTask σ)) : Run G (GrowthTask σ) :=
  { run with memory := run.memory.post event }

end Run

namespace GrowthTask

variable {G σ : Type}

/-- Does one thing after another, unless the first raises an error. -/
def andThen (first second : Run G (GrowthTask σ) → Run G (GrowthTask σ) × Option String)
    (run : Run G (GrowthTask σ)) : Run G (GrowthTask σ) × Option String :=
  match first run with
  | (run, some message) => (run, some message)
  | (run, none) => second run

/-- The observer that posts events, with the interludes of others in between. -/
def observer (interlude : Interlude G σ) : Observer G (GrowthTask σ) where
  onPass passes word :=
    andThen (interlude (.pass passes)) fun run =>
      interlude (.iteration passes) (run.post (.iteration passes word))
  onProgress fraction run := interlude (.progress fraction) (run.post (.progress fraction))

/-- The result that a task stores: a run without a result counts as failed. -/
def settle (outcome : Except RunError RunResult) (run : Run G (GrowthTask σ)) :
    RunResult × Run G (GrowthTask σ) :=
  match outcome with
  | .ok result => (result, run)
  | .error fault =>
      (.failed fault.message,
        run.report .error ("Background generation failed: " ++ fault.message))

/-- Makes the run of a task from its start to its end. -/
def perform [SeededSource G Float] (requested : Int) (interlude : Interlude G σ)
    (run : Run G (GrowthTask σ)) : Run G (GrowthTask σ) :=
  let (run, _) := interlude .start run
  let (outcome, run) := run.generate requested (observer interlude)
  let (result, run) := settle outcome run
  let run := { run with memory := { run.memory with result := some result } }
  let (run, _) := interlude .stored run
  let run := run.post (.complete result)
  let (run, _) := interlude .posted run
  let run := { run with memory := { run.memory with done := true } }
  let (run, _) := interlude .finished run
  run.report .info ("Background generation complete (status=" ++ result.status.name ++ ")")

end GrowthTask

end TreeGrowth
