import TreeGrowth.Grammar.Background
import Mathlib

/-!
# The consumer of a task

One consumer shares a background task with the thread that makes the run.  It
asks for the task to be cancelled, takes events out of the queue and looks
whether the task is done.  Each of these accesses is atomic, while a drain of
the queue is not: it takes one event after another until it finds the queue
empty, and the task may post more in between.

The moments of a task lie between any two of its own accesses to what it
shares: the reading of the cancel flag before a pass, the two posts after it,
and at the end the post of the result and the flag that says it is done.  So an
interleaving of the two threads is a list of accesses for every moment.
-/

namespace TreeGrowth

variable {G : Type}

/-! ## Accesses -/

/-- What the consumer of a task finds when it looks at it. -/
structure Sighting where
  /-- The events that it has taken out of the queue before. -/
  received : List TaskEvent
  waiting : List TaskEvent
  done : Bool
  result? : Option RunResult

def Sighting.posted (s : Sighting) : List TaskEvent := s.received ++ s.waiting

structure Consumer where
  /-- The number of moments at which the consumer has met the task. -/
  visits : Nat := 0
  /-- What each drain has returned, the first one first. -/
  batches : List (List TaskEvent) := []
  /-- The events of a drain that is still under way. -/
  batch : List TaskEvent := []
  sightings : List Sighting := []

def Consumer.received (c : Consumer) : List TaskEvent :=
  c.batches.flatten ++ c.batch

namespace GrowthTask

/-- Takes the oldest event out of the queue, or ends the drain if there is
none. -/
def take (task : GrowthTask Consumer) : GrowthTask Consumer :=
  match task.queue.toList with
  | [] =>
      { task with
        memory := { task.memory with
          batches := task.memory.batches ++ [task.memory.batch]
          batch := [] } }
  | event :: rest =>
      { task with
        queue := rest.toArray
        memory := { task.memory with batch := task.memory.batch ++ [event] } }

/-- Ends the drain with all that is in the queue. -/
def takeAll (task : GrowthTask Consumer) : GrowthTask Consumer :=
  let (events, task) := task.drain
  { task with
    memory := { task.memory with
      batches := task.memory.batches ++ [task.memory.batch ++ events]
      batch := [] } }

def look (task : GrowthTask Consumer) : GrowthTask Consumer :=
  { task with
    memory := { task.memory with
      sightings := task.memory.sightings ++
        [{ received := task.memory.received
           waiting := task.queue.toList
           done := task.done
           result? := task.result? }] } }

end GrowthTask

inductive Access
  | cancel
  /-- One step of a drain. -/
  | take
  /-- A drain, or the rest of one, that nothing interrupts. -/
  | drain
  | look

def Access.perform (run : Run G (GrowthTask Consumer)) :
    Access → Run G (GrowthTask Consumer)
  | .cancel => run.cancel
  | .take => { run with memory := run.memory.take }
  | .drain => { run with memory := run.memory.takeAll }
  | .look => { run with memory := run.memory.look }

structure Visit where
  accesses : List Access := []
  /-- An error raised by those that the task tells of its passes. -/
  fault : Option String := none

/-- The interleaving in which the consumer makes the accesses of the `n`-th
visit at the `n`-th moment.  The rewriting of a pass itself raises no error. -/
def Consumer.interlude (visits : Nat → Visit) :
    GrowthTask.Interlude G Consumer :=
  fun moment run =>
    let visit := visits run.memory.memory.visits
    let consumer :=
      { run.memory.memory with visits := run.memory.memory.visits + 1 }
    let met := { run with memory := { run.memory with memory := consumer } }
    (visit.accesses.foldl Access.perform met,
      match moment with
      | .pass _ => none
      | _ => visit.fault)

/-! ## Drains -/

theorem GrowthTask.take_iterate (task : GrowthTask Consumer) {n : Nat}
    (hn : task.queue.size = n) :
    GrowthTask.take^[n + 1] task = task.takeAll := by
  induction n generalizing task with
  | zero =>
      have hqueue : task.queue = #[] := Array.size_eq_zero_iff.mp hn
      simp [GrowthTask.take, GrowthTask.takeAll, GrowthTask.drain, hqueue]
  | succ n ih =>
      cases hevents : task.queue.toList with
      | nil =>
          have hempty : task.queue.toList.length = n + 1 := hn
          simp [hevents] at hempty
      | cons event rest =>
          have hrest : rest.length = n := by
            have hlength : task.queue.toList.length = n + 1 := hn
            simpa [hevents] using hlength
          rw [Function.iterate_succ_apply, ih]
          · simp [GrowthTask.take, GrowthTask.takeAll, GrowthTask.drain,
              hevents]
          · simp [GrowthTask.take, hevents, hrest]

/-! ## What a task shows -/

/-- The task has posted just these events, each of which the consumer has
received or will find in the queue, in order.  Whenever the consumer has looked,
it has seen an initial part of them, and all of them together with the result
once the task was done. -/
structure GrowthTask.Shows (events : List TaskEvent)
    (result : Option RunResult) (done : Bool) (task : GrowthTask Consumer) :
    Prop where
  all_posted : task.memory.received ++ task.queue.toList = events
  result_eq : task.result = result
  done_eq : task.done = done
  posted : ∀ s ∈ task.memory.sightings, s.posted <+: events
  undone : ∀ s ∈ task.memory.sightings, s.done = false → s.result? = none
  complete : ∀ s ∈ task.memory.sightings, s.done = true →
    done = true ∧ s.posted = events ∧ s.result? = result

variable {events : List TaskEvent} {result : Option RunResult} {done : Bool}
  {task : GrowthTask Consumer} {run : Run G (GrowthTask Consumer)}

theorem GrowthTask.Shows.initial :
    GrowthTask.Shows [] none false { memory := {} } := by
  constructor <;> simp [Consumer.received]

theorem GrowthTask.Shows.take (hshows : task.Shows events result done) :
    task.take.Shows events result done := by
  obtain ⟨hevents, hresult, hdone, hposted, hundone, hcomplete⟩ := hshows
  unfold GrowthTask.take
  cases hqueue : task.queue.toList with
  | nil =>
      refine ⟨?_, hresult, hdone, hposted, hundone, hcomplete⟩
      rw [← hevents]
      simp [Consumer.received]
  | cons event rest =>
      refine ⟨?_, hresult, hdone, hposted, hundone, hcomplete⟩
      rw [← hevents, hqueue]
      simp [Consumer.received]

theorem GrowthTask.Shows.takeAll (hshows : task.Shows events result done) :
    task.takeAll.Shows events result done := by
  rw [← task.take_iterate rfl]
  exact Function.Iterate.rec (GrowthTask.Shows events result done) hshows
    (fun _ => GrowthTask.Shows.take) _

theorem GrowthTask.Shows.look (hshows : task.Shows events result done) :
    task.look.Shows events result done := by
  obtain ⟨hevents, hresult, hdone, hposted, hundone, hcomplete⟩ := hshows
  refine ⟨hevents, hresult, hdone, ?_, ?_, ?_⟩
  · intro s hs
    rcases List.mem_append.mp hs with hold | hnew
    · exact hposted s hold
    · obtain rfl := List.mem_singleton.mp hnew
      exact hevents ▸ List.prefix_rfl
  · intro s hs hsdone
    rcases List.mem_append.mp hs with hold | hnew
    · exact hundone s hold hsdone
    · obtain rfl := List.mem_singleton.mp hnew
      have htask : task.done = false := hsdone
      simp [GrowthTask.result?, htask]
  · intro s hs hsdone
    rcases List.mem_append.mp hs with hold | hnew
    · exact hcomplete s hold hsdone
    · obtain rfl := List.mem_singleton.mp hnew
      have htask : task.done = true := hsdone
      exact ⟨hdone ▸ htask, hevents, by simp [GrowthTask.result?, htask, hresult]⟩

theorem GrowthTask.Shows.perform
    (hshows : run.memory.Shows events result done) (access : Access) :
    (access.perform run).memory.Shows events result done := by
  cases access with
  | cancel => exact hshows
  | take => exact hshows.take
  | drain => exact hshows.takeAll
  | look => exact hshows.look

theorem GrowthTask.Shows.performAll
    (hshows : run.memory.Shows events result done) (accesses : List Access) :
    (accesses.foldl Access.perform run).memory.Shows events result done := by
  induction accesses generalizing run with
  | nil => exact hshows
  | cons access accesses ih => exact ih (hshows.perform access)

theorem GrowthTask.Shows.interlude
    (hshows : run.memory.Shows events result done) (visits : Nat → Visit)
    (moment : GrowthTask.Moment) :
    (Consumer.interlude visits moment run).1.memory.Shows events result
      done := by
  have hmet : GrowthTask.Shows events result done
      { run.memory with
        memory := { run.memory.memory with
          visits := run.memory.memory.visits + 1 } } :=
    ⟨hshows.all_posted, hshows.result_eq, hshows.done_eq, hshows.posted,
      hshows.undone, hshows.complete⟩
  exact GrowthTask.Shows.performAll hmet _

/-! ## What a task does -/

theorem GrowthTask.Shows.post (hshows : task.Shows events result false)
    (event : TaskEvent) :
    (task.post event).Shows (events ++ [event]) result false := by
  obtain ⟨hevents, hresult, hdone, hposted, hundone, hcomplete⟩ := hshows
  refine ⟨?_, hresult, hdone, ?_, hundone, ?_⟩
  · rw [← hevents, GrowthTask.post, Array.toList_push, List.append_assoc]
  · intro s hs
    exact (hposted s hs).trans (List.prefix_append events [event])
  · intro s hs hsdone
    simpa using (hcomplete s hs hsdone).1

theorem GrowthTask.Shows.store (hshows : task.Shows events result false)
    (stored : Option RunResult) :
    ({ task with result := stored } : GrowthTask Consumer).Shows events stored
      false := by
  refine ⟨hshows.all_posted, rfl, hshows.done_eq, hshows.posted,
    hshows.undone, ?_⟩
  intro s hs hsdone
  simpa using (hshows.complete s hs hsdone).1

theorem GrowthTask.Shows.finish (hshows : task.Shows events result false) :
    ({ task with done := true } : GrowthTask Consumer).Shows events result
      true := by
  refine ⟨hshows.all_posted, hshows.result_eq, rfl, hshows.posted,
    hshows.undone, ?_⟩
  intro s hs hsdone
  simpa using (hshows.complete s hs hsdone).1

theorem GrowthTask.Shows.result?_eq (hshows : task.Shows events result true) :
    task.result? = result := by
  rw [GrowthTask.result?, if_pos hshows.done_eq, hshows.result_eq]

end TreeGrowth
