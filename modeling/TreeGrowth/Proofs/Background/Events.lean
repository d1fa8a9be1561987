import TreeGrowth.Proofs.Background.Consumer
import TreeGrowth.Proofs.Growth.Isolation

/-!
# The events of a task

A task posts two events for every stage that its run gets to, and at its very
end the event that carries the result.  This holds for every interleaving with
its consumer: the consumer can only move events from the queue to its batches,
and by cancelling decide at which stage the run ends.
-/

namespace TreeGrowth

variable {G : Type} [SeededSource G Float]

/-! ## Events of a run -/

def RunPlan.eventsOf (plan : RunPlan) (source : G) (pass : Nat) :
    List TaskEvent :=
  [.iteration pass (plan.stage source pass).word,
    .progress (Float.ofNat pass / Float.ofNat plan.passes)]

/-- The events of the first `k` passes. -/
def RunPlan.eventsUpTo (plan : RunPlan) (source : G) (k : Nat) :
    List TaskEvent :=
  (List.range k).flatMap fun j => plan.eventsOf source (j + 1)

variable {plan : RunPlan} {source : G}

theorem RunPlan.eventsUpTo_succ (plan : RunPlan) (source : G) (k : Nat) :
    plan.eventsUpTo source (k + 1) =
      plan.eventsUpTo source k ++ plan.eventsOf source (k + 1) := by
  simp [RunPlan.eventsUpTo, List.range_succ]

theorem RunPlan.complete_notMem_eventsUpTo (plan : RunPlan) (source : G)
    (k : Nat) (result : RunResult) :
    .complete result ∉ plan.eventsUpTo source k := by
  simp [RunPlan.eventsUpTo, RunPlan.eventsOf]

/-- What a task shows while its run is between two passes, and what it shows
while only the word of the last pass is posted. -/
theorem Consumer.keeps_events (visits : Nat → Visit) (plan : RunPlan)
    (source : G) :
    (GrowthTask.observer (Consumer.interlude visits)).Keeps plan source
      (fun k run =>
        run.memory.Shows (plan.eventsUpTo source k) none false)
      (fun k run => ∃ j, k = j + 1 ∧ run.memory.Shows
        (plan.eventsUpTo source j ++
          [.iteration k (plan.stage source k).word]) none false) where
  engine _ _ _ hshows := hshows
  onPass k run hshows _ := by
    have hmet := hshows.interlude visits (.pass (k + 1))
    have hposted := hmet.post
      (.iteration (k + 1) (plan.stage source (k + 1)).word)
    exact ⟨k, rfl, GrowthTask.Shows.interlude hposted visits
      (.iteration (k + 1))⟩
  onProgress k run htold := by
    obtain ⟨j, hj, hshows⟩ := htold
    obtain rfl := Nat.succ.inj hj
    have hposted := hshows.post
      (.progress (Float.ofNat (k + 1) / Float.ofNat plan.passes))
    rw [List.append_assoc] at hposted
    rw [RunPlan.eventsUpTo_succ]
    exact GrowthTask.Shows.interlude hposted visits _

/-! ## How a run of a task ends -/

/-- What a run of a task has come to, with the events posted until then. -/
inductive GrowthTask.Ending (plan : RunPlan) (seeded : Except SeedError G) :
    Except RunError RunResult → List TaskEvent → Prop
  | refused (fault : Engine.StartFault) :
      GrowthTask.Ending plan seeded (.ok (.failed fault.message)) []
  | ended (source : G) (result : RunResult) (hsource : seeded = .ok source) :
      GrowthTask.Ending plan seeded (.ok result)
        (plan.eventsUpTo source result.statistics.passes)
  | broken (source : G) (message : String) (posts : List TaskEvent) (k : Nat)
      (hposts : posts <+: plan.eventsUpTo source k) :
      GrowthTask.Ending plan seeded (.error (.observer message)) posts
  | unseeded (fault : SeedError) :
      GrowthTask.Ending plan seeded (.error (.seed fault)) []

theorem GrowthTask.exists_ending (visits : Nat → Visit) (requested : Int)
    (run : Run G (GrowthTask Consumer))
    (hshows : run.memory.Shows [] none false) :
    let ended := run.generate requested
      (GrowthTask.observer (Consumer.interlude visits))
    ∃ posts,
      GrowthTask.Ending (G := G) (RunPlan.ofEngine requested run.engine)
        (SeededSource.ofSeed run.engine.entropy run.engine.settings.seed)
        ended.1 posts ∧
      ended.2.memory.Shows posts none false := by
  intro ended
  rcases run.generate_not_begun requested
      (GrowthTask.observer (Consumer.interlude visits)) with
    ⟨fault, hfault, hfailed⟩ | ⟨fault, hbegins, hseed, hrefused⟩ |
      ⟨source, hbegins, hsource⟩
  · refine ⟨[], ?_, ?_⟩
    · rw [hfailed]
      exact .refused fault
    · simp only [ended, Run.generate, hfault]
      exact hshows
  · refine ⟨[], ?_, ?_⟩
    · rw [hrefused]
      exact .unseeded fault
    · have hplan : SeededSource.ofSeed (G := G) run.engine.entropy
          (RunPlan.ofEngine requested run.engine).settings.seed =
            .error fault := hseed
      simp only [ended, Run.generate, hbegins, hplan]
      exact hshows
  · have houtcome := run.outcome_generate requested hbegins hsource
      (Consumer.keeps_events visits _ source) hshows
    change Run.Outcome _ _ _ _ _ _ ended at houtcome
    generalize ended = out at houtcome
    cases houtcome with
    | whole run hinv => exact ⟨_, .ended source _ hsource, hinv⟩
    | cancelled k run _ _ hinv _ => exact ⟨_, .ended source _ hsource, hinv⟩
    | broken k run message _ _ hinv =>
        rcases hinv with ⟨j, rfl, hinv⟩ | hinv
        · refine ⟨_, .broken source message _ (j + 1) ?_, hinv⟩
          rw [RunPlan.eventsUpTo_succ]
          exact (List.prefix_append_right_inj _).mpr ⟨_, rfl⟩
        · exact ⟨_, .broken source message _ k List.prefix_rfl, hinv⟩

theorem GrowthTask.Ending.complete_notMem {seeded : Except SeedError G}
    {outcome : Except RunError RunResult} {posts : List TaskEvent}
    (hending : GrowthTask.Ending plan seeded outcome posts)
    (result : RunResult) : .complete result ∉ posts := by
  cases hending with
  | refused | unseeded => simp
  | ended source returned _ =>
      exact RunPlan.complete_notMem_eventsUpTo _ source _ result
  | broken source message posts k hposts =>
      intro hmem
      exact RunPlan.complete_notMem_eventsUpTo _ source k result
        (hposts.subset hmem)

/-- The result that a task stores for an outcome of its run. -/
def GrowthTask.resultOf : Except RunError RunResult → RunResult
  | .ok result => result
  | .error fault => .failed fault.message

/-- At its end a task stores its result, posts it and is done, in this
order. -/
theorem GrowthTask.shows_perform (visits : Nat → Visit) (requested : Int)
    (run : Run G (GrowthTask Consumer)) {posts : List TaskEvent}
    {outcome : Except RunError RunResult} {ended : Run G (GrowthTask Consumer)}
    (hgenerate : (Consumer.interlude visits .start run).1.generate requested
      (GrowthTask.observer (Consumer.interlude visits)) = (outcome, ended))
    (hshows : ended.memory.Shows posts none false) :
    (GrowthTask.perform requested (Consumer.interlude visits)
      run).memory.Shows (posts ++ [.complete (GrowthTask.resultOf outcome)])
        (some (GrowthTask.resultOf outcome)) true := by
  set interlude : GrowthTask.Interlude G Consumer := Consumer.interlude visits
  set result := GrowthTask.resultOf outcome
  have hsettle : ∃ settled : Run G (GrowthTask Consumer),
      GrowthTask.settle outcome ended = (result, settled) ∧
        settled.memory.Shows posts none false := by
    cases outcome with
    | ok returned => exact ⟨ended, rfl, hshows⟩
    | error fault => exact ⟨_, rfl, hshows⟩
  obtain ⟨settled, hsettled, hopen⟩ := hsettle
  let stored := (interlude .stored { settled with
    memory := { settled.memory with result := some result } }).1
  have hstored : stored.memory.Shows posts (some result) false :=
    GrowthTask.Shows.interlude (hopen.store (some result)) visits .stored
  let posted := (interlude .posted (stored.post (.complete result))).1
  have hposted : posted.memory.Shows (posts ++ [.complete result])
      (some result) false :=
    GrowthTask.Shows.interlude (hstored.post (.complete result)) visits
      .posted
  have hperform : (GrowthTask.perform requested interlude run).memory =
      (interlude .finished { posted with
        memory := { posted.memory with done := true } }).1.memory := by
    simp only [GrowthTask.perform, hgenerate, hsettled]
    rfl
  rw [hperform]
  exact GrowthTask.Shows.interlude hposted.finish visits .finished

/-! ## Engines that only hear of a cancelling -/

omit [SeededSource G Float] in
theorem Access.exists_engine_eq (access : Access)
    (run : Run G (GrowthTask Consumer)) :
    ∃ journal, (access.perform run).engine = { run.engine with journal } := by
  cases access with
  | cancel => exact ⟨_, rfl⟩
  | take | drain | look => exact ⟨run.engine.journal, rfl⟩

omit [SeededSource G Float] in
theorem Consumer.exists_engine_eq (visits : Nat → Visit)
    (moment : GrowthTask.Moment) (run : Run G (GrowthTask Consumer)) :
    ∃ journal, (Consumer.interlude visits moment run).1.engine =
      { run.engine with journal } := by
  have hperformed : ∀ (accesses : List Access)
      (met : Run G (GrowthTask Consumer)), ∃ journal,
        (accesses.foldl Access.perform met).engine =
          { met.engine with journal } := by
    intro accesses
    induction accesses with
    | nil => exact fun met => ⟨met.engine.journal, rfl⟩
    | cons access accesses ih =>
        intro met
        obtain ⟨_, hfirst⟩ := access.exists_engine_eq met
        obtain ⟨journal, hrest⟩ := ih (access.perform met)
        refine ⟨journal, ?_⟩
        rw [List.foldl_cons, hrest, hfirst]
  exact hperformed _ _

/-! ## Every interleaving -/

/-- However the accesses of a consumer are interleaved with the task, what it
has received and what a last drain returns are all events of the task, each
once and in order: an iteration and a progress for every pass of the run, then
the result, once and last.  A run that raises an error ends with a failure that
carries its text.  Whenever the consumer has looked it has seen an initial part
of these events; and once it has seen that the task is done, it has seen all of
them and the very result that the last one carries. -/
theorem task_events_exactly_once (visits : Nat → Visit) (requested : Int)
    (e : Engine G) (cancelled : Bool) :
    let start : Run G (GrowthTask Consumer) :=
      { engine := e, cancelled, memory := { memory := {} } }
    let interlude := Consumer.interlude visits
    let outcome := (Run.generate requested (GrowthTask.observer interlude)
      (interlude .start start).1).1
    let task := (GrowthTask.perform requested interlude start).memory
    let plan := RunPlan.ofEngine requested e
    ∃ posts result,
      task.memory.received ++ task.drain.1 = posts ++ [.complete result] ∧
      (∀ other, .complete other ∉ posts) ∧
      task.result? = some result ∧
      (plan.passes : Int) = max 0 (min requested e.settings.passLimit) ∧
      (∀ returned, outcome = .ok returned → result = returned ∧
        (posts = [] ∧ returned.statistics.passes = 0 ∨
          ∃ source : G,
            SeededSource.ofSeed e.entropy e.settings.seed = .ok source ∧
            posts = (List.range returned.statistics.passes).flatMap fun j =>
              [.iteration (j + 1) (plan.stage source (j + 1)).word,
                .progress (Float.ofNat (j + 1) / Float.ofNat plan.passes)])) ∧
      (∀ fault, outcome = .error fault →
        result.status = .failure ∧ result.message = fault.message) ∧
      ∀ sighting ∈ task.memory.sightings,
        sighting.posted <+: posts ++ [.complete result] ∧
        (sighting.done = false → sighting.result? = none) ∧
        (sighting.done = true →
          sighting.posted = posts ++ [.complete result] ∧
            sighting.result? = some result) := by
  intro start interlude outcome task plan
  have hstart : (interlude .start start).1.memory.Shows [] none false :=
    GrowthTask.Shows.interlude GrowthTask.Shows.initial visits .start
  obtain ⟨journal, hengine⟩ : ∃ journal, (interlude .start start).1.engine =
      { e with journal } := Consumer.exists_engine_eq visits .start start
  obtain ⟨posts, hending, hposts⟩ := GrowthTask.exists_ending visits requested
    (interlude .start start).1 hstart
  rw [hengine] at hending
  change GrowthTask.Ending plan (SeededSource.ofSeed e.entropy e.settings.seed)
    outcome posts at hending
  have hpasses : (plan.passes : Int) =
      max 0 (min requested e.settings.passLimit) := by
    change ((min requested.toNat e.settings.passLimit : Nat) : Int) = _
    omega
  have htask : task.Shows
      (posts ++ [.complete (GrowthTask.resultOf outcome)])
      (some (GrowthTask.resultOf outcome)) true :=
    GrowthTask.shows_perform visits requested start rfl hposts
  refine ⟨posts, GrowthTask.resultOf outcome, htask.all_posted,
    hending.complete_notMem, htask.result?_eq, hpasses, ?_, ?_, ?_⟩
  · intro returned hreturned
    rw [hreturned] at hending ⊢
    refine ⟨rfl, ?_⟩
    cases hending with
    | refused fault => exact .inl ⟨rfl, rfl⟩
    | ended source _ hsource => exact .inr ⟨source, hsource, rfl⟩
  · intro fault hfault
    rw [hfault]
    exact ⟨rfl, rfl⟩
  · intro sighting hsighting
    refine ⟨htask.posted sighting hsighting, htask.undone sighting hsighting,
      ?_⟩
    intro hdone
    exact (htask.complete sighting hsighting hdone).2

end TreeGrowth
