import TreeGrowth.Proofs.Engine.Operation
import TreeGrowth.Proofs.Growth.Course
import TreeGrowth.Random.Pcg64

/-!
# Runs are isolated from their observers

A run works on what its engine held when it began.  So its result is the one
of the last stage of its plan, whatever its observer does to the engine, as
long as the observer neither breaks it off nor cancels it; and with a seed of
its own the plan's source depends on nothing but the settings.
-/

namespace TreeGrowth

variable {G σ : Type} [SeededSource G Float]

/-! ## Observers that let a run be -/

omit [SeededSource G Float] in
/-- The observer never asks for a run to be cancelled. -/
structure Observer.Patient (observer : Observer G σ) : Prop where
  onPass : ∀ passes word run, run.cancelled = false →
    (observer.onPass passes word run).1.cancelled = false
  onProgress : ∀ fraction run, run.cancelled = false →
    (observer.onProgress fraction run).1.cancelled = false

theorem Observer.Patient.keeps {observer : Observer G σ}
    (hpatient : observer.Patient) (plan : RunPlan) (source : G) :
    observer.Keeps plan source (fun _ run => run.cancelled = false)
      (fun _ run => run.cancelled = false) where
  engine _ _ _ hrunning := hrunning
  onPass _ run hrunning _ := hpatient.onPass _ _ run hrunning
  onProgress _ run hrunning := hpatient.onProgress _ run hrunning

theorem Observer.keeps_true (observer : Observer G σ) (plan : RunPlan)
    (source : G) :
    observer.Keeps plan source (fun _ _ => True) (fun _ _ => True) where
  engine _ _ _ _ := trivial
  onPass _ _ _ _ := trivial
  onProgress _ _ _ := trivial

omit [SeededSource G Float] in
theorem Observer.idle_patient : (Observer.idle : Observer G σ).Patient where
  onPass _ _ _ hrunning := hrunning
  onProgress _ _ hrunning := hrunning

omit [SeededSource G Float] in
theorem Observer.not_raises_idle (message : String) :
    ¬(Observer.idle : Observer G σ).Raises message := by
  simp [Observer.Raises, Observer.idle]

theorem Observer.performing_patient (script : Nat → List Operation) :
    (Observer.performing script : Observer G σ).Patient where
  onPass _ _ _ hrunning := hrunning
  onProgress _ _ hrunning := hrunning

/-! ## Undisturbed runs -/

variable {observer : Observer G σ} {run : Run G σ} {source : G}

/-- A run that begins, and is neither broken off nor cancelled, has the result
of the last stage of its plan. -/
theorem Run.generate_eq_lastStage (run : Run G σ) (observer : Observer G σ)
    (requested : Int)
    (hfault : run.startFault? = none)
    (hsource : SeededSource.ofSeed run.engine.entropy
      run.engine.settings.seed = .ok source)
    (hunbroken : ∀ message,
      (run.generate requested observer).1 ≠ .error (.observer message))
    (huncancelled : ∀ result, (run.generate requested observer).1 = .ok result →
      result.status ≠ .cancelled) :
    let plan := RunPlan.ofEngine requested run.engine
    (run.generate requested observer).1 =
      .ok (plan.resultAt requested source (plan.lastStage source)
        (plan.endReason? source (plan.lastStage source))) := by
  have houtcome := run.outcome_generate requested hfault hsource
    (observer.keeps_true _ source) trivial
  generalize run.generate requested observer = out
    at houtcome hunbroken huncancelled
  cases houtcome with
  | whole run _ => rfl
  | cancelled k run _ _ _ _ =>
      exact absurd rfl (huncancelled _ rfl)
  | broken k run message _ _ _ =>
      exact absurd rfl (hunbroken message)

theorem Run.exists_eq_resultAt (run : Run G σ) (observer : Observer G σ)
    (requested : Int) (hfault : run.startFault? = none)
    (hsource : SeededSource.ofSeed run.engine.entropy
      run.engine.settings.seed = .ok source)
    {result : RunResult}
    (hresult : (run.generate requested observer).1 = .ok result) :
    let plan := RunPlan.ofEngine requested run.engine
    ∃ k ≤ plan.lastStage source,
      ∃ early, result = plan.resultAt requested source k early := by
  have houtcome := run.outcome_generate requested hfault hsource
    (observer.keeps_true _ source) trivial
  generalize run.generate requested observer = out at houtcome hresult
  cases houtcome with
  | whole run _ => exact ⟨_, le_rfl, _, (Except.ok.inj hresult).symm⟩
  | cancelled k run hle _ _ _ =>
      exact ⟨k, hle, _, (Except.ok.inj hresult).symm⟩
  | broken k run message _ _ _ => simp at hresult

omit [SeededSource G Float] in
theorem Run.startFault?_congr {τ : Type} {run : Run G σ} {other : Run G τ}
    (hstart : run.engine.start = other.engine.start)
    (hrules : run.engine.rules = other.engine.rules) :
    run.startFault? = other.startFault? := by
  simp only [Run.startFault?, hstart, hrules]

theorem Run.generate_not_begun (requested : Int) (observer : Observer G σ)
    (run : Run G σ) :
    (∃ fault, run.startFault? = some fault ∧
        (run.generate requested observer).1 = .ok (.failed fault.message)) ∨
      (∃ fault, run.startFault? = none ∧
        SeededSource.ofSeed (G := G) run.engine.entropy
          run.engine.settings.seed = .error fault ∧
        (run.generate requested observer).1 = .error (.seed fault)) ∨
      ∃ source : G, run.startFault? = none ∧
        SeededSource.ofSeed run.engine.entropy run.engine.settings.seed =
          .ok source := by
  cases hfault : run.startFault? with
  | some fault => exact .inl ⟨fault, rfl, by simp [Run.generate, hfault]⟩
  | none =>
      cases hsource : SeededSource.ofSeed (G := G) run.engine.entropy
          run.engine.settings.seed with
      | error fault =>
          have hplan : SeededSource.ofSeed (G := G) run.engine.entropy
              (RunPlan.ofEngine requested run.engine).settings.seed =
                .error fault := hsource
          exact .inr (.inl ⟨fault, rfl, rfl,
            by simp [Run.generate, hfault, hplan]⟩)
      | ok source => exact .inr (.inr ⟨source, rfl, rfl⟩)

theorem Run.status_ne_cancelled_of_patient (requested : Int)
    (hpatient : observer.Patient) (hrunning : run.cancelled = false)
    {result : RunResult}
    (hresult : (run.generate requested observer).1 = .ok result) :
    result.status ≠ .cancelled := by
  rcases run.generate_not_begun requested observer with
    ⟨fault, _, hfailed⟩ | ⟨fault, _, _, hrefused⟩ | ⟨source, hfault, hsource⟩
  · rw [hfailed] at hresult
    obtain rfl := Except.ok.inj hresult
    simp [RunResult.failed]
  · rw [hrefused] at hresult
    simp at hresult
  · have houtcome := run.outcome_generate requested hfault hsource
      (hpatient.keeps _ source) hrunning
    generalize run.generate requested observer = out at houtcome hresult
    cases houtcome with
    | whole run _ =>
        obtain rfl := Except.ok.inj hresult
        exact RunPlan.status_resultAt_ne_cancelled _ _ _ _
          (RunPlan.endReason?_ne_cancelled _ _ _)
    | cancelled k run _ _ hrunning hcancelled =>
        rw [hrunning] at hcancelled
        exact absurd hcancelled Bool.false_ne_true
    | broken k run message _ _ _ => simp at hresult

theorem Run.generate_idle_ne_broken (requested : Int) (run : Run G σ)
    (message : String) :
    (run.generate requested .idle).1 ≠ .error (.observer message) := by
  rcases run.generate_not_begun requested .idle with
    ⟨fault, _, hfailed⟩ | ⟨fault, _, _, hrefused⟩ | ⟨source, hfault, hsource⟩
  · simp [hfailed]
  · simp [hrefused]
  · have houtcome := run.outcome_generate requested hfault hsource
      (Observer.idle.keeps_true _ source) trivial
    generalize run.generate requested .idle = out at houtcome
    cases houtcome with
    | whole run _ => simp
    | cancelled k run _ _ _ _ => simp
    | broken k run message' _ hraises _ =>
        exact absurd hraises (Observer.not_raises_idle message')

/-! ## Two runs on the same snapshot -/

theorem SeededSource.ofSeed_of_pos (entropy : Nat) {seed : Int}
    (hseed : 0 < seed) :
    (SeededSource.ofSeed entropy seed : Except SeedError G) =
      .ok (SeededSource.ofEntropy seed.toNat) := by
  rw [SeededSource.ofSeed, if_neg (by omega), if_neg (by omega)]

omit [SeededSource G Float] in
theorem RunPlan.ofEngine_congr {e e' : Engine G} (requested : Int)
    (hstart : e.start = e'.start) (hrules : e.rules = e'.rules)
    (hsettings : e.settings = e'.settings) :
    RunPlan.ofEngine requested e = RunPlan.ofEngine requested e' := by
  simp only [RunPlan.ofEngine, hstart, hrules, hsettings]

theorem Run.generate_congr {τ : Type} {observer' : Observer G τ}
    (run : Run G σ) (run' : Run G τ) (requested : Int)
    (hstart : run.engine.start = run'.engine.start)
    (hrules : run.engine.rules = run'.engine.rules)
    (hsettings : run.engine.settings = run'.engine.settings)
    (hseed : 0 < run.engine.settings.seed)
    (hunbroken : ∀ message,
      (run.generate requested observer).1 ≠ .error (.observer message))
    (huncancelled : ∀ result, (run.generate requested observer).1 = .ok result →
      result.status ≠ .cancelled)
    (hunbroken' : ∀ message,
      (run'.generate requested observer').1 ≠ .error (.observer message))
    (huncancelled' : ∀ result,
      (run'.generate requested observer').1 = .ok result →
        result.status ≠ .cancelled) :
    (run.generate requested observer).1 =
      (run'.generate requested observer').1 := by
  have hsource := SeededSource.ofSeed_of_pos (G := G) run.engine.entropy hseed
  have hsource' := SeededSource.ofSeed_of_pos (G := G) run'.engine.entropy
    (hsettings ▸ hseed)
  have hfaults := Run.startFault?_congr hstart hrules
  cases hfault : run.startFault? with
  | some fault =>
      have hfault' : run'.startFault? = some fault := hfaults ▸ hfault
      simp [Run.generate, hfault, hfault']
  | none =>
      have hfault' : run'.startFault? = none := hfaults ▸ hfault
      rw [run.generate_eq_lastStage observer requested hfault hsource hunbroken
          huncancelled,
        run'.generate_eq_lastStage observer' requested hfault' hsource'
          hunbroken' huncancelled',
        RunPlan.ofEngine_congr requested hstart hrules hsettings, hsettings]

/-- A run with a seed of its own has the result that the start word, the rules
and the settings of its engine have laid down when it begins.  The past of the
engine does not matter; neither does anything that a script does to it between
the passes, nor any other observer, unless an error breaks the run off or it is
cancelled. -/
theorem generate_isolated (requested : Int) (script : Nat → List Operation)
    (observer : Observer G σ) (memory : σ) {e e' : Engine G}
    (hstart : e.start = e'.start) (hrules : e.rules = e'.rules)
    (hsettings : e.settings = e'.settings) (hseed : 0 < e.settings.seed) :
    let run : Run G σ := { engine := e, cancelled := false, memory }
    let scripted := (run.generate requested (.performing script)).1
    let observed := (run.generate requested observer).1
    (e.generate requested).1 = (e'.generate requested).1 ∧
      ((∀ message, scripted ≠ .error (.observer message)) →
        scripted = (e'.generate requested).1) ∧
      ((∀ message, observed ≠ .error (.observer message)) →
        (∀ result, observed = .ok result → result.status ≠ .cancelled) →
        observed = (e'.generate requested).1) := by
  intro run scripted observed
  let alone (e : Engine G) : Run G Unit :=
    { engine := e, cancelled := false, memory := () }
  have hunbroken : ∀ (e : Engine G) message,
      ((alone e).generate requested .idle).1 ≠ .error (.observer message) :=
    fun e => (alone e).generate_idle_ne_broken requested
  have huncancelled : ∀ (e : Engine G) result,
      ((alone e).generate requested .idle).1 = .ok result →
        result.status ≠ .cancelled :=
    fun e result => Run.status_ne_cancelled_of_patient requested
      Observer.idle_patient rfl
  refine ⟨?_, ?_, ?_⟩
  · exact (alone e).generate_congr (alone e') requested hstart hrules
      hsettings hseed (hunbroken e) (huncancelled e) (hunbroken e')
      (huncancelled e')
  · intro hscripted
    refine run.generate_congr (alone e') requested hstart hrules hsettings
      hseed hscripted ?_ (hunbroken e') (huncancelled e')
    intro result hresult
    exact Run.status_ne_cancelled_of_patient requested
      (Observer.performing_patient script) rfl hresult
  · intro hobserved hstatus
    exact run.generate_congr (alone e') requested hstart hrules hsettings
      hseed hobserved hstatus (hunbroken e') (huncancelled e')

def Engine.sample : Engine Pcg64 where
  start := ['A']
  rules := [.ofWords [] ['A'] [] ['A', 'B'] 1.0]
  settings := { passLimit := 6, lengthLimit := 60, seed := 42 }
  statistics := {}
  progress := {}
  source := Pcg64.ofEntropy 42
  entropy := 0
  journal := #[]

/-- A script that operates on a running engine, with another run within. -/
def Operation.sampleScript : Nat → List Operation
  | 1 => [.singlePass ['A'], .generate 1 fun _ => [.reset]]
  | 2 => [.clearRules, .restart ['C'] none]
  | _ => []

theorem generate_isolated_sample :
    let run : Run Pcg64 Unit :=
      { engine := Engine.sample, cancelled := false, memory := () }
    let scripted := (run.generate 3 (.performing Operation.sampleScript)).1
    0 < Engine.sample.settings.seed ∧
      (scripted.map fun result => result.word).toOption =
        some ['A', 'B', 'B', 'B'] ∧
      scripted = ((Engine.sample.singlePass ['A']).1.generate 3).1 := by
  intro run scripted
  have hword : (scripted.map fun result => result.word).toOption =
      some ['A', 'B', 'B', 'B'] := by decide +kernel
  refine ⟨by decide, hword, ?_⟩
  refine (generate_isolated 3 Operation.sampleScript .idle () rfl rfl rfl
    (by decide)).2.1 ?_
  intro message hbroken
  rw [show scripted = _ from hbroken] at hword
  simp [Except.map, Except.toOption] at hword

end TreeGrowth
