import TreeGrowth.Proofs.Growth.Isolation

/-!
# Runs that return

A run does not begin if its engine lacks a start word or rules, or if its seed
is refused.  The former is a result, with the status of a failure, and no run
that begins has that status.  So a run from a seed that is not negative returns
a result unless its observer breaks it off, and the result is a failure just
where the engine lacks something.
-/

namespace TreeGrowth

variable {G σ : Type} [SeededSource G Float]

/-! ## Seeds -/

theorem SeededSource.ofSeed_of_neg (entropy : Nat) {seed : Int}
    (hseed : seed < 0) :
    (SeededSource.ofSeed entropy seed : Except SeedError G) =
      .error (.negative seed) := by
  rw [SeededSource.ofSeed, if_pos hseed]

theorem SeededSource.exists_ofSeed (entropy : Nat) {seed : Int}
    (hseed : 0 ≤ seed) :
    ∃ source : G, SeededSource.ofSeed entropy seed = .ok source := by
  rw [SeededSource.ofSeed, if_neg hseed.not_gt]
  split
  next => exact ⟨_, rfl⟩
  next => exact ⟨_, rfl⟩

/-! ## Engines that lack something -/

omit [SeededSource G Float] in
theorem Run.startFault?_eq_none_iff (run : Run G σ) :
    run.startFault? = none ↔
      run.engine.start ≠ [] ∧ run.engine.rules ≠ [] := by
  simp only [Run.startFault?, List.isEmpty_iff]
  by_cases hstart : run.engine.start = []
  · simp [hstart]
  · by_cases hrules : run.engine.rules = [] <;> simp [hstart, hrules]

/-- A run whose engine lacks something reports it and changes nothing else. -/
theorem Run.generate_of_startFault (requested : Int)
    (observer : Observer G σ) {run : Run G σ} {fault : Engine.StartFault}
    (hfault : run.startFault? = some fault) :
    run.generate requested observer =
      (.ok (.failed fault.message),
        run.report .warning (Run.refusal fault)) := by
  simp only [Run.generate, hfault]

/-- A run whose seed is refused changes nothing at all. -/
theorem Run.generate_of_refused (requested : Int) (observer : Observer G σ)
    {run : Run G σ} (hbegins : run.startFault? = none) {fault : SeedError}
    (hrefused : SeededSource.ofSeed (G := G) run.engine.entropy
      run.engine.settings.seed = .error fault) :
    run.generate requested observer = (.error (.seed fault), run) := by
  have hplan : SeededSource.ofSeed (G := G) run.engine.entropy
      (RunPlan.ofEngine requested run.engine).settings.seed =
        .error fault := hrefused
  simp only [Run.generate, hbegins, hplan]

/-! ## Results -/

theorem Run.exists_generate_eq_ok (run : Run G σ) (requested : Int)
    {observer : Observer G σ} (hquiet : ∀ message, ¬observer.Raises message)
    (hseed : 0 ≤ run.engine.settings.seed) :
    ∃ result, (run.generate requested observer).1 = .ok result := by
  cases hfault : run.startFault? with
  | some fault => exact ⟨_, by rw [Run.generate_of_startFault _ _ hfault]⟩
  | none =>
      obtain ⟨source, hsource⟩ :=
        SeededSource.exists_ofSeed (G := G) run.engine.entropy hseed
      have houtcome := run.outcome_generate requested hfault hsource
        (observer.keeps_true _ source) trivial
      generalize run.generate requested observer = out at houtcome
      cases houtcome with
      | whole run _ => exact ⟨_, rfl⟩
      | cancelled k run _ _ _ _ => exact ⟨_, rfl⟩
      | broken k run message _ hraises _ =>
          exact absurd hraises (hquiet message)

theorem RunPlan.status_resultAt_ne_failure (plan : RunPlan) (requested : Int)
    (source : G) (k : Nat) (early : Option StopReason) :
    (plan.resultAt requested source k early).status ≠ .failure := by
  simp only [RunPlan.resultAt]
  generalize early.getD _ = reason
  cases reason <;> simp

/-- A run fails just where its engine lacks something. -/
theorem Run.status_eq_failure_iff {run : Run G σ} {requested : Int}
    {observer : Observer G σ} {result : RunResult}
    (hresult : (run.generate requested observer).1 = .ok result) :
    result.status = .failure ↔ run.startFault? ≠ none := by
  rcases run.generate_not_begun requested observer with
    ⟨fault, hfault, hfailed⟩ | ⟨fault, _, _, hrefused⟩ |
      ⟨source, hfault, hsource⟩
  · rw [hfailed] at hresult
    obtain rfl := Except.ok.inj hresult
    simp [hfault, RunResult.failed]
  · rw [hrefused] at hresult
    simp at hresult
  · obtain ⟨k, _, early, rfl⟩ :=
      run.exists_eq_resultAt observer requested hfault hsource hresult
    simp [hfault, RunPlan.status_resultAt_ne_failure]

end TreeGrowth
