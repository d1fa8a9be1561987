import TreeGrowth.Proofs.Growth.Isolation
import TreeGrowth.Proofs.Growth.Memory

/-!
# What a run tells its observer

A record of what an observer is told after each pass does not disturb the run.
It holds the words of the stages in order, up to the stage that the run gets
to.  Since the stages do not depend on how many passes are asked for, records
of different runs of one engine are prefixes of each other, and a run that is
cancelled has done just what a run of fewer passes would have done.
-/

namespace TreeGrowth

variable {G σ : Type} [SeededSource G Float]

/-! ## Keeping a record -/

/-- The passes that an observer was told of, with their words. -/
abbrev Record := List (Nat × Word)

omit [SeededSource G Float] in
def Run.forget (run : Run G (Record × σ)) : Run G σ :=
  { engine := run.engine, cancelled := run.cancelled,
    memory := run.memory.2 }

omit [SeededSource G Float] in
/-- The observer with a record beside its memory. -/
def Observer.recording (observer : Observer G σ) :
    Observer G (Record × σ) where
  onPass passes word run :=
    let (seen, broken) := observer.onPass passes word run.forget
    ({ engine := seen.engine, cancelled := seen.cancelled,
       memory := (run.memory.1 ++ [(passes, word)], seen.memory) }, broken)
  onProgress fraction run :=
    let (seen, broken) := observer.onProgress fraction run.forget
    ({ engine := seen.engine, cancelled := seen.cancelled,
       memory := (run.memory.1, seen.memory) }, broken)

omit [SeededSource G Float] in
def Run.unrecorded (run : Run G σ) : Run G (Record × σ) :=
  { engine := run.engine, cancelled := run.cancelled,
    memory := ([], run.memory) }

/-- What an observer is told in the course of a run. -/
def Run.told (requested : Int) (observer : Observer G σ) (run : Run G σ) :
    Record :=
  (run.unrecorded.generate requested observer.recording).2.memory.1

omit [SeededSource G Float] in
theorem Observer.recording_maps (observer : Observer G σ) :
    observer.recording.Maps Prod.snd observer where
  onPass _ _ _ := rfl
  onProgress _ _ := rfl

/-- Keeping a record does not change the result of a run. -/
theorem Run.generate_recording (requested : Int) (observer : Observer G σ)
    (run : Run G σ) :
    (run.unrecorded.generate requested observer.recording).1 =
      (run.generate requested observer).1 := by
  have hmapped := Run.generate_mapMemory observer.recording_maps requested
    run.unrecorded
  exact (congrArg Prod.fst hmapped).symm

/-! ## Records and stages -/

def RunPlan.toldUpTo (plan : RunPlan) (source : G) (k : Nat) : Record :=
  (List.range k).map fun j => (j + 1, (plan.stage source (j + 1)).word)

theorem RunPlan.length_toldUpTo (plan : RunPlan) (source : G) (k : Nat) :
    (plan.toldUpTo source k).length = k := by
  simp [RunPlan.toldUpTo]

theorem RunPlan.toldUpTo_succ (plan : RunPlan) (source : G) (k : Nat) :
    plan.toldUpTo source (k + 1) =
      plan.toldUpTo source k ++
        [(k + 1, (plan.stage source (k + 1)).word)] := by
  simp [RunPlan.toldUpTo, List.range_succ]

theorem RunPlan.take_toldUpTo (plan : RunPlan) (source : G) (j k : Nat) :
    (plan.toldUpTo source k).take j = plan.toldUpTo source (min j k) := by
  rw [RunPlan.toldUpTo, ← List.map_take, List.take_range]
  rfl

theorem RunPlan.getLast?_toldUpTo (plan : RunPlan) (source : G) {k : Nat}
    {pair : Nat × Word} (hpair : pair ∈ (plan.toldUpTo source k).getLast?) :
    pair = (k, (plan.stage source k).word) := by
  cases k with
  | zero => simp [RunPlan.toldUpTo] at hpair
  | succ k =>
      rw [RunPlan.toldUpTo_succ, List.getLast?_concat] at hpair
      exact (Option.some.inj hpair).symm

theorem RunPlan.toldUpTo_prefix (plan : RunPlan) (source : G) {j k : Nat}
    (hjk : j ≤ k) : plan.toldUpTo source j <+: plan.toldUpTo source k := by
  rw [← Nat.min_eq_left hjk, ← RunPlan.take_toldUpTo]
  exact List.take_prefix j _

theorem Observer.recording_keeps (observer : Observer G σ) (plan : RunPlan)
    (source : G) :
    observer.recording.Keeps plan source
      (fun k run => run.memory.1 = plan.toldUpTo source k)
      (fun k run => run.memory.1 = plan.toldUpTo source k) where
  engine _ _ _ hrecord := hrecord
  onPass k run hrecord _ := by
    rw [RunPlan.toldUpTo_succ, ← hrecord]
    rfl
  onProgress _ _ hrecord := hrecord

variable {observer : Observer G σ} {run : Run G σ} {source : G}

/-- A run tells of the stages up to the one it gets to, and its result, if it
has one, is that of this stage. -/
theorem Run.exists_told_eq (run : Run G σ) (observer : Observer G σ)
    (requested : Int)
    (hfault : run.startFault? = none)
    (hsource : SeededSource.ofSeed run.engine.entropy
      run.engine.settings.seed = .ok source) :
    let plan := RunPlan.ofEngine requested run.engine
    ∃ k ≤ plan.lastStage source,
      run.told requested observer = plan.toldUpTo source k ∧
      ∀ result, (run.generate requested observer).1 = .ok result →
        ∃ early, result = plan.resultAt requested source k early := by
  intro plan
  have houtcome := run.unrecorded.outcome_generate requested hfault hsource
    (observer.recording_keeps plan source) rfl
  rw [← Run.generate_recording]
  unfold Run.told
  generalize run.unrecorded.generate requested observer.recording = out
    at houtcome
  cases houtcome with
  | whole run hrecord =>
      refine ⟨_, le_rfl, hrecord, ?_⟩
      intro result hresult
      exact ⟨_, (Except.ok.inj hresult).symm⟩
  | cancelled k run hle _ hrecord _ =>
      refine ⟨k, hle, hrecord, ?_⟩
      intro result hresult
      exact ⟨_, (Except.ok.inj hresult).symm⟩
  | broken k run message hle _ hrecord =>
      refine ⟨k, hle, hrecord.elim id id, ?_⟩
      intro result hresult
      simp at hresult

theorem Run.told_eq_nil (requested : Int) {fault : Engine.StartFault}
    (hfault : run.startFault? = some fault) :
    run.told requested observer = [] := by
  have hunrecorded : run.unrecorded.startFault? = some fault := hfault
  rw [Run.told, Run.generate]
  simp only [hunrecorded]
  rfl

/-! ## Plans with different numbers of passes -/

theorem RunPlan.stage_ofEngine (e : Engine G) (m n : Int) (source : G)
    (k : Nat) :
    (RunPlan.ofEngine m e).stage source k =
      (RunPlan.ofEngine n e).stage source k := by
  induction k with
  | zero => rfl
  | succ k ih =>
      simp only [RunPlan.stage, ih]
      rfl

theorem RunPlan.toldUpTo_ofEngine (e : Engine G) (m n : Int) (source : G)
    (k : Nat) :
    (RunPlan.ofEngine m e).toldUpTo source k =
      (RunPlan.ofEngine n e).toldUpTo source k := by
  simp only [RunPlan.toldUpTo, RunPlan.stage_ofEngine e m n]

theorem RunPlan.endsAt_ofEngine_iff (e : Engine G) {m n : Int} (source : G)
    {k : Nat} (hm : k < (RunPlan.ofEngine m e).passes)
    (hn : k < (RunPlan.ofEngine n e).passes) :
    (RunPlan.ofEngine m e).EndsAt source k ↔
      (RunPlan.ofEngine n e).EndsAt source k := by
  have hpass : (RunPlan.ofEngine m e).passReason? source k =
      (RunPlan.ofEngine n e).passReason? source k := by
    cases k with
    | zero => rfl
    | succ k =>
        simp only [RunPlan.passReason?, RunPlan.stage_ofEngine e m n]
  have hend : (RunPlan.ofEngine m e).endReason? source k =
      (RunPlan.ofEngine n e).endReason? source k := by
    simp only [RunPlan.endReason?, hpass, hm, hn,
      RunPlan.stage_ofEngine e m n]
    rfl
  simp only [RunPlan.EndsAt, hend, Nat.not_le.mpr hm, Nat.not_le.mpr hn]

theorem RunPlan.lastStage_ofEngine (e : Engine G) {m n : Int} (source : G)
    (hmn : (RunPlan.ofEngine m e).passes ≤ (RunPlan.ofEngine n e).passes) :
    (RunPlan.ofEngine m e).lastStage source =
      min (RunPlan.ofEngine m e).passes
        ((RunPlan.ofEngine n e).lastStage source) := by
  have hlast := (RunPlan.ofEngine n e).lastStage_le_passes source
  have hends : ∀ k < (RunPlan.ofEngine m e).passes,
      ((RunPlan.ofEngine m e).EndsAt source k ↔
        (RunPlan.ofEngine n e).EndsAt source k) :=
    fun k hk => RunPlan.endsAt_ofEngine_iff e source hk (by omega)
  -- Below the fewer passes both plans end at the same stages.
  apply RunPlan.lastStage_eq
  · by_cases hle : (RunPlan.ofEngine m e).passes ≤
        (RunPlan.ofEngine n e).lastStage source
    · exact Or.inl (by omega)
    · rw [Nat.min_eq_right (by omega), hends _ (by omega)]
      exact (RunPlan.ofEngine n e).endsAt_lastStage source
  · intro j hj
    rw [hends j (lt_of_lt_of_le hj (Nat.min_le_left _ _))]
    exact Nat.find_min ((RunPlan.ofEngine n e).exists_endsAt source)
      (lt_of_lt_of_le hj (Nat.min_le_right _ _))

/-! ## Records of one engine -/

def Engine.told (requested : Int) (e : Engine G) : Record :=
  Run.told requested .idle { engine := e, cancelled := false, memory := () }

omit [SeededSource G Float] in
/-- The observer that cancels a run in its `k`-th pass, when it is told of the
word or, late, of the progress.  It remembers the number of passes. -/
def Observer.cancelling (k : Nat) (late : Bool) : Observer G Nat where
  onPass passes _ run :=
    ({ run with
        memory := passes
        cancelled := run.cancelled || (!late && passes == k) }, none)
  onProgress _ run :=
    ({ run with cancelled := run.cancelled || (late && run.memory == k) },
      none)

theorem Observer.cancelling_keeps (k : Nat) (late : Bool) (plan : RunPlan)
    (source : G) :
    (Observer.cancelling k late).Keeps plan source
      (fun j run => run.memory = j ∧ j ≤ k ∧ run.cancelled = decide (k ≤ j))
      (fun j run => run.memory = j ∧ j ≤ k ∧
        run.cancelled = (!late && decide (k ≤ j))) where
  engine _ _ _ hinv := hinv
  onPass j run hinv hrunning := by
    obtain ⟨_, hle, hcancelled⟩ := hinv
    -- A run that makes one more pass has not been cancelled, so `k` passes have
    -- not been made.
    have hlt : j < k := by
      rw [hrunning] at hcancelled
      simpa using hcancelled.symm
    refine ⟨rfl, hlt, ?_⟩
    simp only [Observer.cancelling, hrunning, Bool.false_or]
    congr 1
    rw [Bool.eq_iff_iff, beq_iff_eq, decide_eq_true_eq]
    omega
  onProgress j run hinv := by
    obtain ⟨hmemory, hle, hcancelled⟩ := hinv
    refine ⟨hmemory, hle, ?_⟩
    simp only [Observer.cancelling, hmemory, hcancelled]
    have hdue : (j + 1 == k) = decide (k ≤ j + 1) := by
      rw [Bool.eq_iff_iff, beq_iff_eq, decide_eq_true_eq]
      omega
    rw [hdue]
    cases late <;> simp

omit [SeededSource G Float] in
theorem Observer.not_raises_cancelling (k : Nat) (late : Bool)
    (message : String) :
    ¬(Observer.cancelling k late : Observer G Nat).Raises message := by
  simp [Observer.Raises, Observer.cancelling]

theorem Engine.told_eq (e : Engine G) (n : Int) {source : G}
    (hfault :
      (⟨e, false, ()⟩ : Run G Unit).startFault? = none)
    (hsource :
      SeededSource.ofSeed e.entropy e.settings.seed = .ok source) :
    e.told n = (RunPlan.ofEngine n e).toldUpTo source
      ((RunPlan.ofEngine n e).lastStage source) := by
  let run : Run G Unit := ⟨e, false, ()⟩
  obtain ⟨k, _, htold, hresults⟩ :=
    run.exists_told_eq .idle n hfault hsource
  have hwhole := run.generate_eq_lastStage .idle n hfault hsource
    (run.generate_idle_ne_broken n)
    (fun _ => Run.status_ne_cancelled_of_patient n Observer.idle_patient rfl)
  obtain ⟨early, hresult⟩ := hresults _ hwhole
  have hk : (RunPlan.ofEngine n e).lastStage source = k :=
    congrArg (fun result => result.statistics.passes) hresult
  rw [hk]
  exact htold

/-- Every run of an engine that gets as far as some stage has done what a run
of just so many passes does. -/
theorem Engine.generate_word_eq (e : Engine G) (n : Int) {source : G}
    (hfault :
      (⟨e, false, ()⟩ : Run G Unit).startFault? = none)
    (hsource : SeededSource.ofSeed e.entropy e.settings.seed = .ok source)
    {k : Nat} (hk : k ≤ (RunPlan.ofEngine n e).lastStage source) :
    ((e.generate k).1.map fun result => result.word) =
      .ok ((RunPlan.ofEngine n e).stage source k).word := by
  let run : Run G Unit := ⟨e, false, ()⟩
  have hwhole := run.generate_eq_lastStage .idle k hfault hsource
    (run.generate_idle_ne_broken k)
    (fun _ => Run.status_ne_cancelled_of_patient k Observer.idle_patient rfl)
  have hpasses : (RunPlan.ofEngine k e).passes = k := by
    have hle := (RunPlan.ofEngine n e).lastStage_le_passes source
    have hlimit : (RunPlan.ofEngine n e).passes ≤ e.settings.passLimit :=
      Nat.min_le_right _ _
    have hmin : (RunPlan.ofEngine k e).passes =
        min k e.settings.passLimit := rfl
    omega
  have hlast : (RunPlan.ofEngine k e).lastStage source = k := by
    have hle := (RunPlan.ofEngine n e).lastStage_le_passes source
    have hmin := RunPlan.lastStage_ofEngine e source
      (show (RunPlan.ofEngine k e).passes ≤ (RunPlan.ofEngine n e).passes by
        omega)
    omega
  rw [Engine.generate]
  simp only [hwhole, run, hlast, Except.map, RunPlan.resultAt,
    RunPlan.stage_ofEngine e k n]

theorem Engine.told_prefix_of_le (e : Engine G)
    (hseed : 0 < e.settings.seed) {m n : Int} (hmn : m ≤ n) :
    e.told m <+: e.told n := by
  have hsource := SeededSource.ofSeed_of_pos (G := G) e.entropy hseed
  cases hfault : (⟨e, false, ()⟩ : Run G Unit).startFault? with
  | some fault =>
      rw [Engine.told, Run.told_eq_nil m hfault]
      exact List.nil_prefix
  | none =>
      rw [e.told_eq m hfault hsource, e.told_eq n hfault hsource,
        RunPlan.toldUpTo_ofEngine e m n]
      have hpasses : (RunPlan.ofEngine m e).passes ≤
          (RunPlan.ofEngine n e).passes := by
        simp only [RunPlan.ofEngine, GrowthSettings.passesFor]
        omega
      rw [RunPlan.lastStage_ofEngine e _ hpasses]
      exact RunPlan.toldUpTo_prefix _ _ (Nat.min_le_right _ _)

theorem Run.told_prefix_told (run : Run G σ) (observer : Observer G σ)
    (hseed : 0 < run.engine.settings.seed) (n : Int) :
    run.told n observer <+: run.engine.told n := by
  have hsource :=
    SeededSource.ofSeed_of_pos (G := G) run.engine.entropy hseed
  cases hfault : run.startFault? with
  | some fault =>
      rw [Run.told_eq_nil n hfault]
      exact List.nil_prefix
  | none =>
      obtain ⟨k, hk, htold, _⟩ :=
        run.exists_told_eq observer n hfault hsource
      rw [htold, run.engine.told_eq n hfault hsource]
      exact RunPlan.toldUpTo_prefix _ _ hk

theorem Run.result_eq_told (run : Run G σ) (observer : Observer G σ)
    (hseed : 0 < run.engine.settings.seed) (n : Int) {result : RunResult}
    (hresult : (run.generate n observer).1 = .ok result) :
    (run.told n observer).length = result.statistics.passes ∧
      (∀ pair ∈ (run.told n observer).getLast?,
        pair = (result.statistics.passes, result.word)) ∧
      ((run.engine.generate result.statistics.passes).1.map fun r => r.word) =
        .ok result.word := by
  have hsource :=
    SeededSource.ofSeed_of_pos (G := G) run.engine.entropy hseed
  cases hfault : run.startFault? with
  | some fault =>
      have hfailed : result = .failed fault.message := by
        simp only [Run.generate, hfault] at hresult
        exact (Except.ok.inj hresult).symm
      have halone :
          (⟨run.engine, false, ()⟩ : Run G Unit).startFault? = some fault :=
        hfault
      rw [Run.told_eq_nil n hfault, hfailed]
      refine ⟨rfl, by simp, ?_⟩
      simp only [Engine.generate, Run.generate, halone]
      rfl
  | none =>
      obtain ⟨k, hk, htold, hresults⟩ :=
        run.exists_told_eq observer n hfault hsource
      obtain ⟨early, rfl⟩ := hresults result hresult
      rw [htold]
      exact ⟨RunPlan.length_toldUpTo _ _ _,
        fun _ => RunPlan.getLast?_toldUpTo _ _,
        run.engine.generate_word_eq n hfault hsource hk⟩

theorem Engine.told_cancelling (e : Engine G) (hseed : 0 < e.settings.seed)
    (n : Int) (k : Nat) (late : Bool) :
    let due : Run G Nat := { engine := e, cancelled := k == 0, memory := 0 }
    due.told n (.cancelling k late) = (e.told n).take k ∧
      ∃ result, (due.generate n (.cancelling k late)).1 = .ok result := by
  intro due
  have hsource := SeededSource.ofSeed_of_pos (G := G) e.entropy hseed
  cases hfault : due.startFault? with
  | some fault =>
      have halone : (⟨e, false, ()⟩ : Run G Unit).startFault? = some fault :=
        hfault
      rw [Run.told_eq_nil n hfault, Engine.told, Run.told_eq_nil n halone]
      refine ⟨List.take_nil.symm, .failed fault.message, ?_⟩
      simp only [Run.generate, hfault]
  | none =>
      obtain ⟨j, hj, htold, hresults⟩ :=
        due.exists_told_eq (.cancelling k late) n hfault hsource
      have hbegin : due.memory = 0 ∧ 0 ≤ k ∧
          due.cancelled = decide (k ≤ 0) := by
        refine ⟨rfl, Nat.zero_le k, ?_⟩
        rw [Bool.eq_iff_iff, beq_iff_eq, decide_eq_true_eq]
        omega
      have houtcome := due.outcome_generate n hfault hsource
        (Observer.cancelling_keeps k late _ _) hbegin
      rw [e.told_eq n hfault hsource, RunPlan.take_toldUpTo, htold]
      generalize due.generate n (.cancelling k late) = out
        at houtcome hresults
      -- The number of passes in the result tells where the record ends; the
      -- invariant of the observer tells how it compares with `k`.
      cases houtcome with
      | whole run hinv =>
          obtain ⟨early, hresult⟩ := hresults _ rfl
          have hpasses : (RunPlan.ofEngine n e).lastStage _ = j :=
            congrArg (fun result => result.statistics.passes) hresult
          have hle := hinv.2.1
          refine ⟨?_, _, rfl⟩
          rw [Nat.min_eq_right hle, hpasses]
      | cancelled i run hi _ hinv hcancelled =>
          obtain ⟨early, hresult⟩ := hresults _ rfl
          have hpasses : i = j :=
            congrArg (fun result => result.statistics.passes) hresult
          have hki : k ≤ i := by
            rw [hcancelled] at hinv
            simpa using hinv.2.2.symm
          have hik := hinv.2.1
          refine ⟨?_, _, rfl⟩
          rw [Nat.min_eq_left (hki.trans hi), ← hpasses,
            Nat.le_antisymm hik hki]
      | broken i run message _ hraises _ =>
          exact absurd hraises
            (Observer.not_raises_cancelling k late message)

/-- The words that runs of one engine tell of agree as far as they go.  A run
that is asked for more passes goes on where the other one ends; a run that is
cancelled, at any point and by any observer, breaks the record off after a
whole pass, and returns the word of that pass, as a run of just so many passes
does.  If the wish to cancel comes in the `k`-th pass, or before the run for
`k = 0`, then `k` passes are told, or all of them if there are fewer. -/
theorem told_prefix (e : Engine G) (hseed : 0 < e.settings.seed)
    {m n : Int} (hmn : m ≤ n) (observer : Observer G σ) (cancelled : Bool)
    (memory : σ) (k : Nat) (late : Bool) :
    let run : Run G σ := { engine := e, cancelled, memory }
    let due : Run G Nat := { engine := e, cancelled := k == 0, memory := 0 }
    e.told m <+: e.told n ∧
      run.told n observer <+: e.told n ∧
      (∀ result, (run.generate n observer).1 = .ok result →
        (run.told n observer).length = result.statistics.passes ∧
        (∀ pair ∈ (run.told n observer).getLast?,
          pair = (result.statistics.passes, result.word)) ∧
        ((e.generate result.statistics.passes).1.map fun r => r.word) =
          .ok result.word) ∧
      due.told n (.cancelling k late) = (e.told n).take k ∧
      ∃ result, (due.generate n (.cancelling k late)).1 = .ok result := by
  intro run due
  exact ⟨e.told_prefix_of_le hseed hmn, run.told_prefix_told observer hseed n,
    fun _ => run.result_eq_told observer hseed n,
    e.told_cancelling hseed n k late⟩

theorem told_prefix_sample :
    let due : Run Pcg64 Nat :=
      { engine := Engine.sample, cancelled := false, memory := 0 }
    0 < Engine.sample.settings.seed ∧ (2 : Int) ≤ 5 ∧
      due.told 5 (.cancelling 2 true) =
        [(1, ['A', 'B']), (2, ['A', 'B', 'B'])] ∧
      Engine.sample.told 2 <+: Engine.sample.told 5 ∧
      due.told 5 (.cancelling 2 true) = (Engine.sample.told 5).take 2 := by
  intro due
  have hrecords := told_prefix Engine.sample (by decide)
    (show (2 : Int) ≤ 5 by decide) (.cancelling 2 true) false 0 2 true
  exact ⟨by decide, by decide, by decide +kernel, hrecords.1,
    hrecords.2.2.2.1⟩

end TreeGrowth
