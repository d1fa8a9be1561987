import TreeGrowth.Proofs.Growth.Stage

/-!
# The course of a run

One step of a run is an inversion lemma: it stops before a pass, or it makes a
pass, goes to the next stage and tells the observer.  From it follows what a
whole run can come to: the last stage of its plan, or an earlier one at which
it was cancelled or broken off.  Along the way every invariant of the observer
is kept.
-/

namespace TreeGrowth

variable {G σ : Type} [SeededSource G Float]

/-! ## Invariants of an observer -/

/-- The observer may break a run off with a message. -/
def Observer.Raises (observer : Observer G σ) (message : String) : Prop :=
  (∃ passes word run, (observer.onPass passes word run).2 = some message) ∨
    ∃ fraction run, (observer.onProgress fraction run).2 = some message

/-- An invariant of an observed run in two parts: `between` holds from one
pass to the next, and `told` while the observer knows of a pass but not yet of
the progress.  The engine may change at will, and no pass is made once the run
is cancelled. -/
structure Observer.Keeps (observer : Observer G σ) (plan : RunPlan)
    (source : G) (between told : Nat → Run G σ → Prop) : Prop where
  engine : ∀ k run engine, between k run → between k { run with engine }
  onPass : ∀ k run, between k run → run.cancelled = false →
    told (k + 1) (observer.onPass (k + 1)
      (plan.stage source (k + 1)).word run).1
  onProgress : ∀ k run, told (k + 1) run →
    between (k + 1) (observer.onProgress
      (Float.ofNat (k + 1) / Float.ofNat plan.passes) run).1

variable {plan : RunPlan} {source : G} {observer : Observer G σ}
  {between told : Nat → Run G σ → Prop} {k : Nat} {g : Growth G σ}

/-! ## One step -/

inductive Growth.Steps (plan : RunPlan) (source : G) (observer : Observer G σ)
    (between told : Nat → Run G σ → Prop) (k : Nat) (g : Growth G σ) :
    Growth G σ × Option Halt → Prop
  | cancelled (hcancelled : g.run.cancelled = true) :
      Growth.Steps plan source observer between told k g
        (g, some (.stop .cancelled))
  | full (hcancelled : g.run.cancelled = false)
      (hfull : plan.settings.lengthLimit ≤ (plan.stage source k).word.length) :
      Growth.Steps plan source observer between told k g
        (g, some (.stop .lengthLimit))
  | broken (next : Growth G σ) (message : String)
      (hwithin :
        (plan.stage source k).word.length < plan.settings.lengthLimit)
      (hnext : next.AtStage plan source (k + 1))
      (hraises : observer.Raises message)
      (hinv : told (k + 1) next.run ∨ between (k + 1) next.run) :
      Growth.Steps plan source observer between told k g
        (next, some (.broken message))
  | stopped (next : Growth G σ) (reason : StopReason)
      (hwithin :
        (plan.stage source k).word.length < plan.settings.lengthLimit)
      (hnext : next.AtStage plan source (k + 1))
      (hreason : plan.passReason? source (k + 1) = some reason)
      (hinv : between (k + 1) next.run) :
      Growth.Steps plan source observer between told k g
        (next, some (.stop reason))
  | went (next : Growth G σ)
      (hwithin :
        (plan.stage source k).word.length < plan.settings.lengthLimit)
      (hnext : next.AtStage plan source (k + 1))
      (hreason : plan.passReason? source (k + 1) = none)
      (hinv : between (k + 1) next.run) :
      Growth.Steps plan source observer between told k g (next, none)

theorem Growth.AtStage.notify
    (hkeeps : observer.Keeps plan source between told)
    (hstage : g.AtStage plan source (k + 1)) (hinv : between k g.run)
    (hrunning : g.run.cancelled = false) :
    (g.notify plan observer).1.AtStage plan source (k + 1) ∧
      ((g.notify plan observer).2 = none →
        between (k + 1) (g.notify plan observer).1.run) ∧
      ∀ message, (g.notify plan observer).2 = some message →
        observer.Raises message ∧
          (told (k + 1) (g.notify plan observer).1.run ∨
            between (k + 1) (g.notify plan observer).1.run) := by
  have htold : told (k + 1) (observer.onPass g.passes g.word g.run).1 := by
    rw [hstage.passes, hstage.word]
    exact hkeeps.onPass k g.run hinv hrunning
  unfold Growth.notify
  cases hpass : observer.onPass g.passes g.word g.run with
  | mk run broken =>
      rw [hpass] at htold
      cases broken with
      | some message =>
          refine ⟨hstage.withRun run, by simp, ?_⟩
          intro message' hmessage
          obtain rfl := Option.some.inj hmessage
          exact ⟨.inl ⟨_, _, _, by rw [hpass]⟩, .inl htold⟩
      | none =>
          have hbetween : between (k + 1) (observer.onProgress
              (Float.ofNat g.passes / Float.ofNat plan.passes) run).1 := by
            rw [hstage.passes]
            exact hkeeps.onProgress k run htold
          refine ⟨hstage.withRun _, fun _ => hbetween, ?_⟩
          intro message hmessage
          exact ⟨.inr ⟨_, _, hmessage⟩, .inr hbetween⟩

theorem Growth.steps_step (hkeeps : observer.Keeps plan source between told)
    (hstage : g.AtStage plan source k) (hinv : between k g.run) :
    Growth.Steps plan source observer between told k g
      (g.step plan observer) := by
  by_cases hcancelled : g.run.cancelled = true
  · simp only [Growth.step, Growth.stopBefore?, if_pos hcancelled]
    exact .cancelled hcancelled
  have hrunning : g.run.cancelled = false := by
    simpa using hcancelled
  by_cases hfull : plan.settings.lengthLimit ≤ g.word.length
  · simp only [Growth.step, Growth.stopBefore?, if_neg hcancelled,
      if_pos hfull]
    exact .full hrunning (hstage.word ▸ hfull)
  have hwithin :
      (plan.stage source k).word.length < plan.settings.lengthLimit := by
    rw [← hstage.word]
    omega
  obtain ⟨hnext, hgoes, hbreaks⟩ :=
    hstage.rewrite.notify hkeeps (hkeeps.engine k g.run _ hinv)
      hrunning
  simp only [Growth.step, Growth.stopBefore?, if_neg hcancelled,
    if_neg hfull]
  rw [hstage.rewrite_truncated, hstage.word]
  cases hnotify : (g.rewrite plan).1.notify plan observer with
  | mk next broken =>
      rw [hnotify] at hnext hgoes hbreaks
      cases broken with
      | some message =>
          obtain ⟨hraises, hbroken⟩ := hbreaks message rfl
          exact .broken next message hwithin hnext hraises hbroken
      | none =>
          have hbetween := hgoes rfl
          simp only
          split
          next htruncated =>
            refine .stopped _ _ hwithin (hnext.withRun _) ?_
              (hkeeps.engine _ _ _ hbetween)
            simp [RunPlan.passReason?, htruncated]
          next hwhole =>
            split
            next hsame =>
              rw [hnext.word] at hsame
              refine .stopped _ _ hwithin (hnext.withRun _) ?_
                (hkeeps.engine _ _ _ hbetween)
              simp [RunPlan.passReason?, hwhole, hsame]
            next hother =>
              rw [hnext.word] at hother
              refine .went next hwithin hnext ?_ hbetween
              simp [RunPlan.passReason?, hwhole, hother]

/-! ## A whole run -/

/-- All that the passes of a run can come to: the last stage, or an earlier
one at which the run is cancelled or broken off. -/
inductive Growth.Outcome (plan : RunPlan) (source : G)
    (observer : Observer G σ) (between told : Nat → Run G σ → Prop) :
    Growth G σ × Option Halt → Prop
  | whole (g : Growth G σ)
      (hstage : g.AtStage plan source (plan.lastStage source))
      (hinv : between (plan.lastStage source) g.run) :
      Growth.Outcome plan source observer between told
        (g, (plan.endReason? source (plan.lastStage source)).map .stop)
  | cancelled (k : Nat) (g : Growth G σ)
      (hle : k ≤ plan.lastStage source) (hlt : k < plan.passes)
      (hstage : g.AtStage plan source k) (hinv : between k g.run)
      (hcancelled : g.run.cancelled = true) :
      Growth.Outcome plan source observer between told
        (g, some (.stop .cancelled))
  | broken (k : Nat) (g : Growth G σ) (message : String)
      (hle : k ≤ plan.lastStage source)
      (hstage : g.AtStage plan source k)
      (hraises : observer.Raises message)
      (hinv : told k g.run ∨ between k g.run) :
      Growth.Outcome plan source observer between told
        (g, some (.broken message))

theorem Growth.Outcome.whole_of_eq {early : Option StopReason}
    (hlast : plan.lastStage source = k)
    (hend : plan.endReason? source k = early)
    (hstage : g.AtStage plan source k) (hinv : between k g.run) :
    Growth.Outcome plan source observer between told (g, early.map .stop) := by
  subst hlast hend
  exact .whole g hstage hinv

theorem RunPlan.not_endsAt
    (hlt : k < plan.passes) (hreason : plan.passReason? source k = none)
    (hwithin :
      (plan.stage source k).word.length < plan.settings.lengthLimit) :
    ¬plan.EndsAt source k := by
  rintro (hle | hend)
  · omega
  · apply hend
    rw [RunPlan.endReason?, hreason, if_neg (by omega)]
    rfl

theorem RunPlan.not_endsAt_of_lt_succ
    (hopen : ∀ j < k, ¬plan.EndsAt source j)
    (hlt : k < plan.passes) (hreason : plan.passReason? source k = none)
    (hwithin :
      (plan.stage source k).word.length < plan.settings.lengthLimit) :
    ∀ j < k + 1, ¬plan.EndsAt source j := by
  intro j hj
  rcases Nat.lt_succ_iff_lt_or_eq.mp hj with hearlier | rfl
  · exact hopen j hearlier
  · exact RunPlan.not_endsAt hlt hreason hwithin

theorem Growth.outcome_advance
    (hkeeps : observer.Keeps plan source between told) (left : Nat)
    (hleft : k + left = plan.passes)
    (hopen : ∀ j < k, ¬plan.EndsAt source j)
    (hreason : plan.passReason? source k = none)
    (hstage : g.AtStage plan source k) (hinv : between k g.run) :
    Growth.Outcome plan source observer between told
      (g.advance plan observer left) := by
  -- The induction is on the passes left.  That no earlier stage ends the run
  -- is carried along, and makes the stage where the passes end the last one.
  induction left generalizing k g with
  | zero =>
      have hlast : plan.lastStage source = k :=
        RunPlan.lastStage_eq (Or.inl (by omega)) hopen
      have hend : plan.endReason? source k = none := by
        rw [RunPlan.endReason?, hreason, if_neg (by omega)]
        rfl
      exact Growth.Outcome.whole_of_eq hlast hend hstage hinv
  | succ left ih =>
      rw [Growth.advance]
      have hsteps := Growth.steps_step hkeeps hstage hinv
      generalize g.step plan observer = out at hsteps
      cases hsteps with
      | cancelled hcancelled =>
          exact .cancelled k g (RunPlan.le_lastStage hopen) (by omega) hstage
            hinv hcancelled
      | full hcancelled hfull =>
          have hend : plan.endReason? source k = some .lengthLimit := by
            rw [RunPlan.endReason?, hreason, if_pos ⟨by omega, hfull⟩]
            rfl
          have hlast : plan.lastStage source = k :=
            RunPlan.lastStage_eq (Or.inr (by simp [hend])) hopen
          exact Growth.Outcome.whole_of_eq hlast hend hstage hinv
      | broken next message hwithin hnext hraises hbroken =>
          have hopenNext :=
            RunPlan.not_endsAt_of_lt_succ hopen (by omega) hreason hwithin
          exact .broken (k + 1) next message (RunPlan.le_lastStage hopenNext)
            hnext hraises hbroken
      | stopped next reason hwithin hnext hpass hbetween =>
          have hopenNext :=
            RunPlan.not_endsAt_of_lt_succ hopen (by omega) hreason hwithin
          have hend : plan.endReason? source (k + 1) = some reason := by
            rw [RunPlan.endReason?, hpass]
            rfl
          have hlast : plan.lastStage source = k + 1 :=
            RunPlan.lastStage_eq (Or.inr (by simp [hend])) hopenNext
          exact Growth.Outcome.whole_of_eq hlast hend hnext hbetween
      | went next hwithin hnext hpass hbetween =>
          have hopenNext :=
            RunPlan.not_endsAt_of_lt_succ hopen (by omega) hreason hwithin
          exact ih (by omega) hopenNext hpass hnext hbetween

/-! ## The result of a run -/

inductive Run.Outcome (plan : RunPlan) (requested : Int) (source : G)
    (observer : Observer G σ) (between told : Nat → Run G σ → Prop) :
    Except RunError RunResult × Run G σ → Prop
  | whole (run : Run G σ) (hinv : between (plan.lastStage source) run) :
      Run.Outcome plan requested source observer between told
        (.ok (plan.resultAt requested source (plan.lastStage source)
          (plan.endReason? source (plan.lastStage source))), run)
  | cancelled (k : Nat) (run : Run G σ) (hle : k ≤ plan.lastStage source)
      (hlt : k < plan.passes) (hinv : between k run)
      (hcancelled : run.cancelled = true) :
      Run.Outcome plan requested source observer between told
        (.ok (plan.resultAt requested source k (some .cancelled)), run)
  | broken (k : Nat) (run : Run G σ) (message : String)
      (hle : k ≤ plan.lastStage source) (hraises : observer.Raises message)
      (hinv : told k run ∨ between k run) :
      Run.Outcome plan requested source observer between told
        (.error (.observer message), run)

theorem Growth.AtStage.finish_result (hstage : g.AtStage plan source k)
    (requested : Int) (early : Option StopReason) :
    (g.finish plan requested early).1 =
      plan.resultAt requested source k early := by
  simp only [Growth.finish, RunPlan.resultAt, hstage.word, hstage.passes,
    hstage.history, hstage.tally]

omit [SeededSource G Float] in
theorem Growth.finish_run (plan : RunPlan) (requested : Int)
    (early : Option StopReason) (g : Growth G σ) :
    ∃ engine, (g.finish plan requested early).2 = { g.run with engine } := by
  unfold Growth.finish
  simp only
  split
  next => exact ⟨_, rfl⟩
  next => exact ⟨_, rfl⟩
  next => exact ⟨_, rfl⟩

/-- A run that begins and is not broken off closes what its passes come to. -/
theorem Run.generate_of_stop {run : Run G σ} {requested : Int}
    (hfault : run.startFault? = none)
    (hsource : SeededSource.ofSeed run.engine.entropy
      run.engine.settings.seed = .ok source)
    (hplan : plan = RunPlan.ofEngine requested run.engine)
    {early : Option StopReason}
    (hadvance : (run.begin plan source).advance plan observer plan.passes =
      (g, early.map .stop)) :
    run.generate requested observer =
      (.ok (g.finish plan requested early).1,
        (g.finish plan requested early).2) := by
  have hsource' : SeededSource.ofSeed run.engine.entropy plan.settings.seed =
      .ok source := hplan ▸ hsource
  simp only [Run.generate, hfault, ← hplan, hsource', hadvance]
  cases early <;> rfl

theorem Run.generate_of_broken {run : Run G σ} {requested : Int}
    (hfault : run.startFault? = none)
    (hsource : SeededSource.ofSeed run.engine.entropy
      run.engine.settings.seed = .ok source)
    (hplan : plan = RunPlan.ofEngine requested run.engine) {message : String}
    (hadvance : (run.begin plan source).advance plan observer plan.passes =
      (g, some (.broken message))) :
    run.generate requested observer =
      (.error (.observer message), g.run) := by
  have hsource' : SeededSource.ofSeed run.engine.entropy plan.settings.seed =
      .ok source := hplan ▸ hsource
  simp only [Run.generate, hfault, ← hplan, hsource', hadvance]

theorem Run.outcome_generate (run : Run G σ) (requested : Int)
    (hfault : run.startFault? = none)
    (hsource : SeededSource.ofSeed run.engine.entropy
      run.engine.settings.seed = .ok source)
    (hkeeps : observer.Keeps (RunPlan.ofEngine requested run.engine) source
      between told)
    (hbegin : between 0 run) :
    Run.Outcome (RunPlan.ofEngine requested run.engine) requested source
      observer between told (run.generate requested observer) := by
  have hsource' : SeededSource.ofSeed run.engine.entropy
      (RunPlan.ofEngine requested run.engine).settings.seed =
        .ok source := hsource
  simp only [Run.generate, hfault, hsource']
  set plan := RunPlan.ofEngine requested run.engine
  have hadvance : Growth.Outcome plan source observer between told
      ((run.begin plan source).advance plan observer plan.passes) :=
    Growth.outcome_advance hkeeps plan.passes (Nat.zero_add _)
      (fun j hj => absurd hj (Nat.not_lt_zero j)) rfl
      (Growth.atStage_begin plan source run) (hkeeps.engine 0 run _ hbegin)
  generalize (run.begin plan source).advance plan observer plan.passes = out
    at hadvance
  cases hadvance with
  | whole g hstage hinv =>
      obtain ⟨engine, hrun⟩ := Growth.finish_run plan requested
        (plan.endReason? source (plan.lastStage source)) g
      have houtcome : Run.Outcome plan requested source observer between told
          (.ok _, { g.run with engine }) :=
        .whole _ (hkeeps.engine _ g.run engine hinv)
      rw [← hstage.finish_result, ← hrun] at houtcome
      cases hend : plan.endReason? source (plan.lastStage source) with
      | none =>
          rw [hend] at houtcome
          exact houtcome
      | some reason =>
          rw [hend] at houtcome
          exact houtcome
  | cancelled k g hle hlt hstage hinv hcancelled =>
      obtain ⟨engine, hrun⟩ :=
        Growth.finish_run plan requested (some .cancelled) g
      have houtcome : Run.Outcome plan requested source observer between told
          (.ok _, { g.run with engine }) :=
        .cancelled k _ hle hlt (hkeeps.engine _ g.run engine hinv) hcancelled
      rw [← hstage.finish_result, ← hrun] at houtcome
      exact houtcome
  | broken k g message hle hstage hraises hinv =>
      exact .broken k g.run message hle hraises hinv

end TreeGrowth
