import TreeGrowth.Proofs.Growth.Length

/-!
# Why a run stops

A run stops at a stage because of the pass to it, because of what holds at the
boundary before the next pass, or because no pass is left.  These exclude each
other, since a pass that is cut leaves another word than the one that it was
made on: that word was still shorter than the limit.  So the reason that a run
gives tells which of them was the case.
-/

namespace TreeGrowth

variable {G σ : Type} [SeededSource G Float]

/-! ## Reasons at a stage -/

def RunPlan.Unchanged (plan : RunPlan) (source : G) (k : Nat) : Prop :=
  1 ≤ k ∧ (plan.stage source k).word = (plan.stage source (k - 1)).word

/-- A run may stop at a stage with this reason, or without one, where
`cancelled` says whether it is to be cancelled at the boundary behind the
stage. -/
inductive RunPlan.StopsFor (plan : RunPlan) (source : G) (k : Nat)
    (cancelled : Bool) : Option StopReason → Prop
  | pass (reason : StopReason)
      (hreason : plan.passReason? source k = some reason) :
      RunPlan.StopsFor plan source k cancelled (some reason)
  | cancelled (hlt : k < plan.passes)
      (hreason : plan.passReason? source k = none)
      (hcancelled : cancelled = true) :
      RunPlan.StopsFor plan source k cancelled (some .cancelled)
  | full (hlt : k < plan.passes) (hreason : plan.passReason? source k = none)
      (hrunning : cancelled = false)
      (hfull : plan.settings.lengthLimit ≤ (plan.stage source k).word.length) :
      RunPlan.StopsFor plan source k cancelled (some .lengthLimit)
  | whole (hpasses : k = plan.passes)
      (hreason : plan.passReason? source k = none) :
      RunPlan.StopsFor plan source k cancelled none

theorem RunPlan.passReason?_eq (plan : RunPlan) (source : G) (k : Nat) :
    (plan.stage source k).truncated = true ∧
        plan.passReason? source k = some .lengthLimit ∨
      (plan.stage source k).truncated = false ∧ plan.Unchanged source k ∧
        plan.passReason? source k = some .fixedPoint ∨
      (plan.stage source k).truncated = false ∧ ¬plan.Unchanged source k ∧
        plan.passReason? source k = none := by
  cases k with
  | zero => exact .inr (.inr ⟨rfl, by simp [RunPlan.Unchanged], rfl⟩)
  | succ k =>
      cases htruncated : (plan.stage source (k + 1)).truncated with
      | true => simp [RunPlan.passReason?, htruncated]
      | false =>
          by_cases hword : (plan.stage source (k + 1)).word =
              (plan.stage source k).word
          · simp [RunPlan.passReason?, RunPlan.Unchanged, htruncated, hword]
          · simp [RunPlan.passReason?, RunPlan.Unchanged, htruncated, hword]

theorem RunPlan.not_unchanged_of_passReason?_eq_none {plan : RunPlan}
    {source : G} {k : Nat} (hnone : plan.passReason? source k = none) :
    (plan.stage source k).truncated = false ∧ ¬plan.Unchanged source k := by
  rcases plan.passReason?_eq source k with
    ⟨_, hpass⟩ | ⟨_, _, hpass⟩ | ⟨hwhole, hother, _⟩
  · simp [hpass] at hnone
  · simp [hpass] at hnone
  · exact ⟨hwhole, hother⟩

/-- A run is at a stage only if the word of the stage before it was within the
limit, and a word that was cut is not. -/
theorem RunPlan.not_unchanged_of_truncated {plan : RunPlan} {e : Engine G}
    {requested : Int} (hplan : plan = RunPlan.ofEngine requested e)
    {source : G} {k : Nat} (hk : k ≤ plan.lastStage source)
    (htruncated : (plan.stage source k).truncated = true) :
    ¬plan.Unchanged source k := by
  rintro ⟨hpos, hsame⟩
  obtain ⟨j, rfl⟩ := Nat.exists_eq_add_of_le' hpos
  have hwithin : (plan.stage source j).word.length <
      plan.settings.lengthLimit := RunPlan.within_of_lt_lastStage hk
  have htable : plan.table = RuleTable.ofRules e.rules := by
    rw [hplan]
    rfl
  rw [Nat.add_sub_cancel] at hsame
  rw [← hsame] at hwithin
  rw [RunPlan.stage, htable] at htruncated hwithin
  have hlong := (rewritePass_truncated_iff _ _ _ _ _).mp htruncated
  rw [rewritePass_word, List.length_take, Nat.min_eq_left hlong.le] at hwithin
  exact absurd hwithin (Nat.lt_irrefl _)

/-! ## The stop of a run -/

variable {plan : RunPlan} {source : G} {k : Nat} {g : Growth G σ}

omit [SeededSource G Float] in
theorem Growth.eq_of_stop {next : Growth G σ} {reason : StopReason}
    {early : Option StopReason}
    (hstop : (g, some (Halt.stop reason)) = (next, early.map .stop)) :
    next = g ∧ early = some reason := by
  obtain ⟨hnext, hearly⟩ := Prod.mk.inj hstop
  obtain ⟨_, hreason, hsame⟩ := Option.map_eq_some_iff.mp hearly.symm
  cases hsame
  exact ⟨hnext.symm, hreason⟩

theorem Growth.stops_advance (observer : Observer G σ) (left : Nat)
    (hleft : k + left = plan.passes)
    (hreason : plan.passReason? source k = none)
    (hstage : g.AtStage plan source k) {next : Growth G σ}
    {early : Option StopReason}
    (hadvance : g.advance plan observer left = (next, early.map .stop)) :
    ∃ j, next.AtStage plan source j ∧
      plan.StopsFor source j next.run.cancelled early := by
  -- The induction is on the passes left; the passes made are no reason to stop
  -- as long as it goes on.
  induction left generalizing k g with
  | zero =>
      rw [Growth.advance] at hadvance
      obtain ⟨rfl, hearly⟩ := Prod.mk.inj hadvance
      obtain rfl := Option.map_eq_none_iff.mp hearly.symm
      exact ⟨k, hstage, .whole (by omega) hreason⟩
  | succ left ih =>
      have hsteps :=
        Growth.steps_step (observer.keeps_true plan source) hstage trivial
      rw [Growth.advance] at hadvance
      generalize g.step plan observer = out at hsteps hadvance
      cases hsteps with
      | cancelled hcancelled =>
          obtain ⟨rfl, rfl⟩ := Growth.eq_of_stop hadvance
          exact ⟨k, hstage, .cancelled (by omega) hreason hcancelled⟩
      | full hrunning hfull =>
          obtain ⟨rfl, rfl⟩ := Growth.eq_of_stop hadvance
          exact ⟨k, hstage, .full (by omega) hreason hrunning hfull⟩
      | broken after message _ _ _ _ =>
          obtain ⟨_, hearly⟩ := Prod.mk.inj hadvance
          obtain ⟨reason, _, hstop⟩ := Option.map_eq_some_iff.mp hearly.symm
          cases hstop
      | stopped after reason _ hafter hpass _ =>
          obtain ⟨rfl, rfl⟩ := Growth.eq_of_stop hadvance
          exact ⟨k + 1, hafter, .pass reason hpass⟩
      | went after _ hafter hpass _ =>
          exact ih (by omega) hpass hafter hadvance

theorem Run.stops_generate (run : Run G σ) (observer : Observer G σ)
    (requested : Int) (hfault : run.startFault? = none)
    (hsource : SeededSource.ofSeed run.engine.entropy
      run.engine.settings.seed = .ok source)
    {result : RunResult}
    (hresult : (run.generate requested observer).1 = .ok result) :
    let plan := RunPlan.ofEngine requested run.engine
    ∃ k early, result = plan.resultAt requested source k early ∧
      plan.StopsFor source k (run.generate requested observer).2.cancelled
        early := by
  intro plan
  cases hadvance :
      (run.begin plan source).advance plan observer plan.passes with
  | mk g halt =>
      have hstops : ∀ early : Option StopReason, halt = early.map .stop →
          ∃ k early, result = plan.resultAt requested source k early ∧
            plan.StopsFor source k
              (run.generate requested observer).2.cancelled early := by
        rintro early rfl
        have hgenerate :=
          Run.generate_of_stop hfault hsource rfl hadvance
        obtain ⟨k, hstage, hstop⟩ := Growth.stops_advance observer plan.passes
          (Nat.zero_add _) rfl (Growth.atStage_begin plan source run) hadvance
        obtain ⟨engine, hrun⟩ := Growth.finish_run plan requested early g
        rw [hgenerate] at hresult ⊢
        obtain rfl := Except.ok.inj hresult
        refine ⟨k, early, hstage.finish_result requested early, ?_⟩
        rw [hrun]
        exact hstop
      match halt with
      | none => exact hstops none rfl
      | some (.stop reason) => exact hstops (some reason) rfl
      | some (.broken message) =>
          rw [Run.generate_of_broken hfault hsource rfl hadvance] at hresult
          simp at hresult

/-! ## Reasons and what they tell -/

theorem RunPlan.StopsFor.reason_iff {e : Engine G} {requested : Int}
    (hplan : plan = RunPlan.ofEngine requested e) {cancelled : Bool}
    {early : Option StopReason} (hk : k ≤ plan.lastStage source)
    (hstop : plan.StopsFor source k cancelled early) :
    let reason := (plan.resultAt requested source k early).statistics.reason
    let cut := (plan.stage source k).truncated = true
    let unchanged := plan.Unchanged source k
    (reason = .fixedPoint ↔ unchanged) ∧
      (reason = .lengthLimit ↔ cut ∨ k < plan.passes ∧
        plan.settings.lengthLimit ≤ (plan.stage source k).word.length ∧
        cancelled = false) ∧
      (reason = .cancelled ↔
        k < plan.passes ∧ ¬cut ∧ ¬unchanged ∧ cancelled = true) ∧
      (reason = .passLimit ↔ k = plan.passes ∧ ¬cut ∧ ¬unchanged ∧
        (plan.settings.passLimit : Int) < requested) ∧
      (reason = .completed ↔ k = plan.passes ∧ ¬cut ∧ ¬unchanged ∧
        requested ≤ plan.settings.passLimit) := by
  dsimp only [RunPlan.resultAt]
  cases hstop with
  | pass early hpass =>
      rcases plan.passReason?_eq source k with
        ⟨hcut, hpass'⟩ | ⟨hwhole, hsame, hpass'⟩ | ⟨_, _, hpass'⟩
      · have hother := RunPlan.not_unchanged_of_truncated hplan hk hcut
        obtain rfl := Option.some.inj (hpass.symm.trans hpass')
        simp [hcut, hother]
      · -- The word is the one that the last pass was made on.
        have hwithin : (plan.stage source k).word.length <
            plan.settings.lengthLimit := by
          rw [hsame.2]
          exact RunPlan.within_of_lt_lastStage
            (Nat.sub_one_lt_of_le hsame.1 hk)
        have hshort := Nat.not_le.mpr hwithin
        obtain rfl := Option.some.inj (hpass.symm.trans hpass')
        simp [hwhole, hsame, hshort]
      · simp [hpass] at hpass'
  | cancelled hlt hpass hcancelled =>
      obtain ⟨hwhole, hother⟩ :=
        RunPlan.not_unchanged_of_passReason?_eq_none hpass
      simp [hlt, hlt.ne, hwhole, hother, hcancelled]
  | full hlt hpass hrunning hfull =>
      obtain ⟨hwhole, hother⟩ :=
        RunPlan.not_unchanged_of_passReason?_eq_none hpass
      simp [hlt, hlt.ne, hwhole, hother, hrunning, hfull]
  | whole hpasses hpass =>
      obtain ⟨hwhole, hother⟩ :=
        RunPlan.not_unchanged_of_passReason?_eq_none hpass
      by_cases hlimit : (plan.settings.passLimit : Int) < requested
      · simp [← hpasses, hwhole, hother, hlimit]
      · simp [← hpasses, hwhole, hother, hlimit, not_lt.mp hlimit]

/-- The reason of a run that does not fail, however it is observed, tells how
it stopped after its last pass: that pass left the word as it was, or was cut;
or more passes were asked for, and at the boundary behind it the run was to be
cancelled or, if not, the word had reached the limit; or all passes were made.
Just one of these is the case.  The wish to cancel that a returned run holds is
the one at its last boundary, since only an observer changes it. -/
theorem stop_reason_iff (e : Engine G) (requested : Int)
    (observer : Observer G σ) (cancelled : Bool) (memory : σ)
    {result : RunResult} :
    let run : Run G σ := { engine := e, cancelled, memory }
    let ended := run.generate requested observer
    ended.1 = .ok result → result.status ≠ .failure →
    let plan := RunPlan.ofEngine requested e
    let passes := result.statistics.passes
    let reason := result.statistics.reason
    (plan.passes : Int) = max 0 (min requested e.settings.passLimit) ∧
      passes ≤ plan.passes ∧
      (result.status = .cancelled ↔ reason = .cancelled) ∧
      ∃ source : G,
        SeededSource.ofSeed e.entropy e.settings.seed = .ok source ∧
        let word (k : Nat) := (plan.stage source k).word
        let cut := (plan.stage source passes).truncated = true
        let unchanged := 1 ≤ passes ∧ word passes = word (passes - 1)
        run.told requested observer =
            (List.range passes).map (fun k => (k + 1, word (k + 1))) ∧
          result.word = word passes ∧
          (reason = .fixedPoint ↔ unchanged) ∧
          (reason = .lengthLimit ↔ cut ∨
            passes < plan.passes ∧
              e.settings.lengthLimit ≤ (word passes).length ∧
              ended.2.cancelled = false) ∧
          (reason = .cancelled ↔ passes < plan.passes ∧ ¬cut ∧ ¬unchanged ∧
            ended.2.cancelled = true) ∧
          (reason = .passLimit ↔ passes = plan.passes ∧ ¬cut ∧ ¬unchanged ∧
            (e.settings.passLimit : Int) < requested) ∧
          (reason = .completed ↔ passes = plan.passes ∧ ¬cut ∧ ¬unchanged ∧
            requested ≤ e.settings.passLimit) := by
  intro run ended hresult hstatus plan passes reason
  have hplan : (plan.passes : Int) =
      max 0 (min requested e.settings.passLimit) := by
    change ((min requested.toNat e.settings.passLimit : Nat) : Int) = _
    omega
  rcases run.generate_not_begun requested observer with
    ⟨fault, _, hfailed⟩ | ⟨fault, _, _, hrefused⟩ | ⟨source, hfault, hsource⟩
  · rw [show ended.1 = _ from hfailed] at hresult
    obtain rfl := Except.ok.inj hresult
    exact absurd rfl hstatus
  · rw [show ended.1 = _ from hrefused] at hresult
    simp at hresult
  obtain ⟨k, hk, htold, hresults⟩ :=
    run.exists_told_eq observer requested hfault hsource
  obtain ⟨_, hresultAt⟩ := hresults result hresult
  obtain ⟨j, early, hearly, hstop⟩ :=
    run.stops_generate observer requested hfault hsource hresult
  have hpasses : passes = k :=
    congrArg (fun r : RunResult => r.statistics.passes) hresultAt
  obtain rfl : j = k := by
    have hj : passes = j :=
      congrArg (fun r : RunResult => r.statistics.passes) hearly
    exact hj.symm.trans hpasses
  subst hearly
  have hreasons := hstop.reason_iff rfl hk
  have hstatus' : (plan.resultAt requested source j early).status =
      .cancelled ↔ reason = .cancelled := by
    change (if reason = .cancelled then RunStatus.cancelled else .success) =
      .cancelled ↔ _
    by_cases hcancelled : reason = .cancelled <;> simp [hcancelled]
  exact ⟨hplan, hk.trans (plan.lastStage_le_passes source), hstatus', source,
    hsource, htold, rfl, hreasons⟩

theorem stop_reason_iff_sample :
    let run : Run Pcg64 Unit :=
      { engine := .budding, cancelled := false, memory := () }
    let plan := RunPlan.ofEngine 5 Engine.budding
    let ended := run.generate 5 .idle
    ∃ (result : RunResult) (source : Pcg64),
      ended.1 = .ok result ∧ result.status ≠ .failure ∧
        result.statistics.passes = 3 ∧
        result.statistics.reason = .lengthLimit ∧
        ((plan.stage source 3).truncated = true ∨
          3 < plan.passes ∧
            Engine.budding.settings.lengthLimit ≤
              (plan.stage source 3).word.length ∧
            ended.2.cancelled = false) := by
  intro run plan ended
  have hsummary : (ended.1.map fun result =>
      (result.status, result.statistics.passes,
        result.statistics.reason)).toOption =
      some (.success, 3, .lengthLimit) := by decide +kernel
  cases hresult : ended.1 with
  | error fault =>
      rw [hresult] at hsummary
      simp [Except.map, Except.toOption] at hsummary
  | ok result =>
      rw [hresult] at hsummary
      simp only [Except.map, Except.toOption, Option.some.injEq,
        Prod.mk.injEq] at hsummary
      obtain ⟨hsuccess, hpasses, hreason⟩ := hsummary
      have hstatus : result.status ≠ .failure := by simp [hsuccess]
      obtain ⟨_, _, _, source, _, _, _, _, hlength, _⟩ :=
        stop_reason_iff Engine.budding 5 .idle false () hresult hstatus
      rw [hpasses] at hlength
      exact ⟨result, source, rfl, hstatus, hpasses, hreason,
        hlength.mp hreason⟩

end TreeGrowth
