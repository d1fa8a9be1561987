import TreeGrowth.Proofs.Growth.Stop
import TreeGrowth.Proofs.Rewriting.Drawless

/-!
# Stopping at a fixed point

A run stops where a pass leaves its word as it was.  If that pass has drawn
nothing, then nothing is lost: all further passes would do the same, whatever
they drew from.  So under rules that never ask for a draw, a run comes to the
same word as one that goes on through its fixed points.
-/

namespace TreeGrowth

/-! ## Stages behind a fixed point -/

section Stages

variable {H : Type} [SeededSource H Float]

/-- Passes over a settled word, from any source, make no difference to the word
or the source. -/
theorem Settled.stage {plan : RunPlan} {rules : List (Rule Float)}
    (htable : plan.table = RuleTable.ofRules rules)
    (hsettled : Settled rules plan.settings.lengthLimit plan.start)
    (source : H) (k : Nat) :
    (plan.stage source k).word = plan.start ∧
      (plan.stage source k).truncated = false ∧
      (plan.stage source k).source = source ∧
      (plan.stage source k).tally.drawn = 0 := by
  induction k with
  | zero => exact ⟨rfl, rfl, rfl, rfl⟩
  | succ k ih =>
      obtain ⟨hword, _, hsource, hdrawn⟩ := ih
      rw [RunPlan.stage, hword, hsource, htable]
      obtain ⟨hsame, hwhole, hkept, hundrawn⟩ :=
        hsettled.rewritePass_eq (plan.stage source k).tally source
      exact ⟨hsame, hwhole, hkept, hundrawn.trans hdrawn⟩

end Stages

variable {G σ : Type} [SeededSource G Float]

/-- A run that stops at a fixed point has made a last pass, which was not cut
and left its word as it was. -/
theorem Run.exists_fixedPoint (run : Run G σ) (requested : Int)
    (observer : Observer G σ) {result : RunResult}
    (hresult : (run.generate requested observer).1 = .ok result)
    (hreason : result.statistics.reason = .fixedPoint) :
    let plan := RunPlan.ofEngine requested run.engine
    ∃ (source : G) (k : Nat),
      SeededSource.ofSeed run.engine.entropy run.engine.settings.seed =
        .ok source ∧
      result.statistics.passes = k + 1 ∧
      result.word = (plan.stage source k).word ∧
      (plan.stage source (k + 1)).word = (plan.stage source k).word ∧
      (plan.stage source (k + 1)).truncated = false := by
  intro plan
  rcases run.generate_not_begun requested observer with
    ⟨fault, _, hfailed⟩ | ⟨fault, _, _, hrefused⟩ | ⟨source, hfault, hsource⟩
  · rw [hfailed] at hresult
    obtain rfl := Except.ok.inj hresult
    simp [RunResult.failed] at hreason
  · rw [hrefused] at hresult
    simp at hresult
  obtain ⟨j, hj, _, hresults⟩ :=
    run.exists_told_eq observer requested hfault hsource
  obtain ⟨_, hlast⟩ := hresults result hresult
  obtain ⟨j', early, rfl, hstop⟩ :=
    run.stops_generate observer requested hfault hsource hresult
  obtain rfl : j' = j :=
    congrArg (fun r : RunResult => r.statistics.passes) hlast
  have hunchanged := (hstop.reason_iff rfl hj).1.mp hreason
  have hwhole : (plan.stage source j').truncated = false := by
    rw [← Bool.not_eq_true]
    exact fun hcut => RunPlan.not_unchanged_of_truncated rfl hj hcut hunchanged
  obtain ⟨k, rfl⟩ := Nat.exists_eq_add_of_le' hunchanged.1
  have hsame := hunchanged.2
  rw [Nat.add_sub_cancel] at hsame
  exact ⟨source, k, hsource, rfl, hsame, hsame, hwhole⟩

/-! ## Going on through fixed points -/

/-- The step of a run without the exit at a fixed point. -/
def Growth.stepThrough (plan : RunPlan) (observer : Observer G σ)
    (g : Growth G σ) : Growth G σ × Option Halt :=
  match g.stopBefore? plan with
  | some reason => (g, some (.stop reason))
  | none =>
      let (g, truncated) := g.rewrite plan
      match g.notify plan observer with
      | (g, some message) => (g, some (.broken message))
      | (g, none) =>
          if truncated then
            let run := g.run.report .warning
              ("String length exceeded maximum (" ++
                plan.settings.lengthLimit.repr ++ ") during iteration " ++
                g.passes.repr ++ ", truncated")
            ({ g with run }, some (.stop .lengthLimit))
          else (g, none)

def Growth.advanceThrough (plan : RunPlan) (observer : Observer G σ) :
    Nat → Growth G σ → Growth G σ × Option Halt
  | 0, g => (g, none)
  | left + 1, g =>
      match g.stepThrough plan observer with
      | (g, none) => Growth.advanceThrough plan observer left g
      | (g, some halt) => (g, some halt)

/-- The run that goes on through its fixed points. -/
def Run.generateThrough (requested : Int) (observer : Observer G σ)
    (run : Run G σ) : Except RunError RunResult × Run G σ :=
  match run.startFault? with
  | some fault =>
      (.ok (.failed fault.message), run.report .warning (Run.refusal fault))
  | none =>
      let plan := RunPlan.ofEngine requested run.engine
      match SeededSource.ofSeed run.engine.entropy plan.settings.seed with
      | .error fault => (.error (.seed fault), run)
      | .ok source =>
          match (run.begin plan source).advanceThrough plan observer
              plan.passes with
          | (g, some (.broken message)) => (.error (.observer message), g.run)
          | (g, some (.stop reason)) =>
              let (result, run) := g.finish plan requested (some reason)
              (.ok result, run)
          | (g, none) =>
              let (result, run) := g.finish plan requested none
              (.ok result, run)

variable {plan : RunPlan} {observer : Observer G σ}

omit [SeededSource G Float] in
theorem Growth.exists_notify_eq (hquiet : ∀ message, ¬observer.Raises message)
    (plan : RunPlan) (g : Growth G σ) :
    ∃ run, g.notify plan observer = ({ g with run }, none) := by
  unfold Growth.notify
  split
  next run message hbroken =>
    exact absurd (.inl ⟨_, _, _, by rw [hbroken]⟩) (hquiet message)
  next run _ =>
    cases hraised : (observer.onProgress
        (Float.ofNat g.passes / Float.ofNat plan.passes) run).2 with
    | some message => exact absurd (.inr ⟨_, _, hraised⟩) (hquiet message)
    | none => exact ⟨_, by simp only [hraised]; rfl⟩

/-- The two kinds of step from one stage, for an observer that breaks nothing
off: both stop, both go on, or only one goes on because the word is as it
was. -/
inductive Growth.StepsBoth (plan : RunPlan) (g : Growth G σ) :
    Growth G σ × Option Halt → Growth G σ × Option Halt → Prop
  | stopped (next : Growth G σ) (reason : StopReason) :
      Growth.StepsBoth plan g (next, some (.stop reason))
        (next, some (.stop reason))
  | parted (next next' : Growth G σ) (hwhole : (g.rewrite plan).2 = false)
      (hsame : (g.rewrite plan).1.word = g.word) (hword : next.word = g.word)
      (hword' : next'.word = g.word) :
      Growth.StepsBoth plan g (next, some (.stop .fixedPoint)) (next', none)
  | went (next : Growth G σ) :
      Growth.StepsBoth plan g (next, none) (next, none)

theorem Growth.stepsBoth (hquiet : ∀ message, ¬observer.Raises message)
    (plan : RunPlan) (g : Growth G σ) :
    Growth.StepsBoth plan g (g.step plan observer)
      (g.stepThrough plan observer) := by
  unfold Growth.step Growth.stepThrough
  cases g.stopBefore? plan with
  | some reason => exact .stopped g reason
  | none =>
      obtain ⟨run, hnotify⟩ :=
        Growth.exists_notify_eq hquiet plan (g.rewrite plan).1
      simp only [hnotify]
      by_cases hcut : (g.rewrite plan).2 = true
      · simp only [if_pos hcut]
        exact .stopped _ _
      · have hwhole : (g.rewrite plan).2 = false := by simpa using hcut
        simp only [if_neg hcut]
        split
        next hsame => exact .parted _ _ hwhole hsame hsame hsame
        next => exact .went _

theorem Settled.stepThrough {rules : List (Rule Float)}
    (htable : plan.table = RuleTable.ofRules rules)
    (hquiet : ∀ message, ¬observer.Raises message) {g : Growth G σ}
    (hsettled : Settled rules plan.settings.lengthLimit g.word) :
    ∃ (next : Growth G σ) (early : Option StopReason),
      g.stepThrough plan observer = (next, early.map .stop) ∧
        next.word = g.word := by
  unfold Growth.stepThrough
  cases g.stopBefore? plan with
  | some reason => exact ⟨g, some reason, rfl, rfl⟩
  | none =>
      obtain ⟨hword, hwhole, _, _⟩ := hsettled.rewritePass_eq g.tally g.source
      rw [← htable] at hword hwhole
      obtain ⟨run, hnotify⟩ :=
        Growth.exists_notify_eq hquiet plan (g.rewrite plan).1
      have huncut : (g.rewrite plan).2 = false := hwhole
      simp only [hnotify, huncut]
      exact ⟨_, none, rfl, hword⟩

theorem Settled.advanceThrough {rules : List (Rule Float)}
    (htable : plan.table = RuleTable.ofRules rules)
    (hquiet : ∀ message, ¬observer.Raises message) (left : Nat)
    {g : Growth G σ}
    (hsettled : Settled rules plan.settings.lengthLimit g.word) :
    ∃ (next : Growth G σ) (early : Option StopReason),
      g.advanceThrough plan observer left = (next, early.map .stop) ∧
        next.word = g.word := by
  induction left generalizing g with
  | zero => exact ⟨g, none, rfl, rfl⟩
  | succ left ih =>
      obtain ⟨next, early, hstep, hword⟩ :=
        hsettled.stepThrough htable hquiet
      rw [Growth.advanceThrough, hstep]
      cases early with
      | some reason => exact ⟨next, some reason, rfl, hword⟩
      | none =>
          obtain ⟨last, early, hrest, hkept⟩ := ih (hword ▸ hsettled)
          exact ⟨last, early, hrest, hkept.trans hword⟩

/-- Under rules that never ask for a draw, both kinds of run come to the same
word. -/
theorem Growth.word_advanceThrough {rules : List (Rule Float)}
    (htable : plan.table = RuleTable.ofRules rules)
    (hdrawless : ∀ word, Drawless rules word)
    (hquiet : ∀ message, ¬observer.Raises message) (left : Nat)
    (g : Growth G σ) :
    ∃ (next next' : Growth G σ) (early early' : Option StopReason),
      g.advance plan observer left = (next, early.map .stop) ∧
        g.advanceThrough plan observer left = (next', early'.map .stop) ∧
        next.word = next'.word := by
  induction left generalizing g with
  | zero => exact ⟨g, g, none, none, rfl, rfl, rfl⟩
  | succ left ih =>
      have hboth := Growth.stepsBoth hquiet plan g
      rw [Growth.advance, Growth.advanceThrough]
      generalize g.step plan observer = out at hboth
      generalize g.stepThrough plan observer = through at hboth
      cases hboth with
      | stopped next reason =>
          exact ⟨next, next, some reason, some reason, rfl, rfl, rfl⟩
      | parted next next' hwhole hsame hword hword' =>
          -- The pass was made on this word, so the word is settled.
          have hsettled :
              Settled rules plan.settings.lengthLimit g.word := by
            simp only [Growth.rewrite, htable] at hwhole hsame
            exact (hdrawless g.word).settled hwhole hsame
          obtain ⟨last, early, hrest, hkept⟩ :=
            Settled.advanceThrough htable hquiet left (hword' ▸ hsettled)
          exact ⟨next, last, some .fixedPoint, early, rfl, hrest,
            hword.trans (hkept.trans hword').symm⟩
      | went next => exact ih next

theorem Run.word_generateThrough (run : Run G σ) (requested : Int)
    (hdrawless : ∀ word, Drawless run.engine.rules word)
    (hquiet : ∀ message, ¬observer.Raises message) :
    ((run.generate requested observer).1.map fun result => result.word) =
      (run.generateThrough requested observer).1.map
        fun result => result.word := by
  have htable : (RunPlan.ofEngine requested run.engine).table =
      RuleTable.ofRules run.engine.rules := rfl
  unfold Run.generate Run.generateThrough
  cases run.startFault? with
  | some fault => rfl
  | none =>
      simp only
      cases SeededSource.ofSeed (G := G) run.engine.entropy
          (RunPlan.ofEngine requested run.engine).settings.seed with
      | error fault => rfl
      | ok source =>
          obtain ⟨next, next', early, early', hadvance, hthrough, hword⟩ :=
            Growth.word_advanceThrough htable hdrawless hquiet
              (RunPlan.ofEngine requested run.engine).passes
              (run.begin (RunPlan.ofEngine requested run.engine) source)
          have hsame : ∀ reason reason' : Option StopReason,
              (next.finish (RunPlan.ofEngine requested run.engine) requested
                  reason).1.word =
                (next'.finish (RunPlan.ofEngine requested run.engine)
                  requested reason').1.word :=
            fun _ _ => hword
          simp only [hadvance, hthrough]
          cases early <;> cases early' <;>
            exact congrArg Except.ok (hsame _ _)

/-! ## Fixed points -/

/-- If the last pass of a run that stops at a fixed point has drawn nothing,
then any further passes over its word, from any source, leave the word and the
source as they are.  If the rules never ask for a draw, then runs come to the
same words as runs that go on through their fixed points. -/
theorem fixed_point_is_final (e : Engine G) (requested : Int)
    (observer : Observer G σ) (cancelled : Bool) (memory : σ) :
    let run : Run G σ := { engine := e, cancelled, memory }
    let plan := RunPlan.ofEngine requested e
    (∀ result, (run.generate requested observer).1 = .ok result →
      result.statistics.reason = .fixedPoint →
      ∃ source : G,
        SeededSource.ofSeed e.entropy e.settings.seed = .ok source ∧
        let passes := result.statistics.passes
        1 ≤ passes ∧
        ((plan.stage source passes).tally.drawn =
            (plan.stage source (passes - 1)).tally.drawn →
          ∀ {H : Type} [SeededSource H Float] (fresh : H) (more : Nat),
            let further :=
              ({ plan with start := result.word } : RunPlan).stage fresh more
            further.word = result.word ∧ further.truncated = false ∧
              further.source = fresh ∧ further.tally.drawn = 0)) ∧
    ((∀ word, Drawless e.rules word) →
      (∀ message, ¬observer.Raises message) →
      ((run.generate requested observer).1.map fun result => result.word) =
        (run.generateThrough requested observer).1.map
          fun result => result.word) := by
  intro run plan
  constructor
  · intro result hresult hreason
    obtain ⟨source, k, hsource, hpasses, hword, hsame, hwhole⟩ :=
      run.exists_fixedPoint requested observer hresult hreason
    refine ⟨source, hsource, by omega, ?_⟩
    intro hundrawn H _ fresh more
    rw [hpasses, Nat.add_sub_cancel] at hundrawn
    have hdrawless : Drawless e.rules (plan.stage source k).word :=
      drawless_of_rewritePass hwhole hundrawn
    let plan' : RunPlan := { plan with start := result.word }
    have htable : plan'.table = RuleTable.ofRules e.rules := rfl
    have hsettled : Settled e.rules plan'.settings.lengthLimit plan'.start := by
      change Settled e.rules e.settings.lengthLimit result.word
      rw [hword]
      exact hdrawless.settled hwhole hsame
    exact hsettled.stage htable fresh more
  · intro hdrawless hquiet
    exact run.word_generateThrough requested hdrawless hquiet

/-- An engine whose word is ripe after one pass. -/
def Engine.ripening : Engine Pcg64 :=
  { Engine.sample with
    start := ['A', 'C', '[', 'A', ']']
    rules := [.ofWords [] ['A'] [] ['C', 'B'] 1.0,
      .ofWords [] ['C'] [] ['C'] 1.0] }

theorem Engine.ripening_drawless (word : Word) :
    Drawless Engine.ripening.rules word :=
  drawless_of_pairwise (by decide) word

theorem fixed_point_is_final_sample :
    let e := Engine.ripening
    let run : Run Pcg64 Unit := { engine := e, cancelled := false, memory := () }
    let plan := RunPlan.ofEngine 5 e
    let ripe : Word := ['C', 'B', 'C', '[', 'C', 'B', ']']
    (run.generate 5 .idle).1.map (fun result => result.word) =
        (run.generateThrough 5 .idle).1.map (fun result => result.word) ∧
      ∃ result : RunResult,
        (run.generate 5 .idle).1 = .ok result ∧ result.word = ripe ∧
          result.statistics.passes = 2 ∧
          result.statistics.reason = .fixedPoint ∧
          ∀ (fresh : Pcg64) (more : Nat),
            (({ plan with start := result.word } : RunPlan).stage fresh
              more).word = result.word := by
  intro e run plan ripe
  have hfinal := fixed_point_is_final e 5 (Observer.idle (G := Pcg64)) false ()
  refine ⟨hfinal.2 Engine.ripening_drawless Observer.not_raises_idle, ?_⟩
  have hsummary : ((run.generate 5 .idle).1.map fun result =>
      (result.word, result.statistics.passes,
        result.statistics.reason)).toOption =
      some (ripe, 2, .fixedPoint) := by decide +kernel
  cases hresult : (run.generate 5 .idle).1 with
  | error fault =>
      rw [hresult] at hsummary
      simp [Except.map, Except.toOption] at hsummary
  | ok result =>
      rw [hresult] at hsummary
      simp only [Except.map, Except.toOption, Option.some.injEq,
        Prod.mk.injEq] at hsummary
      obtain ⟨hword, hpasses, hreason⟩ := hsummary
      obtain ⟨source, _, _, hfurther⟩ := hfinal.1 result hresult hreason
      refine ⟨result, rfl, hword, hpasses, hreason, ?_⟩
      intro fresh more
      refine (hfurther ?_ fresh more).1
      rw [hpasses]
      exact ((Engine.ripening_drawless _).source_rewritePass _ _).2

end TreeGrowth
