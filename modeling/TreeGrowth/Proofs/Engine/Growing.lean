import TreeGrowth.Grammar.Background
import TreeGrowth.Proofs.Engine.SetUp

/-!
# Engines that say they are growing

A run raises the flag of its engine when it begins and takes it down when it
finishes, but not when its observer breaks it off.  So between two calls the
flag tells the truth unless a run was broken off, and then it stays up until
another run finishes or the engine is restarted or reset.
-/

namespace TreeGrowth

variable {G σ : Type}

def Engine.IsGrowing (e : Engine G) : Prop := e.progress.growing = true

theorem Engine.isGrowing_congr {e e' : Engine G}
    (hprogress : e'.progress = e.progress) : e'.IsGrowing ↔ e.IsGrowing := by
  rw [Engine.IsGrowing, Engine.IsGrowing, hprogress]

/-! ## Endings of calls -/

/-- What a call does about the flag. -/
inductive CallEnding
  | kept
  | settled
  | brokenOff
  deriving Repr, DecidableEq

def CallEnding.ofOutcome : Except RunError RunResult → CallEnding
  | .ok result => if result.status = .failure then .kept else .settled
  | .error (.seed _) => .kept
  | .error (.observer _) => .brokenOff

theorem CallEnding.ofOutcome_ok {result : RunResult}
    (hstatus : result.status ≠ .failure) :
    CallEnding.ofOutcome (.ok result) = .settled :=
  if_neg hstatus

/-- The last ending that is not `kept`, if there is one. -/
def CallEnding.last? (endings : List CallEnding) : Option CallEnding :=
  (endings.filter fun ending => ending != .kept).getLast?

/-- The flag after a call, given how the call ended.  Whoever may change the
engine in the course of the call is calm if he leaves a raised flag alone. -/
inductive CallEnding.Leaves (e : Engine G) (calm : Prop) :
    Engine G × CallEnding → Prop
  | kept {e' : Engine G} (hdown : e'.IsGrowing → e.IsGrowing)
      (hup : calm → e.IsGrowing → e'.IsGrowing) :
      CallEnding.Leaves e calm (e', .kept)
  | settled {e' : Engine G} (hdown : ¬e'.IsGrowing) :
      CallEnding.Leaves e calm (e', .settled)
  | brokenOff {e' : Engine G} (hup : calm → e'.IsGrowing) :
      CallEnding.Leaves e calm (e', .brokenOff)

section Leaves

variable {e e' e'' : Engine G} {calm : Prop} {ending : CallEnding}

theorem CallEnding.Leaves.same (hprogress : e'.progress = e.progress) :
    CallEnding.Leaves e calm (e', .kept) := by
  have hflag := Engine.isGrowing_congr hprogress
  exact .kept hflag.mp fun _ => hflag.mpr

theorem CallEnding.Leaves.mono {calm' : Prop}
    (hleaves : CallEnding.Leaves e calm (e', ending))
    (hcalm : calm' → calm) : CallEnding.Leaves e calm' (e', ending) := by
  cases hleaves with
  | kept hdown hup => exact .kept hdown fun hcalm' => hup (hcalm hcalm')
  | settled hdown => exact .settled hdown
  | brokenOff hup => exact .brokenOff fun hcalm' => hup (hcalm hcalm')

theorem CallEnding.Leaves.before
    (hleaves : CallEnding.Leaves e' calm (e'', ending))
    (hdown : e'.IsGrowing → e.IsGrowing)
    (hup : calm → e.IsGrowing → e'.IsGrowing) :
    CallEnding.Leaves e calm (e'', ending) := by
  cases hleaves with
  | kept hdown' hup' =>
      exact .kept (fun hflag => hdown (hdown' hflag))
        fun hcalm hflag => hup' hcalm (hup hcalm hflag)
  | settled hdown' => exact .settled hdown'
  | brokenOff hup' => exact .brokenOff hup'

theorem CallEnding.Leaves.after
    (hleaves : CallEnding.Leaves e calm (e', ending))
    (hdown : e''.IsGrowing → e'.IsGrowing)
    (hup : calm → e'.IsGrowing → e''.IsGrowing) :
    CallEnding.Leaves e calm (e'', ending) := by
  cases hleaves with
  | kept hdown' hup' =>
      exact .kept (fun hflag => hdown' (hdown hflag))
        fun hcalm hflag => hup hcalm (hup' hcalm hflag)
  | settled hdown' => exact .settled fun hflag => hdown' (hdown hflag)
  | brokenOff hup' => exact .brokenOff fun hcalm => hup hcalm (hup' hcalm)

end Leaves

/-! ## Runs -/

theorem Growth.not_isGrowing_finish (plan : RunPlan) (requested : Int)
    (early : Option StopReason) (g : Growth G σ) :
    ¬(g.finish plan requested early).2.engine.IsGrowing := by
  simp [Growth.finish, Engine.IsGrowing]

theorem Growth.status_finish (plan : RunPlan) (requested : Int)
    (early : Option StopReason) (g : Growth G σ) :
    (g.finish plan requested early).1.status ≠ .failure := by
  simp only [Growth.finish]
  generalize early.getD _ = reason
  cases reason <;> simp

theorem Engine.isGrowing_unnotedByPass :
    Engine.UnnotedByPass (Engine.IsGrowing (G := G)) :=
  fun _ _ _ _ _ hgrowing => hgrowing

variable [SeededSource G Float]

theorem Run.leaves_generate (run : Run G σ) (requested : Int)
    (observer : Observer G σ) :
    let ended := run.generate requested observer
    CallEnding.Leaves run.engine (observer.Preserves Engine.IsGrowing)
      (ended.2.engine, .ofOutcome ended.1) := by
  intro ended
  cases hfault : run.startFault? with
  | some fault =>
      rw [show ended = _ from Run.generate_of_startFault _ _ hfault]
      exact .same rfl
  | none =>
      cases hsource : SeededSource.ofSeed (G := G) run.engine.entropy
          run.engine.settings.seed with
      | error fault =>
          rw [show ended = _ from
            Run.generate_of_refused _ _ hfault hsource]
          exact .same rfl
      | ok source =>
          obtain ⟨plan, hplan⟩ :
              ∃ plan, plan = RunPlan.ofEngine requested run.engine := ⟨_, rfl⟩
          cases hadvance :
              (run.begin plan source).advance plan observer plan.passes with
          | mk g halt =>
              have hstopped : ∀ early : Option StopReason,
                  halt = early.map .stop →
                    CallEnding.Leaves run.engine
                      (observer.Preserves Engine.IsGrowing)
                      (ended.2.engine, .ofOutcome ended.1) := by
                rintro early rfl
                rw [show ended = _ from
                  Run.generate_of_stop hfault hsource hplan hadvance]
                rw [CallEnding.ofOutcome_ok
                  (g.status_finish plan requested early)]
                exact .settled (g.not_isGrowing_finish plan requested early)
              match halt with
              | none => exact hstopped none rfl
              | some (.stop reason) => exact hstopped (some reason) rfl
              | some (.broken message) =>
                  rw [show ended = _ from
                    Run.generate_of_broken hfault hsource hplan hadvance]
                  refine .brokenOff fun hcalm => ?_
                  have hkept := Growth.advance_preserves
                    Engine.isGrowing_unnotedByPass hcalm plan plan.passes
                    (run.begin plan source) rfl
                  rw [hadvance] at hkept
                  exact hkept

/-! ## Operations -/

def Operation.ending (e : Engine G) : Operation → CallEnding
  | .reset => .settled
  | .restart start settings? =>
      if ((Operation.restart start settings?).perform e).2.isNone then .settled
      else .kept
  | .generate requested script =>
      .ofOutcome (Run.generate requested
        (.performing script : Observer G Unit)
        { engine := e, cancelled := false, memory := () }).1
  | _ => .kept

/-- An operation is calm if it is no run or its script leaves a raised flag
alone. -/
def Operation.Calm (G : Type) [SeededSource G Float] : Operation → Prop
  | .generate _ script =>
      (Observer.performing script : Observer G Unit).Preserves
        Engine.IsGrowing
  | _ => True

theorem Operation.leaves_perform (e : Engine G) (operation : Operation) :
    CallEnding.Leaves e (operation.Calm G)
      ((operation.perform e).1, operation.ending e) := by
  cases operation with
  | reset => exact .settled Bool.false_ne_true
  | removeRules _ | removeRule _ | clearRules | singlePass _ =>
      exact .same rfl
  | addRule rule =>
      obtain ⟨rules, journal, hadd⟩ := e.exists_addRule_frame rule
      have hkept := congrArg Engine.progress (hadd e.start e.settings)
      exact .same hkept
  | addRuleText text =>
      obtain ⟨rules, journal, hadd⟩ := e.exists_addRuleText_frame text
      have hkept := congrArg Engine.progress (hadd e.start e.settings)
      exact .same hkept
  | reseed seed =>
      refine .same ?_
      simp only [Operation.perform, Engine.reseed, Engine.restartSource]
      cases SeededSource.ofSeed (G := G) e.entropy seed <;> rfl
  | restart start settings? =>
      cases settings? with
      | none => exact .settled Bool.false_ne_true
      | some settings =>
          cases hsource : SeededSource.ofSeed (G := G) e.entropy
              settings.seed with
          | error fault =>
              rw [Operation.ending, Operation.perform_of_refused rfl hsource]
              exact .same rfl
          | ok source =>
              rw [Operation.ending, Operation.not_raises_of_seeded rfl hsource]
              refine .settled ?_
              simp [Operation.perform, Engine.restart, Engine.restartSource,
                hsource, Except.map, Engine.report, Engine.IsGrowing]
  | generate requested script =>
      have hleaves := Run.leaves_generate
        { engine := e, cancelled := false, memory := () } requested
        (.performing script : Observer G Unit)
      have hperform :
          ((Operation.generate requested script).perform e).1 =
            (Run.generate requested (.performing script : Observer G Unit)
              { engine := e, cancelled := false, memory := () }).2.engine := by
        simp only [Operation.perform, Observer.performing]
        split <;> simp [*]
      rw [hperform]
      exact hleaves

/-! ## Tasks -/

/-- No run of the task is in progress at the moment. -/
def GrowthTask.Moment.isIdle : GrowthTask.Moment → Bool
  | .pass _ | .iteration _ | .progress _ => false
  | .start | .stored | .posted | .finished => true

/-- Others do not raise the flag while no run is in progress: what they call
then is a call of its own. -/
def GrowthTask.Interlude.Idles (interlude : GrowthTask.Interlude G σ) : Prop :=
  ∀ moment, moment.isIdle = true → ∀ run,
    (interlude moment run).1.engine.IsGrowing → run.engine.IsGrowing

def GrowthTask.Interlude.Calm (interlude : GrowthTask.Interlude G σ) : Prop :=
  ∀ moment run, run.engine.IsGrowing →
    (interlude moment run).1.engine.IsGrowing

omit [SeededSource G Float] in
theorem GrowthTask.Interlude.Calm.observer
    {interlude : GrowthTask.Interlude G σ} (hcalm : interlude.Calm) :
    (GrowthTask.observer interlude).Preserves Engine.IsGrowing where
  onPass passes word run hflag := by
    have hpass := hcalm (.pass passes) run hflag
    simp only [GrowthTask.observer, GrowthTask.andThen]
    split
    next met message hbroken =>
      rw [hbroken] at hpass
      exact hpass
    next met hwent =>
      rw [hwent] at hpass
      exact hcalm (.iteration passes) _ hpass
  onProgress fraction run hflag := hcalm (.progress fraction) _ hflag

/-- After its run a task is met at three more moments, and the progress of its
engine is up to those who meet it there. -/
theorem GrowthTask.exists_met (requested : Int)
    (interlude : GrowthTask.Interlude G σ) (run : Run G (GrowthTask σ)) :
    let ended := ((interlude .start run).1.generate requested
      (GrowthTask.observer interlude)).2
    ∃ stored posted finished : Run G (GrowthTask σ),
      (GrowthTask.perform requested interlude run).engine.progress =
          (interlude .finished finished).1.engine.progress ∧
        finished.engine = (interlude .posted posted).1.engine ∧
        posted.engine = (interlude .stored stored).1.engine ∧
        stored.engine.progress = ended.engine.progress := by
  simp only [GrowthTask.perform]
  generalize (interlude .start run).1.generate requested
    (GrowthTask.observer interlude) = out
  obtain ⟨outcome, ended⟩ := out
  cases outcome with
  | ok result => exact ⟨_, _, _, rfl, rfl, rfl, rfl⟩
  | error fault => exact ⟨_, _, _, rfl, rfl, rfl, rfl⟩

theorem GrowthTask.leaves_perform (requested : Int)
    {interlude : GrowthTask.Interlude G σ} (hidle : interlude.Idles)
    (run : Run G (GrowthTask σ)) :
    CallEnding.Leaves run.engine interlude.Calm
      ((GrowthTask.perform requested interlude run).engine,
        .ofOutcome ((interlude .start run).1.generate requested
          (GrowthTask.observer interlude)).1) := by
  have hgenerate := Run.leaves_generate (interlude .start run).1 requested
    (GrowthTask.observer interlude)
  have hended := (hgenerate.mono GrowthTask.Interlude.Calm.observer).before
    (hidle .start rfl run) fun hcalm => hcalm .start run
  obtain ⟨stored, posted, finished, hperform, hfinished, hposted, hstored⟩ :=
    GrowthTask.exists_met requested interlude run
  refine hended.after ?_ ?_
  · rw [Engine.isGrowing_congr hperform, ← Engine.isGrowing_congr hstored]
    intro hflag
    have hflag := hidle .finished rfl finished hflag
    rw [hfinished] at hflag
    have hflag := hidle .posted rfl posted hflag
    rw [hposted] at hflag
    exact hidle .stored rfl stored hflag
  · rw [Engine.isGrowing_congr hperform, ← Engine.isGrowing_congr hstored]
    intro hcalm hflag
    apply hcalm .finished finished
    rw [hfinished]
    apply hcalm .posted posted
    rw [hposted]
    exact hcalm .stored stored hflag

/-! ## Calls, one after another -/

/-- What whoever holds an engine may call: an operation, a run with an observer
or a task with interludes of others. -/
inductive EngineCall (G : Type) : Type 1
  | operate (operation : Operation)
  | run {σ : Type} (requested : Int) (observer : Observer G σ)
      (cancelled : Bool) (memory : σ)
  | task {σ : Type} (requested : Int) (interlude : GrowthTask.Interlude G σ)
      (hidle : interlude.Idles) (cancelled : Bool) (memory : GrowthTask σ)

def EngineCall.perform (e : Engine G) : EngineCall G → Engine G × CallEnding
  | .operate operation => ((operation.perform e).1, operation.ending e)
  | .run requested observer cancelled memory =>
      let (outcome, ended) :=
        Run.generate requested observer { engine := e, cancelled, memory }
      (ended.engine, .ofOutcome outcome)
  | .task requested interlude _ cancelled memory =>
      let begun : Run _ _ := { engine := e, cancelled, memory }
      let (outcome, _) := (interlude .start begun).1.generate requested
        (GrowthTask.observer interlude)
      ((GrowthTask.perform requested interlude begun).engine,
        .ofOutcome outcome)

/-- Whoever may change the engine in the course of the call leaves a raised
flag alone. -/
def EngineCall.Calm : EngineCall G → Prop
  | .operate operation => operation.Calm G
  | .run _ observer _ _ => observer.Preserves Engine.IsGrowing
  | .task _ interlude _ _ _ => interlude.Calm

theorem EngineCall.leaves_perform (e : Engine G) (call : EngineCall G) :
    CallEnding.Leaves e call.Calm (call.perform e) := by
  cases call with
  | operate operation => exact operation.leaves_perform e
  | run requested observer cancelled memory =>
      exact Run.leaves_generate { engine := e, cancelled, memory } requested
        observer
  | task requested interlude hidle cancelled memory =>
      exact GrowthTask.leaves_perform requested hidle
        { engine := e, cancelled, memory }

/-- The engine after the calls, and how each of them has ended. -/
def EngineCall.performAll (e : Engine G) (calls : List (EngineCall G)) :
    Engine G × List CallEnding :=
  calls.foldl (fun (e, endings) call =>
    let (e, ending) := call.perform e
    (e, endings ++ [ending])) (e, [])

theorem EngineCall.performAll_concat (e : Engine G)
    (calls : List (EngineCall G)) (call : EngineCall G) :
    EngineCall.performAll e (calls ++ [call]) =
      let before := EngineCall.performAll e calls
      ((call.perform before.1).1, before.2 ++ [(call.perform before.1).2]) := by
  simp [EngineCall.performAll]

omit [SeededSource G Float] in
theorem CallEnding.last?_concat (endings : List CallEnding)
    (ending : CallEnding) :
    CallEnding.last? (endings ++ [ending]) =
      if ending = .kept then CallEnding.last? endings else some ending := by
  cases ending <;> simp [CallEnding.last?]

theorem EngineCall.isGrowing_performAll {e : Engine G}
    (hbefore : ¬e.IsGrowing) (calls : List (EngineCall G)) :
    let ended := EngineCall.performAll e calls
    (ended.1.IsGrowing → CallEnding.last? ended.2 = some .brokenOff) ∧
      ((∀ call ∈ calls, call.Calm) →
        CallEnding.last? ended.2 = some .brokenOff → ended.1.IsGrowing) := by
  -- The induction adds a call at the end: what it does about the flag is
  -- known, and the flag before it is settled by the calls before.
  induction calls using List.reverseRecOn with
  | nil =>
      exact ⟨fun hflag => absurd hflag hbefore,
        by simp [EngineCall.performAll, CallEnding.last?]⟩
  | append_singleton calls call ih =>
      obtain ⟨honly, hcalm⟩ := ih
      have hleaves := call.leaves_perform (EngineCall.performAll e calls).1
      simp only [EngineCall.performAll_concat, CallEnding.last?_concat]
      generalize call.perform (EngineCall.performAll e calls).1 = out
        at hleaves ⊢
      cases hleaves with
      | kept hdown hup =>
          refine ⟨fun hflag => honly (hdown hflag), fun hall hlast => ?_⟩
          rw [List.forall_mem_append, List.forall_mem_singleton] at hall
          exact hup hall.2 (hcalm hall.1 hlast)
      | settled hdown =>
          exact ⟨fun hflag => absurd hflag hdown, by simp⟩
      | brokenOff hup =>
          refine ⟨fun _ => rfl, fun hall _ => ?_⟩
          rw [List.forall_mem_append, List.forall_mem_singleton] at hall
          exact hup hall.2

theorem Engine.not_isGrowing_of_create {start : Word}
    {settings : GrowthSettings} {entropy : Nat} {e : Engine G}
    (hcreate : Engine.create start settings entropy = .ok e) :
    ¬e.IsGrowing := by
  cases hsource : SeededSource.ofSeed (G := G) entropy settings.seed with
  | error fault =>
      simp [Engine.create, hsource, bind, Except.bind] at hcreate
  | ok source =>
      simp only [Engine.create, hsource, bind, Except.bind, pure,
        Except.pure, Except.ok.injEq] at hcreate
      subst hcreate
      exact Bool.false_ne_true

/-! ## The flag between calls -/

/-- Whatever is called on a new engine, one call after another, its flag is up
between two calls only if, of the last runs to finish or be broken off and the
last call to reset or restart the engine, a run that was broken off came last.
In particular it is down as long as no run is broken off.  It is really left up
by a broken run, unless whoever observed it took it down. -/
theorem flag_up_only_after_broken_run {start : Word}
    {settings : GrowthSettings} {entropy : Nat} {e : Engine G}
    (hcreate : Engine.create start settings entropy = .ok e)
    (calls : List (EngineCall G)) :
    let ended := (EngineCall.performAll e calls).1
    let endings := (EngineCall.performAll e calls).2
    (ended.progress.growing = true →
        CallEnding.last? endings = some .brokenOff) ∧
      (.brokenOff ∉ endings → ended.progress.growing = false) ∧
      ((∀ call ∈ calls, call.Calm) →
        CallEnding.last? endings = some .brokenOff →
          ended.progress.growing = true) := by
  intro ended endings
  have hdown := Engine.not_isGrowing_of_create hcreate
  obtain ⟨honly, hcalm⟩ := EngineCall.isGrowing_performAll hdown calls
  refine ⟨honly, ?_, hcalm⟩
  intro hunbroken
  rw [← Bool.not_eq_true]
  intro hflag
  have hlast := List.mem_of_getLast? (honly hflag)
  exact hunbroken (List.mem_of_mem_filter hlast)

/-- A rule is added, then a run is broken off after its first pass. -/
def EngineCall.brokenSample : List (EngineCall Pcg64) :=
  [.operate (.addRule (.ofWords [] ['A'] [] ['A', 'B'] 1.0)),
    .run 2
      { onPass := fun _ _ run => (run, some "boom")
        onProgress := fun _ run => (run, none) }
      false ()]

/-- The flag stays up after a broken run, also when its seed is then set, and
goes down with a run that finishes. -/
theorem flag_up_only_after_broken_run_sample :
    let broken := EngineCall.brokenSample ++ [.operate (.reseed 7)]
    let grown := broken ++ [.run 2 .idle false ()]
    Engine.create ['A'] Engine.dormant.settings 0 = .ok Engine.dormant ∧
      (EngineCall.performAll Engine.dormant broken).1.progress.growing = true ∧
      CallEnding.last? (EngineCall.performAll Engine.dormant grown).2 =
        some .settled ∧
      (EngineCall.performAll Engine.dormant grown).1.progress.growing =
        false := by
  intro broken grown
  have hcreate : Engine.create ['A'] Engine.dormant.settings 0 =
      .ok Engine.dormant := rfl
  have hcalm : ∀ call ∈ broken, call.Calm := by
    simp only [broken, EngineCall.brokenSample, EngineCall.Calm,
      Operation.Calm, List.cons_append, List.nil_append, List.forall_mem_cons]
    exact ⟨trivial, ⟨fun _ _ _ hflag => hflag, fun _ _ hflag => hflag⟩,
      trivial, by simp⟩
  have hbroken :
      CallEnding.last? (EngineCall.performAll Engine.dormant broken).2 =
        some .brokenOff := by decide +kernel
  have hgrown :
      CallEnding.last? (EngineCall.performAll Engine.dormant grown).2 =
        some .settled := by decide +kernel
  obtain ⟨_, _, hup⟩ := flag_up_only_after_broken_run hcreate broken
  obtain ⟨honly, _, _⟩ := flag_up_only_after_broken_run hcreate grown
  refine ⟨hcreate, hup hcalm hbroken, hgrown, ?_⟩
  rw [← Bool.not_eq_true]
  intro hflag
  have hlast := honly hflag
  rw [hgrown] at hlast
  cases hlast

/-- The flag of an engine may be up although no run is in progress. -/
theorem not_flag_down_between_calls :
    ¬∀ (start : Word) (settings : GrowthSettings) (entropy : Nat)
      (e : Engine Pcg64), Engine.create start settings entropy = .ok e →
        ∀ calls, (EngineCall.performAll e calls).1.progress.growing =
          false := by
  intro hdown
  have hfalse := hdown ['A'] Engine.dormant.settings 0 Engine.dormant rfl
    EngineCall.brokenSample
  have htrue : (EngineCall.performAll Engine.dormant
      EngineCall.brokenSample).1.progress.growing = true := by decide +kernel
  rw [htrue] at hfalse
  cases hfalse

end TreeGrowth
