import TreeGrowth.Proofs.Rewriting.Classes
import TreeGrowth.Proofs.Tree.Stages

/-!
# Growth and the order of rules

Two runs whose rules have the same classes go on in step: they make the same
passes with the same draws, and an observer that does not look at the engine
sees no difference either.  So they come to the same result, and whatever is
drawn from it is the same tree.
-/

namespace TreeGrowth

variable {G σ : Type}

/-! ## Runs in step -/

/-- Two runs that differ in their engines alone. -/
structure Run.InStep (run run' : Run G σ) : Prop where
  cancelled : run.cancelled = run'.cancelled
  memory : run.memory = run'.memory

/-- The observer neither looks at the engine nor tells others what it holds. -/
structure Observer.Blind (observer : Observer G σ) : Prop where
  onPass : ∀ passes word {run run' : Run G σ}, run.InStep run' →
    (observer.onPass passes word run).1.InStep
        (observer.onPass passes word run').1 ∧
      (observer.onPass passes word run).2 =
        (observer.onPass passes word run').2
  onProgress : ∀ fraction {run run' : Run G σ}, run.InStep run' →
    (observer.onProgress fraction run).1.InStep
        (observer.onProgress fraction run').1 ∧
      (observer.onProgress fraction run).2 =
        (observer.onProgress fraction run').2

theorem Observer.idle_blind : (Observer.idle : Observer G σ).Blind :=
  ⟨fun _ _ _ _ hstep => ⟨hstep, rfl⟩, fun _ _ _ hstep => ⟨hstep, rfl⟩⟩

/-- Two engines that rewrite alike: they have the same start word, the same
settings, and rules of the same classes. -/
structure Engine.RewriteAlike (e e' : Engine G) : Prop where
  start : e.start = e'.start
  settings : e.settings = e'.settings
  classes : Rule.SameClasses e.rules e'.rules

structure Growth.InStep (g g' : Growth G σ) : Prop where
  word : g.word = g'.word
  passes : g.passes = g'.passes
  history : g.history = g'.history
  tally : g.tally = g'.tally
  source : g.source = g'.source
  run : g.run.InStep g'.run

variable {plan plan' : RunPlan} {observer : Observer G σ}
  {g g' : Growth G σ}

theorem Growth.InStep.withRun (hstep : g.InStep g') {run run' : Run G σ}
    (hrun : run.InStep run') :
    ({ g with run } : Growth G σ).InStep { g' with run := run' } :=
  ⟨hstep.word, hstep.passes, hstep.history, hstep.tally, hstep.source, hrun⟩

theorem Growth.InStep.notify (hblind : observer.Blind)
    (hpasses : plan.passes = plan'.passes) (hstep : g.InStep g') :
    (g.notify plan observer).1.InStep (g'.notify plan' observer).1 ∧
      (g.notify plan observer).2 = (g'.notify plan' observer).2 := by
  have htold :
      (observer.onPass g.passes g.word g.run).1.InStep
          (observer.onPass g'.passes g'.word g'.run).1 ∧
        (observer.onPass g.passes g.word g.run).2 =
          (observer.onPass g'.passes g'.word g'.run).2 := by
    rw [← hstep.passes, ← hstep.word]
    exact hblind.onPass _ _ hstep.run
  have hfraction : Float.ofNat g.passes / Float.ofNat plan.passes =
      Float.ofNat g'.passes / Float.ofNat plan'.passes := by
    rw [hstep.passes, hpasses]
  unfold Growth.notify
  rw [hfraction]
  generalize observer.onPass g.passes g.word g.run = told at htold
  generalize observer.onPass g'.passes g'.word g'.run = told' at htold
  obtain ⟨run, broken⟩ := told
  obtain ⟨run', broken'⟩ := told'
  obtain ⟨hrun, rfl⟩ : run.InStep run' ∧ broken = broken' := htold
  cases broken with
  | some message => exact ⟨hstep.withRun hrun, rfl⟩
  | none =>
      obtain ⟨hshown, hraised⟩ := hblind.onProgress _ hrun
      exact ⟨hstep.withRun hshown, hraised⟩

theorem Growth.InStep.finish (hsettings : plan.settings = plan'.settings)
    (hstep : g.InStep g') (requested : Int) (early : Option StopReason) :
    (g.finish plan requested early).1 = (g'.finish plan' requested early).1 ∧
      (g.finish plan requested early).2.InStep
        (g'.finish plan' requested early).2 := by
  simp only [Growth.finish, hsettings, hstep.word, hstep.passes,
    hstep.history, hstep.tally]
  refine ⟨trivial, ?_⟩
  split <;> exact ⟨hstep.run.cancelled, hstep.run.memory⟩

/-! ## Passes in step -/

variable [SeededSource G Float]

structure RunPlan.InStep (G : Type) [SeededSource G Float]
    (plan plan' : RunPlan) : Prop where
  start : plan.start = plan'.start
  settings : plan.settings = plan'.settings
  passes : plan.passes = plan'.passes
  rewrite : ∀ limit tally (source : G) word,
    rewritePass plan.table limit tally source word =
      rewritePass plan'.table limit tally source word

theorem Growth.InStep.rewrite (hplan : RunPlan.InStep G plan plan')
    (hstep : g.InStep g') :
    (g.rewrite plan).1.InStep (g'.rewrite plan').1 ∧
      (g.rewrite plan).2 = (g'.rewrite plan').2 := by
  have hpass := hplan.rewrite plan.settings.lengthLimit g.tally g.source g.word
  simp only [Growth.rewrite, ← hplan.settings, ← hplan.passes, ← hstep.word,
    ← hstep.tally, ← hstep.source, ← hstep.passes, ← hstep.history, ← hpass]
  exact ⟨⟨rfl, rfl, rfl, rfl, rfl, hstep.run.cancelled, hstep.run.memory⟩,
    trivial⟩

theorem Growth.InStep.step (hblind : observer.Blind)
    (hplan : RunPlan.InStep G plan plan') (hstep : g.InStep g') :
    (g.step plan observer).1.InStep (g'.step plan' observer).1 ∧
      (g.step plan observer).2 = (g'.step plan' observer).2 := by
  have hbefore : g.stopBefore? plan = g'.stopBefore? plan' := by
    simp only [Growth.stopBefore?, hstep.run.cancelled, hplan.settings,
      hstep.word]
  unfold Growth.step
  rw [hbefore]
  cases g'.stopBefore? plan' with
  | some reason => exact ⟨hstep, rfl⟩
  | none =>
      obtain ⟨hrewrite, htruncated⟩ := hstep.rewrite hplan
      obtain ⟨hnext, hraised⟩ := hrewrite.notify hblind hplan.passes
      simp only [htruncated]
      generalize (g.rewrite plan).1.notify plan observer = out
        at hnext hraised
      generalize (g'.rewrite plan').1.notify plan' observer = out'
        at hnext hraised
      obtain ⟨next, broken⟩ := out
      obtain ⟨next', broken'⟩ := out'
      obtain rfl : broken = broken' := hraised
      replace hnext : next.InStep next' := hnext
      cases broken with
      | some message => exact ⟨hnext, rfl⟩
      | none =>
          have hreported : ∀ severity severity' message message',
              (next.run.report severity message).InStep
                (next'.run.report severity' message') :=
            fun _ _ _ _ => ⟨hnext.run.cancelled, hnext.run.memory⟩
          have hsame : next.word = g.word ↔ next'.word = g'.word := by
            rw [hnext.word, hstep.word]
          by_cases hcut : (g'.rewrite plan').2 = true
          · simp only [if_pos hcut]
            exact ⟨hnext.withRun (hreported _ _ _ _), trivial⟩
          by_cases hfixed : next'.word = g'.word
          · simp only [if_neg hcut, if_pos hfixed, if_pos (hsame.mpr hfixed)]
            exact ⟨hnext.withRun (hreported _ _ _ _), trivial⟩
          · simp only [if_neg hcut, if_neg hfixed, if_neg (mt hsame.mp hfixed)]
            exact ⟨hnext, trivial⟩

theorem Growth.InStep.advance (hblind : observer.Blind)
    (hplan : RunPlan.InStep G plan plan') (hstep : g.InStep g') (left : Nat) :
    (g.advance plan observer left).1.InStep
        (g'.advance plan' observer left).1 ∧
      (g.advance plan observer left).2 =
        (g'.advance plan' observer left).2 := by
  induction left generalizing g g' with
  | zero => exact ⟨hstep, rfl⟩
  | succ left ih =>
      obtain ⟨hnext, hhalt⟩ := hstep.step hblind hplan
      rw [Growth.advance, Growth.advance]
      generalize g.step plan observer = out at hnext hhalt
      generalize g'.step plan' observer = out' at hnext hhalt
      obtain ⟨next, halt⟩ := out
      obtain ⟨next', halt'⟩ := out'
      obtain rfl : halt = halt' := hhalt
      cases halt with
      | none => exact ih hnext
      | some halt => exact ⟨hnext, rfl⟩

/-! ## Whole runs -/

theorem Engine.RewriteAlike.inStep {e e' : Engine G}
    (halike : e.RewriteAlike e') (requested : Int) :
    RunPlan.InStep G (RunPlan.ofEngine requested e)
      (RunPlan.ofEngine requested e') where
  start := halike.start
  settings := halike.settings
  passes := by simp only [RunPlan.ofEngine, halike.settings]
  rewrite _ _ _ _ := rewritePass_congr halike.classes _ _ _ _

theorem Run.InStep.generate {run run' : Run G σ} (hblind : observer.Blind)
    (hstep : run.InStep run') (halike : run.engine.RewriteAlike run'.engine)
    (hseed : 0 < run.engine.settings.seed) (requested : Int) :
    (run.generate requested observer).1 =
        (run'.generate requested observer).1 ∧
      (run.generate requested observer).2.InStep
        (run'.generate requested observer).2 := by
  have hfault : run.startFault? = run'.startFault? := by
    have hrules : run.engine.rules.isEmpty = run'.engine.rules.isEmpty := by
      rw [Bool.eq_iff_iff, List.isEmpty_iff, List.isEmpty_iff]
      exact halike.classes.eq_nil_iff
    simp only [Run.startFault?, halike.start, hrules]
  have hplan := halike.inStep requested
  have hseed' : 0 < run'.engine.settings.seed := halike.settings ▸ hseed
  have hsource : SeededSource.ofSeed (G := G) run.engine.entropy
      (RunPlan.ofEngine requested run.engine).settings.seed =
        .ok (SeededSource.ofEntropy run.engine.settings.seed.toNat) :=
    SeededSource.ofSeed_of_pos _ hseed
  have hsource' : SeededSource.ofSeed (G := G) run'.engine.entropy
      (RunPlan.ofEngine requested run'.engine).settings.seed =
        .ok (SeededSource.ofEntropy run.engine.settings.seed.toNat) := by
    rw [halike.settings]
    exact SeededSource.ofSeed_of_pos _ hseed'
  unfold Run.generate
  rw [hfault]
  cases run'.startFault? with
  | some fault => exact ⟨rfl, hstep.cancelled, hstep.memory⟩
  | none =>
      simp only [hsource, hsource']
      generalize (SeededSource.ofEntropy run.engine.settings.seed.toNat : G) =
        source
      have hbegin : (run.begin (RunPlan.ofEngine requested run.engine)
            source).InStep
          (run'.begin (RunPlan.ofEngine requested run'.engine) source) :=
        ⟨hplan.start, rfl,
          by simp only [Run.begin, hplan.start, hplan.settings],
          rfl, rfl, hstep.cancelled, hstep.memory⟩
      obtain ⟨hend, hhalt⟩ := hbegin.advance hblind hplan
        (RunPlan.ofEngine requested run.engine).passes
      rw [← hplan.passes]
      generalize (run.begin (RunPlan.ofEngine requested run.engine)
        source).advance (RunPlan.ofEngine requested run.engine) observer
        (RunPlan.ofEngine requested run.engine).passes = out at hend hhalt
      generalize (run'.begin (RunPlan.ofEngine requested run'.engine)
        source).advance (RunPlan.ofEngine requested run'.engine) observer
        (RunPlan.ofEngine requested run.engine).passes = out' at hend hhalt
      obtain ⟨g, halt⟩ := out
      obtain ⟨g', halt'⟩ := out'
      obtain rfl : halt = halt' := hhalt
      replace hend : g.InStep g' := hend
      rcases halt with _ | reason | message
      · obtain ⟨hresult, hrun⟩ := hend.finish hplan.settings requested none
        exact ⟨congrArg Except.ok hresult, hrun⟩
      · obtain ⟨hresult, hrun⟩ :=
          hend.finish hplan.settings requested (some reason)
        exact ⟨congrArg Except.ok hresult, hrun⟩
      · exact ⟨rfl, hend.run⟩

theorem Engine.exists_generate_eq_ok (e : Engine G)
    (hseed : 0 < e.settings.seed) (n : Int) :
    ∃ result, (e.generate n).1 = .ok result :=
  Run.exists_generate_eq_ok (⟨e, false, ()⟩ : Run G Unit) n
    Observer.not_raises_idle hseed.le

/-! ## Loading rules -/

omit [SeededSource G Float] in
theorem TreeRecipe.addRules_valid {rules : List (Rule Float)}
    (hvalid : ∀ r ∈ rules, r.isValid = true) (e : Engine G) :
    ∃ e', TreeRecipe.addRules (rules.map .rule) e = (e', none) ∧
      e'.rules = e.rules ++ rules ∧ e'.start = e.start ∧
      e'.settings = e.settings := by
  have hrule : ∀ r ∈ rules, (RecipeRule.rule r).accepted? = some r :=
    fun r hr => if_pos (hvalid r hr)
  have haccepted : ∀ rule ∈ rules.map RecipeRule.rule, rule.IsAccepted := by
    intro rule hmem
    obtain ⟨r, hr, rfl⟩ := List.mem_map.mp hmem
    exact ⟨r, hrule r hr⟩
  have hrules : (rules.map RecipeRule.rule).filterMap RecipeRule.accepted? =
      rules := by
    rw [List.filterMap_map]
    exact (List.filterMap_congr hrule).trans List.filterMap_some
  obtain ⟨journal, hadd⟩ := TreeRecipe.exists_addRules_eq haccepted e
  rw [hrules] at hadd
  exact ⟨_, hadd, rfl, rfl, rfl⟩

omit [SeededSource G Float] in
theorem Engine.exists_rewriteAlike {rules rules' : List (Rule Float)}
    (hvalid : ∀ r ∈ rules, r.isValid = true)
    (hvalid' : ∀ r ∈ rules', r.isValid = true)
    (hclasses : Rule.SameClasses rules rules') {e e' : Engine G}
    (hempty : e.rules = []) (hempty' : e'.rules = [])
    (hstart : e.start = e'.start) (hsettings : e.settings = e'.settings) :
    ∃ loaded loaded',
      TreeRecipe.addRules (rules.map .rule) e = (loaded, none) ∧
      TreeRecipe.addRules (rules'.map .rule) e' = (loaded', none) ∧
      loaded.RewriteAlike loaded' ∧ loaded.settings = e.settings := by
  obtain ⟨loaded, hadd, hrules, hstart₁, hsettings₁⟩ :=
    TreeRecipe.addRules_valid hvalid e
  obtain ⟨loaded', hadd', hrules', hstart₂, hsettings₂⟩ :=
    TreeRecipe.addRules_valid hvalid' e'
  refine ⟨loaded, loaded', hadd, hadd', ⟨?_, ?_, ?_⟩, hsettings₁⟩
  · rw [hstart₁, hstart₂, hstart]
  · rw [hsettings₁, hsettings₂, hsettings]
  · rw [hrules, hrules', hempty, hempty']
    exact hclasses

theorem Engine.generate_addRules_congr {rules rules' : List (Rule Float)}
    (hvalid : ∀ r ∈ rules, r.isValid = true)
    (hvalid' : ∀ r ∈ rules', r.isValid = true)
    (hclasses : Rule.SameClasses rules rules') {e e' : Engine G}
    (hempty : e.rules = []) (hempty' : e'.rules = [])
    (hstart : e.start = e'.start) (hsettings : e.settings = e'.settings)
    (hseed : 0 < e.settings.seed) (n : Int) :
    ((TreeRecipe.addRules (rules.map .rule) e).1.generate n).1 =
        ((TreeRecipe.addRules (rules'.map .rule) e').1.generate n).1 ∧
      ∃ result,
        ((TreeRecipe.addRules (rules.map .rule) e).1.generate n).1 =
          .ok result := by
  obtain ⟨loaded, loaded', hadd, hadd', halike, hloaded⟩ :=
    Engine.exists_rewriteAlike hvalid hvalid' hclasses hempty hempty' hstart
      hsettings
  have hpos : 0 < loaded.settings.seed := hloaded ▸ hseed
  have hstep : Run.InStep (⟨loaded, false, ()⟩ : Run G Unit)
      ⟨loaded', false, ()⟩ := ⟨rfl, rfl⟩
  rw [hadd, hadd']
  exact ⟨(hstep.generate Observer.idle_blind halike hpos n).1,
    loaded.exists_generate_eq_ok hpos n⟩

/-! ## Trees -/

theorem TreeRecipe.rewrite_inStep (recipe : TreeRecipe)
    (observer : TreeObserver σ) {e e' : Engine G}
    (halike : e.RewriteAlike e') (hseed : 0 < e.settings.seed) (memory : σ) :
    (recipe.rewrite observer e memory).1 =
        (recipe.rewrite observer e' memory).1 ∧
      (recipe.rewrite observer e memory).2.InStep
        (recipe.rewrite observer e' memory).2 := by
  have hstep : Run.InStep
      { engine := e, cancelled := observer.isCancelled memory, memory }
      { engine := e', cancelled := observer.isCancelled memory, memory } :=
    ⟨rfl, rfl⟩
  refine hstep.generate ⟨?_, ?_⟩ halike hseed recipe.passes
  · intro passes word run run' hstep
    simp only [hstep.memory]
    exact ⟨⟨rfl, rfl⟩, trivial⟩
  · intro fraction run run' hstep
    exact ⟨hstep, rfl⟩

theorem TreeRecipe.outcome_draw (recipe : TreeRecipe) (hseed : 0 < recipe.seed)
    (observer : TreeObserver σ) (result : RunResult) (entropy entropy' : Nat)
    (memory : σ) (journal journal' : Journal) :
    (recipe.draw G observer result entropy memory journal).outcome =
      (recipe.draw G observer result entropy' memory journal').outcome := by
  have hdrawing : Walk.interpret G entropy recipe.turtleConfig result.word =
      Walk.interpret G entropy' recipe.turtleConfig result.word := by
    have hpos : 0 < recipe.turtleConfig.seed := hseed
    simp only [Walk.interpret, SeededSource.ofSeed_of_pos _ hpos]
  unfold TreeRecipe.draw
  rw [hdrawing]
  simp only
  split <;> rfl

theorem TreeRecipe.outcome_grow_congr {rules rules' : List (Rule Float)}
    (hvalid : ∀ r ∈ rules, r.isValid = true)
    (hvalid' : ∀ r ∈ rules', r.isValid = true)
    (hclasses : Rule.SameClasses rules rules') (recipe : TreeRecipe)
    (hseed : 0 < recipe.seed) (observer : TreeObserver σ)
    (entropy entropy' : Nat) (memory : σ) :
    (({ recipe with rules := rules.map .rule } : TreeRecipe).grow G observer
        entropy memory).outcome =
      (({ recipe with rules := rules'.map .rule } : TreeRecipe).grow G
        observer entropy' memory).outcome := by
  obtain ⟨e, hcreate, hstart, hsettings, hrules⟩ :=
    Engine.exists_create (G := G) recipe.start
      { recipe.growth with seed := recipe.seed } entropy hseed.le
  obtain ⟨e', hcreate', hstart', hsettings', hrules'⟩ :=
    Engine.exists_create (G := G) recipe.start
      { recipe.growth with seed := recipe.seed } entropy' hseed.le
  obtain ⟨loaded, loaded', hadd, hadd', halike, hloaded⟩ :=
    Engine.exists_rewriteAlike hvalid hvalid' hclasses hrules hrules'
      (hstart.trans hstart'.symm) (hsettings.trans hsettings'.symm)
  have hpos : 0 < loaded.settings.seed := by
    rw [hloaded, hsettings]
    exact hseed
  -- The recipes differ in their rules alone, which the later steps do not use.
  have hrewrite : ∀ rules (e : Engine G) (memory : σ),
      ({ recipe with rules } : TreeRecipe).rewrite observer e memory =
        recipe.rewrite observer e memory := fun _ _ _ => rfl
  have hdraw : ∀ rules result entropy (memory : σ) journal,
      ({ recipe with rules } : TreeRecipe).draw G observer result entropy
          memory journal =
        recipe.draw G observer result entropy memory journal :=
    fun _ _ _ _ _ => rfl
  obtain ⟨hresult, hrun⟩ := recipe.rewrite_inStep observer halike hpos
    (observer.onStep 1 memory)
  unfold TreeRecipe.grow
  simp only [hcreate, hcreate', hadd, hadd', hrewrite, hdraw]
  generalize recipe.rewrite observer loaded (observer.onStep 1 memory) = out
    at hresult hrun
  generalize recipe.rewrite observer loaded' (observer.onStep 1 memory) = out'
    at hresult hrun
  obtain ⟨result, run⟩ := out
  obtain ⟨result', run'⟩ := out'
  obtain rfl : result = result' := hresult
  replace hrun : run.InStep run' := hrun
  cases result with
  | error fault => rfl
  | ok result =>
      by_cases hsucceeded : result.succeeded = true
      · simp only [if_pos hsucceeded, hrun.memory]
        exact recipe.outcome_draw hseed observer result _ _ _ _ _
      · simp only [if_neg hsucceeded]

/-- Growth depends on the order of rules within their classes alone.  Engines
that are loaded with lists of the same classes have the same results, with the
same words and statistics; so a list may be sorted by specificity first, and
the same tree grows from it. -/
theorem generate_eq_of_sameClasses {rules rules' : List (Rule Float)}
    (hvalid : ∀ r ∈ rules, r.isValid = true)
    (hvalid' : ∀ r ∈ rules', r.isValid = true)
    (hclasses : Rule.SameClasses rules rules') {e e' : Engine G}
    (hempty : e.rules = []) (hempty' : e'.rules = [])
    (hstart : e.start = e'.start) (hsettings : e.settings = e'.settings)
    (hseed : 0 < e.settings.seed) (n : Int) :
    let load (rules : List (Rule Float)) (e : Engine G) : Engine G :=
      (TreeRecipe.addRules (rules.map .rule) e).1
    let tree (rules : List (Rule Float)) (recipe : TreeRecipe)
        (observer : TreeObserver σ) (entropy : Nat) (memory : σ) :=
      (({ recipe with rules := rules.map .rule } : TreeRecipe).grow G observer
        entropy memory).outcome
    (∃ result, ((load rules e).generate n).1 = .ok result ∧
      ((load rules' e').generate n).1 = .ok result ∧
      ((load (Rule.sortBySpecificity rules) e').generate n).1 = .ok result) ∧
    ∀ recipe observer entropy entropy' memory, 0 < recipe.seed →
      tree rules recipe observer entropy memory =
          tree rules' recipe observer entropy' memory ∧
        tree (Rule.sortBySpecificity rules) recipe observer entropy memory =
          tree rules recipe observer entropy' memory := by
  intro load tree
  have hsorted := (Rule.sameClasses_sortBySpecificity rules).symm
  have hsortedValid : ∀ r ∈ Rule.sortBySpecificity rules, r.isValid = true :=
    fun r hr => hvalid r (hsorted.mem_iff.mpr hr)
  obtain ⟨hresult, result, hok⟩ := Engine.generate_addRules_congr hvalid
    hvalid' hclasses hempty hempty' hstart hsettings hseed n
  obtain ⟨hresultSorted, _⟩ := Engine.generate_addRules_congr hvalid
    hsortedValid hsorted hempty hempty' hstart hsettings hseed n
  refine ⟨⟨result, hok, hresult ▸ hok, hresultSorted ▸ hok⟩, ?_⟩
  intro recipe observer entropy entropy' memory hrecipe
  exact ⟨recipe.outcome_grow_congr hvalid hvalid' hclasses hrecipe observer
      entropy entropy' memory,
    recipe.outcome_grow_congr hsortedValid hvalid hsorted.symm hrecipe
      observer entropy entropy' memory⟩

theorem generate_eq_of_sameClasses_sample :
    let plain : Rule Float := .ofWords [] ['A'] [] ['A', 'B'] 0.5
    let other : Rule Float := .ofWords [] ['A'] [] ['A', 'A'] 0.5
    let behind : Rule Float := .ofWords ['A'] ['A'] [] ['C'] 1.0
    let e : Engine Pcg64 := { Engine.sample with rules := [] }
    let load (rules : List (Rule Float)) : Engine Pcg64 :=
      (TreeRecipe.addRules (rules.map .rule) e).1
    Rule.SameClasses [plain, behind, other] [behind, plain, other] ∧
      0 < e.settings.seed ∧
      (((load [plain, behind, other]).generate 3).1.map
        fun result => result.word).toOption = some ['A', 'A', 'B', 'C'] ∧
      ((load [plain, behind, other]).generate 3).1 =
        ((load [behind, plain, other]).generate 3).1 := by
  intro plain other behind e load
  have hvalid : ∀ r ∈ [plain, behind, other], r.isValid = true := by
    simp only [List.forall_mem_cons, List.not_mem_nil, IsEmpty.forall_iff,
      implies_true]
    decide +kernel
  have hvalid' : ∀ r ∈ [behind, plain, other], r.isValid = true := by
    intro r hr
    exact hvalid r (by simpa [or_left_comm] using hr)
  have hclasses :
      Rule.SameClasses [plain, behind, other] [behind, plain, other] := by
    intro predecessor specificity hle
    by_cases hsymbol : ['A'] = predecessor
    · subst hsymbol
      interval_cases specificity <;> rfl
    · simp [Rule.ofClass, plain, other, behind, Rule.ofWords, hsymbol]
  obtain ⟨⟨result, hplain, hmixed, _⟩, _⟩ :=
    generate_eq_of_sameClasses (σ := Unit) hvalid hvalid' hclasses
      (show e.rules = [] from rfl) (show e.rules = [] from rfl) rfl rfl
      (by decide) 3
  exact ⟨hclasses, by decide, by decide +kernel, hplain.trans hmixed.symm⟩

end TreeGrowth
