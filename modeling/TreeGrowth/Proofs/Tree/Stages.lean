import TreeGrowth.Proofs.Engine.Reachable
import TreeGrowth.Proofs.Growth.Memory
import TreeGrowth.Proofs.Growth.Return
import TreeGrowth.Proofs.RuleText.Spelling
import TreeGrowth.Tree

/-!
# The stages of a growth

A growth goes through its stages in order, and each of them can end it: the
seed may be refused, a rule may be refused, the rewriting may come to something
else than a success, and the drawing may get stuck.  These endings, and the
tree that is grown otherwise, are all that a recipe can come to.  They are told
apart by how many steps the observer has been told of.
-/

namespace TreeGrowth

variable {G σ : Type}

/-! ## Loading rules -/

/-- The rule that an engine takes in for one of a recipe, if it accepts it. -/
def RecipeRule.accepted? : RecipeRule → Option (Rule Float)
  | .rule r => if r.isValid then some r else none
  | .text t => (Rule.parse t).toOption

def RecipeRule.IsAccepted (rule : RecipeRule) : Prop :=
  ∃ r, rule.accepted? = some r

theorem Rule.isValid_of_parse {text : List Char} {r : Rule Float}
    (hparse : Rule.parse text = .ok r) : r.isValid = true := by
  obtain ⟨_, _, _, _, _, _, _, _, hfault⟩ := Rule.parse_eq_ok_iff.mp hparse
  exact Option.isNone_iff_eq_none.mpr hfault

theorem Engine.exists_addRule_eq (e : Engine G) {r : Rule Float}
    (hvalid : r.isValid = true) : ∃ journal,
      e.addRule r = ({ e with rules := e.rules ++ [r], journal }, true) := by
  have hfault : r.fault? = none := Option.isNone_iff_eq_none.mp hvalid
  simp only [Engine.addRule, hfault]
  exact ⟨_, rfl⟩

/-- An engine takes in just the accepted rules, each as it is. -/
theorem TreeRecipe.exists_addRule_eq (e : Engine G) (rule : RecipeRule) :
    ∃ journal, TreeRecipe.addRule e rule =
      ({ e with rules := e.rules ++ rule.accepted?.toList, journal },
        rule.accepted?.isSome) := by
  cases rule with
  | rule r =>
      by_cases hvalid : r.isValid = true
      · obtain ⟨journal, hadd⟩ := e.exists_addRule_eq hvalid
        refine ⟨journal, ?_⟩
        rw [TreeRecipe.addRule, hadd]
        simp [RecipeRule.accepted?, hvalid]
      · obtain ⟨fault, hfault⟩ := Option.ne_none_iff_exists'.mp
          (mt Option.isNone_iff_eq_none.mpr hvalid)
        simp only [TreeRecipe.addRule, Engine.addRule, hfault,
          RecipeRule.accepted?, if_neg hvalid, Option.toList_none,
          List.append_nil]
        exact ⟨_, rfl⟩
  | text t =>
      simp only [TreeRecipe.addRule, Engine.addRuleText,
        RecipeRule.accepted?]
      cases hparse : Rule.parse t with
      | ok r =>
          obtain ⟨journal, hadd⟩ :=
            e.exists_addRule_eq (Rule.isValid_of_parse hparse)
          exact ⟨journal, hadd⟩
      | error fault =>
          simp only [Except.toOption, Option.toList_none, List.append_nil]
          exact ⟨_, rfl⟩

theorem TreeRecipe.exists_addRules_eq {rules : List RecipeRule}
    (haccepted : ∀ rule ∈ rules, rule.IsAccepted) (e : Engine G) :
    ∃ journal, TreeRecipe.addRules rules e =
      ({ e with
          rules := e.rules ++ rules.filterMap RecipeRule.accepted?
          journal }, none) := by
  induction rules generalizing e with
  | nil => exact ⟨e.journal, by simp [TreeRecipe.addRules]⟩
  | cons rule rules ih =>
      obtain ⟨haccept, hrest⟩ := List.forall_mem_cons.mp haccepted
      obtain ⟨r, hr⟩ := haccept
      obtain ⟨journal, hadd⟩ := TreeRecipe.exists_addRule_eq e rule
      rw [hr] at hadd
      obtain ⟨journal', hadded⟩ := ih hrest
        { e with rules := e.rules ++ (some r).toList, journal }
      refine ⟨journal', ?_⟩
      simp only [TreeRecipe.addRules, hadd, Option.isSome_some, hadded,
        List.filterMap_cons, hr]
      simp

/-- An engine that is not loaded with all rules has refused one of them. -/
theorem TreeRecipe.exists_refused {rules : List RecipeRule}
    (hrefused : ¬∀ rule ∈ rules, rule.IsAccepted) (e : Engine G) :
    ∃ e', ∃ rule ∈ rules, ¬rule.IsAccepted ∧
      TreeRecipe.addRules rules e = (e', some rule) := by
  induction rules generalizing e with
  | nil => exact absurd (by simp) hrefused
  | cons rule rules ih =>
      obtain ⟨journal, hadd⟩ := TreeRecipe.exists_addRule_eq e rule
      simp only [TreeRecipe.addRules, hadd]
      cases hr : rule.accepted? with
      | none =>
          refine ⟨_, rule, List.mem_cons_self, ?_, rfl⟩
          rintro ⟨r, haccept⟩
          simp [hr] at haccept
      | some r =>
          have hlater : ¬∀ rule ∈ rules, rule.IsAccepted := fun hall =>
            hrefused (List.forall_mem_cons.mpr ⟨⟨r, hr⟩, hall⟩)
          obtain ⟨e', refused, hmem, hnot, hrest⟩ := ih hlater
            { e with rules := e.rules ++ (some r).toList, journal }
          exact ⟨e', refused, List.mem_cons_of_mem rule hmem, hnot, hrest⟩

/-! ## The engine of a recipe -/

variable [SeededSource G Float]

theorem Engine.Reachable.addRules {e : Engine G} (hreach : e.Reachable)
    (rules : List RecipeRule) :
    (TreeRecipe.addRules rules e).1.Reachable := by
  induction rules generalizing e with
  | nil => exact hreach
  | cons rule rules ih =>
      have hnext : (TreeRecipe.addRule e rule).1.Reachable := by
        cases rule with
        | rule r => exact hreach.ruleAdded r
        | text t => exact hreach.ruleTextAdded t
      rw [TreeRecipe.addRules]
      split
      next e' hadd =>
        rw [hadd] at hnext
        exact ih hnext
      next e' hadd =>
        rw [hadd] at hnext
        exact hnext

theorem Engine.create_of_neg (start : Word) (settings : GrowthSettings)
    (entropy : Nat) (hseed : settings.seed < 0) :
    (Engine.create start settings entropy : Except SeedError (Engine G)) =
      .error (.negative settings.seed) := by
  simp only [Engine.create, SeededSource.ofSeed_of_neg entropy hseed]
  rfl

theorem Engine.exists_create (start : Word) (settings : GrowthSettings)
    (entropy : Nat) (hseed : 0 ≤ settings.seed) :
    ∃ e : Engine G, Engine.create start settings entropy = .ok e ∧
      e.start = start ∧ e.settings = settings ∧ e.rules = [] := by
  obtain ⟨source, hsource⟩ :=
    SeededSource.exists_ofSeed (G := G) entropy hseed
  simp only [Engine.create, hsource]
  exact ⟨_, rfl, rfl, rfl, rfl⟩

namespace TreeRecipe

/-- The settings of the rewriting, with the seed of the recipe. -/
def settings (recipe : TreeRecipe) : GrowthSettings :=
  { recipe.growth with seed := recipe.seed }

variable (G) in
/-- The engine of a recipe, loaded with its rules up to the first that is
refused. -/
def engine (recipe : TreeRecipe) (entropy : Nat) :
    Except SeedError (Engine G) :=
  (Engine.create recipe.start recipe.settings entropy).map fun e =>
    (addRules recipe.rules e).1

variable {recipe : TreeRecipe}

theorem exists_engine (hseed : 0 ≤ recipe.seed) (entropy : Nat)
    (haccepted : ∀ rule ∈ recipe.rules, rule.IsAccepted) :
    ∃ created e : Engine G,
      Engine.create recipe.start recipe.settings entropy = .ok created ∧
        addRules recipe.rules created = (e, none) ∧
        recipe.engine G entropy = .ok e ∧ e.Reachable ∧
        e.start = recipe.start ∧ e.settings = recipe.settings ∧
        e.rules = recipe.rules.filterMap RecipeRule.accepted? := by
  obtain ⟨created, hcreate, hstart, hsettings, hrules⟩ :=
    Engine.exists_create (G := G) recipe.start recipe.settings entropy hseed
  obtain ⟨journal, hadd⟩ := exists_addRules_eq haccepted created
  have hreach := (Engine.Reachable.created hcreate).addRules recipe.rules
  rw [hadd] at hreach
  refine ⟨created, _, hcreate, hadd, ?_, hreach, hstart, hsettings, ?_⟩
  · simp only [engine, hcreate, Except.map, hadd]
  · simp only [hrules, List.nil_append]

end TreeRecipe

/-! ## Watching a growth -/

omit [SeededSource G Float] in
/-- What a run of the rewriting sees of the observer of a growth. -/
def TreeObserver.watch (observer : TreeObserver σ) : Observer G σ where
  onPass passes _ run :=
    let memory := observer.duringPass passes run.memory
    ({ run with memory, cancelled := observer.isCancelled memory }, none)
  onProgress _ run := (run, none)

omit [SeededSource G Float] in
theorem TreeObserver.not_raises_watch (observer : TreeObserver σ)
    (message : String) :
    ¬(observer.watch : Observer G σ).Raises message := by
  simp [Observer.Raises, TreeObserver.watch]

/-- The observer with the steps that it is told of beside its memory. -/
def TreeObserver.recording (observer : TreeObserver σ) :
    TreeObserver (List Nat × σ) where
  onStep step memory := (memory.1 ++ [step], observer.onStep step memory.2)
  duringPass passes memory :=
    (memory.1, observer.duringPass passes memory.2)
  isCancelled memory := observer.isCancelled memory.2

omit [SeededSource G Float] in
theorem TreeObserver.watch_maps (observer : TreeObserver σ)
    (steps : List Nat) :
    (observer.watch : Observer G σ).Maps (Prod.mk steps)
      observer.recording.watch where
  onPass _ _ _ := rfl
  onProgress _ _ := rfl

namespace TreeRecipe

variable (recipe : TreeRecipe)

/-- The rewriting neither tells of a step nor looks at the ones told. -/
theorem rewrite_recording (observer : TreeObserver σ) (e : Engine G)
    (steps : List Nat) (memory : σ) :
    recipe.rewrite observer.recording e (steps, memory) =
      (recipe.rewrite observer e memory).map id
        (Run.mapMemory (Prod.mk steps)) :=
  Run.generate_mapMemory (observer.watch_maps steps) recipe.passes
    { engine := e, cancelled := observer.isCancelled memory, memory }

theorem exists_rewrite_eq_ok {e : Engine G} (hseed : 0 ≤ e.settings.seed)
    (observer : TreeObserver σ) (memory : σ) :
    ∃ result, (recipe.rewrite observer e memory).1 = .ok result :=
  Run.exists_generate_eq_ok
    { engine := e, cancelled := observer.isCancelled memory, memory }
    recipe.passes observer.not_raises_watch hseed

variable (G) in
/-- The steps that the observer of a growth is told of. -/
def stepsTold (observer : TreeObserver σ) (entropy : Nat) (memory : σ) :
    List Nat :=
  (recipe.grow G observer.recording entropy ([], memory)).memory.1

variable (G) in
/-- What the rewriting of a recipe comes to. -/
def rewriting (observer : TreeObserver σ) (entropy : Nat) (memory : σ) :
    Except RunError RunResult :=
  match recipe.engine G entropy with
  | .error fault => .error (.seed fault)
  | .ok e => (recipe.rewrite observer e (observer.onStep 1 memory)).1

variable (G) in
/-- A drawing of the word as the recipe has it drawn. -/
def Draws (word : Word) (drawing : Except TurtleError (Interpretation Float)) :
    Prop :=
  ∃ entropy, (Walk.interpret G entropy recipe.turtleConfig word).1 = drawing

/-! ## Endings -/

variable (G) in
/-- All that a growth can come to, with the steps told until then. -/
inductive Ending (observer : TreeObserver σ) (entropy : Nat) (memory : σ) :
    Except TreeError Tree → List Nat → Prop
  | unseeded (hseed : recipe.seed < 0) :
      Ending observer entropy memory
        (.error (.run (.seed (.negative recipe.seed)))) []
  | refused (hseed : 0 ≤ recipe.seed) (rule : RecipeRule)
      (hrule : rule ∈ recipe.rules) (hrefused : ¬rule.IsAccepted) :
      Ending observer entropy memory
        (.ok { message := "Invalid rule: " ++ String.ofList rule.render }) []
  | stopped (hseed : 0 ≤ recipe.seed)
      (haccepted : ∀ rule ∈ recipe.rules, rule.IsAccepted)
      (result : RunResult)
      (hresult : recipe.rewriting G observer entropy memory = .ok result)
      (hstopped : result.status ≠ .success) :
      Ending observer entropy memory
        (.ok { message := stopMessage result, word := result.word,
               run := some result }) [1]
  | stuck (hseed : 0 ≤ recipe.seed)
      (haccepted : ∀ rule ∈ recipe.rules, rule.IsAccepted)
      (result : RunResult)
      (hresult : recipe.rewriting G observer entropy memory = .ok result)
      (hsuccess : result.status = .success) (fault : TurtleError)
      (hdrawing : recipe.Draws G result.word (.error fault)) :
      Ending observer entropy memory (.error (.turtle fault)) [1, 2]
  | grown (hseed : 0 ≤ recipe.seed)
      (haccepted : ∀ rule ∈ recipe.rules, rule.IsAccepted)
      (result : RunResult)
      (hresult : recipe.rewriting G observer entropy memory = .ok result)
      (hsuccess : result.status = .success) (drawing : Interpretation Float)
      (hdrawing : recipe.Draws G result.word (.ok drawing)) :
      Ending observer entropy memory
        (.ok { success := true, word := result.word, run := some result,
               interpretation := some drawing,
               meshes := (Mesh.ofLevels recipe.geometry drawing.segments
                 drawing.leaves recipe.levels).1 }) [1, 2, 3, 4]

theorem ending_draw (hseed : 0 ≤ recipe.seed)
    (haccepted : ∀ rule ∈ recipe.rules, rule.IsAccepted)
    (observer : TreeObserver σ) (entropy : Nat) (memory : σ)
    {result : RunResult}
    (hresult : recipe.rewriting G observer entropy memory = .ok result)
    (hsuccess : result.status = .success) (entropy' : Nat) (seen : σ)
    (journal journal' : Journal) :
    recipe.Ending G observer entropy memory
      (recipe.draw G observer result entropy' seen journal).outcome
      (recipe.draw G observer.recording result entropy' ([1, 2], seen)
        journal').memory.1 := by
  unfold draw
  cases hdrawing : Walk.interpret G entropy' recipe.turtleConfig
      result.word with
  | mk drawing notices =>
      have hdraws : recipe.Draws G result.word drawing :=
        ⟨entropy', congrArg Prod.fst hdrawing⟩
      cases drawing with
      | error fault =>
          exact .stuck hseed haccepted result hresult hsuccess fault hdraws
      | ok drawing =>
          exact .grown hseed haccepted result hresult hsuccess drawing hdraws

/-- Every growth comes to one of its endings. -/
theorem ending_grow (observer : TreeObserver σ) (entropy : Nat) (memory : σ) :
    recipe.Ending G observer entropy memory
      (recipe.grow G observer entropy memory).outcome
      (recipe.stepsTold G observer entropy memory) := by
  unfold stepsTold grow
  have hsettings : { recipe.growth with seed := recipe.seed } =
      recipe.settings := rfl
  rw [hsettings]
  by_cases hseed : recipe.seed < 0
  · have hrefused := Engine.create_of_neg (G := G) recipe.start
      recipe.settings entropy hseed
    simp only [hrefused]
    exact .unseeded hseed
  replace hseed : 0 ≤ recipe.seed := Int.not_lt.mp hseed
  by_cases haccepted : ∀ rule ∈ recipe.rules, rule.IsAccepted
  · obtain ⟨created, e, hcreate, hadd, hengine, _, _, hloaded, _⟩ :=
      exists_engine (G := G) hseed entropy haccepted
    have hseeded : 0 ≤ e.settings.seed := by
      rw [hloaded]
      exact hseed
    have hrewriting : recipe.rewriting G observer entropy memory =
        (recipe.rewrite observer e (observer.onStep 1 memory)).1 := by
      simp only [rewriting, hengine]
    have hrecording : recipe.rewrite observer.recording e
        (observer.recording.onStep 1 ([], memory)) = _ :=
      recipe.rewrite_recording observer e [1] (observer.onStep 1 memory)
    obtain ⟨result, hresult⟩ := recipe.exists_rewrite_eq_ok hseeded observer
      (observer.onStep 1 memory)
    rw [hresult] at hrewriting
    simp only [hcreate, hadd, hrecording]
    generalize recipe.rewrite observer e (observer.onStep 1 memory) = out
      at hresult
    obtain ⟨outcome, run⟩ := out
    obtain rfl : outcome = .ok result := hresult
    by_cases hsuccess : result.succeeded = true
    · simp only [Prod.map_apply, id_eq, if_pos hsuccess]
      exact recipe.ending_draw hseed haccepted observer entropy memory
        hrewriting (beq_iff_eq.mp hsuccess) run.engine.entropy _ _ _
    · simp only [Prod.map_apply, id_eq, if_neg hsuccess]
      exact .stopped hseed haccepted result hrewriting
        (mt beq_iff_eq.mpr hsuccess)
  · obtain ⟨created, hcreate, _⟩ :=
      Engine.exists_create (G := G) recipe.start recipe.settings entropy hseed
    obtain ⟨e, rule, hrule, hrefused, hadd⟩ := exists_refused haccepted created
    simp only [hcreate, hadd]
    exact .refused hseed rule hrule hrefused

end TreeRecipe

end TreeGrowth
