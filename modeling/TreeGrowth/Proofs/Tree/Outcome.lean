import TreeGrowth.Proofs.Mesh.Detail
import TreeGrowth.Proofs.Tree.Stages
import TreeGrowth.Proofs.Turtle.Encounter

/-!
# What a growth comes to

If its seed is not negative and its vectors have three coordinates, a growth
returns a tree.  The tree is grown just if all rules are accepted, there are a
start word and rules, and the rewriting is not cancelled; then it shows a
drawing of its word, swept once for each level of detail.  A tree that is not
grown shows nothing and says why.  A negative seed is the one thing that a
growth does not answer for with a tree.
-/

namespace TreeGrowth

variable {G σ : Type} [SeededSource G Float]

namespace TreeRecipe

variable {recipe : TreeRecipe} {observer : TreeObserver σ} {entropy : Nat}
  {memory : σ}

/-! ## The rewriting -/

omit [SeededSource G Float] in
theorem filterMap_accepted?_eq_nil_iff
    (haccepted : ∀ rule ∈ recipe.rules, rule.IsAccepted) :
    recipe.rules.filterMap RecipeRule.accepted? = [] ↔ recipe.rules = [] := by
  rw [List.filterMap_eq_nil_iff]
  constructor
  · intro hnone
    apply List.eq_nil_iff_forall_not_mem.mpr
    intro rule hrule
    obtain ⟨r, hr⟩ := haccepted rule hrule
    simp [hnone rule hrule] at hr
  · intro hempty
    simp [hempty]

/-- The rewriting of accepted rules fails just if there is no start word or no
rule. -/
theorem status_rewriting_eq_failure_iff (hseed : 0 ≤ recipe.seed)
    (haccepted : ∀ rule ∈ recipe.rules, rule.IsAccepted) {result : RunResult}
    (hresult : recipe.rewriting G observer entropy memory = .ok result) :
    result.status = .failure ↔ ¬(recipe.start ≠ [] ∧ recipe.rules ≠ []) := by
  obtain ⟨_, e, _, _, hengine, _, hstart, _, hrules⟩ :=
    exists_engine (G := G) hseed entropy haccepted
  simp only [rewriting, hengine] at hresult
  rw [Run.status_eq_failure_iff hresult, ne_eq, Run.startFault?_eq_none_iff,
    hstart, hrules, ne_eq, ne_eq,
    filterMap_accepted?_eq_nil_iff haccepted]

/-! ## Drawings -/

/-- A drawing with vectors of three coordinates does not get stuck. -/
theorem Draws.exists_eq_ok (hseed : 0 ≤ recipe.seed)
    (hshape : recipe.turtle.WellShaped) {word : Word}
    {drawing : Except TurtleError (Interpretation Float)}
    (hdrawing : recipe.Draws G word drawing) :
    ∃ drawn, drawing = .ok drawn := by
  obtain ⟨entropy, rfl⟩ := hdrawing
  have hshape' : recipe.turtleConfig.WellShaped :=
    ⟨hshape.initialForward, hshape.initialPosition, hshape.tropismDirection⟩
  obtain ⟨source, hsource⟩ := SeededSource.exists_ofSeed (G := G) entropy
    (show 0 ≤ recipe.turtleConfig.seed from hseed)
  obtain ⟨w, hdraws⟩ := Walk.exists_draws hshape' source word
  simp only [Walk.interpret, hsource, hdraws.interpretFrom]
  exact ⟨_, rfl⟩

theorem Draws.leafSize {word : Word} {drawing : Interpretation Float}
    (hdrawing : recipe.Draws G word (.ok drawing)) :
    ∀ leaf ∈ drawing.leaves, leaf.size = recipe.geometry.leafSize := by
  obtain ⟨entropy, hdrawn⟩ := hdrawing
  obtain ⟨source, w, hdraws, rfl⟩ := Walk.exists_draws_of_interpret hdrawn
  exact hdraws.leavesSized

end TreeRecipe

variable (G) in
/-- The tree shows a drawing of its word, and a mesh of the drawing for each
level of detail, or a single one of middle detail if there is no level. -/
structure Tree.Shows (recipe : TreeRecipe) (tree : Tree)
    (drawing : Interpretation Float) : Prop where
  interpretation : tree.interpretation = some drawing
  drawn : recipe.Draws G tree.word (.ok drawing)
  leafSize : ∀ leaf ∈ drawing.leaves, leaf.size = recipe.geometry.leafSize
  count : tree.meshes.length = max 1 recipe.levels.length
  single : recipe.levels = [] → tree.meshes =
    [(Mesh.ofParts recipe.geometry drawing.segments drawing.leaves 8 true).1]
  level : ∀ (i : Nat) (level : DetailLevel), recipe.levels[i]? = some level →
    tree.meshes[i]? = some (Mesh.ofParts recipe.geometry drawing.segments
      drawing.leaves level.ringSize level.includeLeaves).1

theorem Tree.shows_of_meshes_eq {recipe : TreeRecipe} {tree : Tree}
    {drawing : Interpretation Float}
    (hinterpretation : tree.interpretation = some drawing)
    (hdrawn : recipe.Draws G tree.word (.ok drawing))
    (hmeshes : tree.meshes = (Mesh.ofLevels recipe.geometry drawing.segments
      drawing.leaves recipe.levels).1) : tree.Shows G recipe drawing := by
  rw [Mesh.ofLevels_eq_map] at hmeshes
  refine ⟨hinterpretation, hdrawn, hdrawn.leafSize, ?_, ?_, ?_⟩
  · rw [hmeshes, List.length_map]
    split
    next hnone => simp [hnone]
    next hsome =>
      have hpositive := List.length_pos_of_ne_nil hsome
      omega
  · intro hnone
    rw [hmeshes, if_pos hnone]
    rfl
  · intro i level hlevel
    have hsome : recipe.levels ≠ [] := by
      rintro hnone
      simp [hnone] at hlevel
    rw [hmeshes, if_neg hsome, List.getElem?_map, hlevel]
    rfl

/-! ## Growths that return -/

/-- The tree is what a recipe asks for, after a rewriting and the steps told
to the observer. -/
structure Tree.Answers (G : Type) [SeededSource G Float] (recipe : TreeRecipe)
    (rewriting : Except RunError RunResult) (steps : List Nat) (tree : Tree) :
    Prop where
  /-- All rules have to be accepted, there has to be something to rewrite, and
  the rewriting must not be cancelled. -/
  success_iff : tree.success = true ↔
    (∀ rule ∈ recipe.rules, rule.IsAccepted) ∧
      recipe.start ≠ [] ∧ recipe.rules ≠ [] ∧
      ∃ result, rewriting = .ok result ∧ result.status ≠ .cancelled
  rewritten : (∀ rule ∈ recipe.rules, rule.IsAccepted) →
    ∃ result, rewriting = .ok result ∧ tree.run = some result ∧
      tree.word = result.word
  shown : tree.success = true → ∃ drawing, tree.Shows G recipe drawing
  bare : tree.success = false → tree.interpretation = none ∧ tree.meshes = []
  steps_prefix : steps <+: [1, 2, 3, 4]
  steps_eq_iff : steps = [1, 2, 3, 4] ↔ tree.success = true
  steps_eq_nil_iff : steps = [] ↔ ∃ rule ∈ recipe.rules, ¬rule.IsAccepted
  steps_eq_first : tree.success = false →
    (∀ rule ∈ recipe.rules, rule.IsAccepted) → steps = [1]

section Answers

variable {recipe : TreeRecipe} {rewriting : Except RunError RunResult}
  {tree : Tree}

theorem Tree.answers_of_refused {rule : RecipeRule}
    (hrule : rule ∈ recipe.rules) (hrefused : ¬rule.IsAccepted)
    (hfailed : tree.success = false) (hdrawing : tree.interpretation = none)
    (hmeshes : tree.meshes = []) : tree.Answers G recipe rewriting [] := by
  have hrules : ¬∀ rule ∈ recipe.rules, rule.IsAccepted :=
    fun hall => hrefused (hall rule hrule)
  constructor
  case success_iff => simp [hfailed, hrules]
  case rewritten => exact fun hall => absurd hall hrules
  case shown => simp [hfailed]
  case bare => exact fun _ => ⟨hdrawing, hmeshes⟩
  case steps_prefix => exact List.nil_prefix
  case steps_eq_iff => simp [hfailed]
  case steps_eq_nil_iff => exact iff_of_true rfl ⟨rule, hrule, hrefused⟩
  case steps_eq_first => exact fun _ hall => absurd hall hrules

variable {result : RunResult}
  (haccepted : ∀ rule ∈ recipe.rules, rule.IsAccepted)
  (hresult : rewriting = .ok result)
  (hfailure : result.status = .failure ↔
    ¬(recipe.start ≠ [] ∧ recipe.rules ≠ []))
  (hrun : tree.run = some result) (hword : tree.word = result.word)

include haccepted hresult hfailure hrun hword

/-- Once the rules are accepted, the status of the rewriting decides. -/
theorem Tree.answers_of_rewritten {steps : List Nat}
    (hsuccess : tree.success = true ↔ result.status = .success)
    (hshown : tree.success = true → ∃ drawing, tree.Shows G recipe drawing)
    (hbare : tree.success = false →
      tree.interpretation = none ∧ tree.meshes = [])
    (hsteps : steps = if tree.success then [1, 2, 3, 4] else [1]) :
    tree.Answers G recipe rewriting steps := by
  have hstatus : result.status = .success ↔
      (recipe.start ≠ [] ∧ recipe.rules ≠ []) ∧ result.status ≠ .cancelled := by
    rw [← not_iff_comm.mp hfailure.symm]
    cases result.status <;> simp
  constructor
  case success_iff =>
    rw [hsuccess, hstatus, and_assoc, and_iff_right haccepted, hresult]
    simp only [Except.ok.injEq, exists_eq_left']
  case rewritten => exact fun _ => ⟨result, hresult, hrun, hword⟩
  case shown => exact hshown
  case bare => exact hbare
  case steps_eq_nil_iff =>
    refine iff_of_false ?_ (by simpa using haccepted)
    rw [hsteps]
    split <;> simp
  all_goals
    rw [hsteps]
    cases tree.success <;> simp

end Answers

/-- A growth whose seed is not negative and whose vectors have three
coordinates returns a tree.  It succeeds just if all rules are accepted, there
are a start word and rules, and the rewriting is not cancelled.  A tree that is
grown shows a drawing of its word with leaves of the size that the geometry
asks for; any other shows nothing.  The steps told are all four for a tree that
is grown, none if a rule is refused, and otherwise the first one alone. -/
theorem grow_answers (recipe : TreeRecipe) (hseed : 0 ≤ recipe.seed)
    (hshape : recipe.turtle.WellShaped) (observer : TreeObserver σ)
    (entropy : Nat) (memory : σ) :
    ∃ tree, (recipe.grow G observer entropy memory).outcome = .ok tree ∧
      tree.Answers G recipe (recipe.rewriting G observer entropy memory)
        (recipe.stepsTold G observer entropy memory) := by
  have hending := recipe.ending_grow (G := G) observer entropy memory
  generalize (recipe.grow G observer entropy memory).outcome = outcome
    at hending ⊢
  generalize recipe.stepsTold G observer entropy memory = steps at hending ⊢
  cases hending with
  | unseeded hnegative => omega
  | refused _ rule hrule hrefused =>
      exact ⟨_, rfl, Tree.answers_of_refused hrule hrefused rfl rfl rfl⟩
  | stopped _ haccepted result hresult hstopped =>
      have hfailure :=
        TreeRecipe.status_rewriting_eq_failure_iff hseed haccepted hresult
      refine ⟨_, rfl, Tree.answers_of_rewritten haccepted hresult hfailure rfl
        rfl ?_ ?_ ?_ rfl⟩
      · simp [hstopped]
      · simp
      · exact fun _ => ⟨rfl, rfl⟩
  | stuck _ _ result _ _ fault hdrawing =>
      obtain ⟨drawn, hdrawn⟩ := hdrawing.exists_eq_ok hseed hshape
      simp at hdrawn
  | grown _ haccepted result hresult hsuccess drawing hdrawing =>
      have hfailure :=
        TreeRecipe.status_rewriting_eq_failure_iff hseed haccepted hresult
      refine ⟨_, rfl, Tree.answers_of_rewritten haccepted hresult hfailure rfl
        rfl ?_ ?_ ?_ rfl⟩
      · simp [hsuccess]
      · exact fun _ => ⟨drawing, Tree.shows_of_meshes_eq rfl hdrawing rfl⟩
      · simp

/-- The observer that takes note of nothing and never asks to cancel. -/
def TreeObserver.idle : TreeObserver Unit where
  onStep _ memory := memory
  duringPass _ memory := memory
  isCancelled _ := false

/-- The reference tree after a single pass. -/
def TreeRecipe.sample : TreeRecipe :=
  { passes := 1, seed := 7, growth := Engine.sample.settings }

theorem TreeRecipe.accepted_sample :
    ∀ rule ∈ TreeRecipe.sample.rules, rule.IsAccepted := by
  have hall : TreeRecipe.sample.rules.all
      (fun rule => rule.accepted?.isSome) = true := by decide +kernel
  intro rule hrule
  exact Option.isSome_iff_exists.mp (List.all_eq_true.mp hall rule hrule)

theorem TreeRecipe.status_rewriting_sample :
    ((TreeRecipe.sample.rewriting Pcg64 .idle 0 ()).map
      fun result => result.status).toOption = some .success := by
  decide +kernel

theorem grow_answers_sample :
    let recipe := TreeRecipe.sample
    0 ≤ recipe.seed ∧ recipe.turtle.WellShaped ∧
      recipe.stepsTold Pcg64 .idle 0 () = [1, 2, 3, 4] ∧
      ∃ tree, (recipe.grow Pcg64 .idle 0 ()).outcome = .ok tree ∧
        tree.success = true ∧ tree.meshes.length = 3 ∧
        ∃ drawing, tree.Shows Pcg64 recipe drawing := by
  intro recipe
  have hshape : recipe.turtle.WellShaped := ⟨rfl, rfl, rfl⟩
  obtain ⟨tree, htree, hanswers⟩ := grow_answers (G := Pcg64) recipe
    (by decide) hshape .idle 0 ()
  obtain ⟨result, hresult, _⟩ :=
    hanswers.rewritten TreeRecipe.accepted_sample
  have hstatus := TreeRecipe.status_rewriting_sample
  rw [hresult] at hstatus
  have hsucceeded : result.status = .success := Option.some.inj hstatus
  have hrunning : result.status ≠ .cancelled := by simp [hsucceeded]
  have hsuccess := hanswers.success_iff.mpr ⟨TreeRecipe.accepted_sample,
    by decide, List.cons_ne_nil _ _, result, hresult, hrunning⟩
  obtain ⟨drawing, hshows⟩ := hanswers.shown hsuccess
  exact ⟨by decide, hshape, hanswers.steps_eq_iff.mpr hsuccess, tree, htree,
    hsuccess, hshows.count, drawing, hshows⟩

/-! ## Growths that do not return -/

theorem TreeRecipe.stopMessage_ne_empty (result : RunResult) :
    TreeRecipe.stopMessage result ≠ "" := by
  unfold TreeRecipe.stopMessage
  split
  next => simp
  next hmessage => simpa using hmessage

/-- A growth whose vectors have three coordinates returns a tree unless its
seed is negative, and the tree has a message just if it is not grown.  A
negative seed is an error, before any step. -/
theorem grow_returns_unless_negative_seed (recipe : TreeRecipe)
    (hshape : recipe.turtle.WellShaped) (observer : TreeObserver σ)
    (entropy : Nat) (memory : σ) :
    (recipe.seed < 0 →
      (recipe.grow G observer entropy memory).outcome =
          .error (.run (.seed (.negative recipe.seed))) ∧
        recipe.stepsTold G observer entropy memory = []) ∧
    (0 ≤ recipe.seed → ∃ tree,
      (recipe.grow G observer entropy memory).outcome = .ok tree ∧
        (tree.message = "" ↔ tree.success = true)) := by
  have hending := recipe.ending_grow (G := G) observer entropy memory
  generalize (recipe.grow G observer entropy memory).outcome = outcome
    at hending ⊢
  generalize recipe.stepsTold G observer entropy memory = steps at hending ⊢
  cases hending with
  | unseeded hnegative => exact ⟨fun _ => ⟨rfl, rfl⟩, fun hseed => by omega⟩
  | refused hseed rule _ _ =>
      exact ⟨fun hnegative => by omega, fun _ => ⟨_, rfl, by simp⟩⟩
  | stopped hseed _ result _ _ =>
      refine ⟨fun hnegative => by omega, fun _ => ⟨_, rfl, ?_⟩⟩
      simp [TreeRecipe.stopMessage_ne_empty]
  | stuck hseed _ result _ _ fault hdrawing =>
      obtain ⟨drawn, hdrawn⟩ := hdrawing.exists_eq_ok hseed hshape
      simp at hdrawn
  | grown hseed _ _ _ _ _ _ =>
      exact ⟨fun hnegative => by omega, fun _ => ⟨_, rfl, by simp⟩⟩

theorem grow_returns_unless_negative_seed_sample :
    let recipe : TreeRecipe := { seed := -1 }
    recipe.turtle.WellShaped ∧ TreeRecipe.sample.turtle.WellShaped ∧
      (recipe.grow Pcg64 .idle 0 ()).outcome =
        .error (.run (.seed (.negative (-1)))) ∧
      ∃ tree, (TreeRecipe.sample.grow Pcg64 .idle 0 ()).outcome = .ok tree ∧
        (tree.message = "" ↔ tree.success = true) := by
  intro recipe
  have hshape : recipe.turtle.WellShaped := ⟨rfl, rfl, rfl⟩
  have hshape' : TreeRecipe.sample.turtle.WellShaped := ⟨rfl, rfl, rfl⟩
  obtain ⟨hraises, _⟩ := grow_returns_unless_negative_seed (G := Pcg64) recipe
    hshape .idle 0 ()
  obtain ⟨_, hreturns⟩ := grow_returns_unless_negative_seed (G := Pcg64)
    TreeRecipe.sample hshape' .idle 0 ()
  exact ⟨hshape, hshape', (hraises (by decide)).1, hreturns (by decide)⟩

/-- Not every growth returns a tree, even with the standard parameters. -/
theorem not_every_growth_returns :
    ¬∀ recipe : TreeRecipe, recipe.turtle.WellShaped → ∃ tree,
      (recipe.grow Pcg64 .idle 0 ()).outcome = .ok tree := by
  intro hreturns
  obtain ⟨tree, htree⟩ := hreturns { seed := -1 } ⟨rfl, rfl, rfl⟩
  have hraises :
      (({ seed := -1 } : TreeRecipe).grow Pcg64 .idle 0 ()).outcome =
        .error (.run (.seed (.negative (-1)))) := rfl
  rw [hraises] at htree
  simp at htree

end TreeGrowth
