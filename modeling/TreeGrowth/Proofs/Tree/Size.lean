import TreeGrowth.Proofs.Growth.Length
import TreeGrowth.Proofs.Mesh.Size
import TreeGrowth.Proofs.Tree.Outcome

/-!
# Sizes of grown trees

The word of a grown tree is within the limit or as long as its start word, a
symbol of it leaves at most one segment or leaf behind, and segments are drawn
in a chain.  So the length of the word bounds the vertices of every mesh, and
no word that comes from a start word of ordinary length is long enough for a
triangle to be stored as anything else than it is.
-/

namespace TreeGrowth

variable {G σ : Type} [SeededSource G Float]

namespace TreeRecipe

variable {recipe : TreeRecipe} {observer : TreeObserver σ} {entropy : Nat}
  {memory : σ}

theorem length_word_le (hseed : 0 ≤ recipe.seed)
    (haccepted : ∀ rule ∈ recipe.rules, rule.IsAccepted) {result : RunResult}
    (hresult : recipe.rewriting G observer entropy memory = .ok result)
    (hstatus : result.status ≠ .failure) :
    result.word.length ≤
      max recipe.growth.lengthLimit recipe.start.length := by
  obtain ⟨_, e, _, _, hengine, hreach, hstart, hsettings, _⟩ :=
    exists_engine (G := G) hseed entropy haccepted
  have hrules : ∀ r ∈ e.rules, r.successor ≠ [] := fun r hr =>
    Rule.successor_ne_nil (hreach.isValid_of_mem r hr)
  simp only [rewriting, hengine] at hresult
  obtain ⟨_, source, k, early, hk, _, rfl⟩ :=
    Run.exists_told_eq_of_status _ recipe.passes observer.watch hresult hstatus
  have hlength := RunPlan.length_stage_le e recipe.passes source hrules hk
  rw [hstart, hsettings] at hlength
  exact hlength

/-- The vertices of a mesh of a drawing against the length of its word. -/
theorem Draws.size_vertices_le {word : Word} {drawing : Interpretation Float}
    (hdrawing : recipe.Draws G word (.ok drawing))
    (config : GeometryConfig Float) (level : DetailLevel) :
    (Mesh.ofParts config drawing.segments drawing.leaves level.ringSize
      level.includeLeaves).1.vertices.size ≤ 32 * (word.length + 1) := by
  obtain ⟨entropy, hdrawn⟩ := hdrawing
  obtain ⟨source, w, hdraws, rfl⟩ := Walk.exists_draws_of_interpret hdrawn
  have hparts : w.interpretation.segments.size +
      w.interpretation.leaves.size ≤ word.length := hdraws.size_parts_le
  have hvertices := Mesh.size_vertices_le_of_chained config
    w.interpretation.leaves level.ringSize level.includeLeaves
    hdraws.leavesChain.chained
  have hring : (w.interpretation.segments.size + 1) * level.ringSize ≤
      (w.interpretation.segments.size + 1) * 32 :=
    Nat.mul_le_mul_left _ level.ringSize_le
  change _ ≤ (w.interpretation.segments.size + 1) * level.ringSize + _
    at hvertices
  exact hvertices.trans (by omega)

end TreeRecipe

/-- Every mesh of a grown tree has at most thirty-two vertices for each symbol
of the word, and thirty-two more.  So if the start word is no longer than the
greatest limit, the triangles of the mesh are computed without going beyond
32 bits, and they are stored unchanged. -/
theorem mesh_vertices_le_of_grow {recipe : TreeRecipe}
    {observer : TreeObserver σ} {entropy : Nat} {memory : σ} {tree : Tree}
    (htree : (recipe.grow G observer entropy memory).outcome = .ok tree)
    (hsuccess : tree.success = true) :
    ∀ mesh ∈ tree.meshes,
      mesh.vertices.size ≤ 32 * (tree.word.length + 1) ∧
        (recipe.start.length ≤ 10000000 →
          (∀ i ∈ mesh.computedIndices, i < 2 ^ 31) ∧
          mesh.indices.toList = mesh.computedIndices.map Int32.ofNat ∧
          mesh.indices.toList.map Int32.toInt =
            mesh.computedIndices.map Int.ofNat) := by
  have hending := recipe.ending_grow (G := G) observer entropy memory
  rw [htree] at hending
  generalize recipe.stepsTold G observer entropy memory = steps at hending
  cases hending with
  | refused => simp at hsuccess
  | stopped => simp at hsuccess
  | grown hseed haccepted result hresult hsucceeded drawing hdrawing =>
      have hlength := TreeRecipe.length_word_le hseed haccepted hresult
        (by simp [hsucceeded])
      intro mesh hmesh
      rw [Mesh.ofLevels_eq_map] at hmesh
      obtain ⟨level, _, rfl⟩ := List.mem_map.mp hmesh
      have hvertices := hdrawing.size_vertices_le recipe.geometry level
      refine ⟨hvertices, ?_⟩
      intro hstart
      have hlimit := recipe.growth.lengthLimit_le
      have hsize : (Mesh.ofParts recipe.geometry drawing.segments
          drawing.leaves level.ringSize
          level.includeLeaves).1.vertices.size < 2 ^ 31 := by
        omega
      refine ⟨?_, ?_, ?_⟩
      · intro i hi
        exact (Mesh.lt_of_mem_computedIndices _ _ _ _ _ hi).trans hsize
      · exact Mesh.indices_ofParts _ _ _ _ _
      · exact Mesh.toInt_indices_ofParts _ _ _ _ _ hsize

theorem mesh_vertices_le_of_grow_sample :
    ∃ tree, (TreeRecipe.sample.grow Pcg64 .idle 0 ()).outcome = .ok tree ∧
      tree.success = true ∧ TreeRecipe.sample.start.length ≤ 10000000 ∧
      tree.meshes.length = 3 ∧
      ∀ mesh ∈ tree.meshes, mesh.vertices.size ≤ 800 ∧
        ∀ i ∈ mesh.computedIndices, i < 2 ^ 31 := by
  have hgrown : ((TreeRecipe.sample.grow Pcg64 .idle 0 ()).outcome.map
      fun tree => (tree.success, tree.word.length,
        tree.meshes.length)).toOption = some (true, 24, 3) := by
    decide +kernel
  cases htree : (TreeRecipe.sample.grow Pcg64 .idle 0 ()).outcome with
  | error fault =>
      rw [htree] at hgrown
      simp [Except.map, Except.toOption] at hgrown
  | ok tree =>
      rw [htree] at hgrown
      simp only [Except.map, Except.toOption, Option.some.injEq,
        Prod.mk.injEq] at hgrown
      obtain ⟨hsuccess, hword, hmeshes⟩ := hgrown
      refine ⟨tree, rfl, hsuccess, by decide, hmeshes, ?_⟩
      intro mesh hmesh
      obtain ⟨hvertices, hindices⟩ :=
        mesh_vertices_le_of_grow htree hsuccess mesh hmesh
      rw [hword] at hvertices
      exact ⟨hvertices, (hindices (by decide)).1⟩

end TreeGrowth
