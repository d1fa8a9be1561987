import TreeGrowth.Mesh.Sweep
import Mathlib

/-!
# Drafts as parts of a mesh

A mesh is made of two drafts: the rings and strips that a sweep has drawn, and
the leaves put after them.  Leaves added to a draft come out as they would on
their own, with their triangles moved by the number of vertices before them; so
a mesh is the one draft followed by the other, and the two sections of a mesh
are the two drafts.
-/

namespace TreeGrowth

variable {K : Type}

attribute [ext] MeshDraft

/-! ## Growing buffers -/

theorem appendList_eq_append_toArray {α : Type} (xs : Array α) (block : List α) :
    xs.appendList block = xs ++ block.toArray :=
  Array.ext' (by simp)

namespace MeshDraft

variable (draft : MeshDraft K) (block : List (MeshVertex K))

@[simp] theorem vertices_addVertices :
    (draft.addVertices block).vertices =
      draft.vertices ++ (block.map fun v => v.position).toArray :=
  appendList_eq_append_toArray _ _

@[simp] theorem normals_addVertices :
    (draft.addVertices block).normals =
      draft.normals ++ (block.map fun v => v.normal).toArray :=
  appendList_eq_append_toArray _ _

@[simp] theorem uvs_addVertices :
    (draft.addVertices block).uvs =
      draft.uvs ++ (block.map fun v => v.uv).toArray :=
  appendList_eq_append_toArray _ _

@[simp] theorem colors_addVertices :
    (draft.addVertices block).colors =
      draft.colors ++ (block.map fun v => v.color).toArray :=
  appendList_eq_append_toArray _ _

@[simp] theorem indices_addVertices :
    (draft.addVertices block).indices = draft.indices := rfl

variable (triangles : List Nat)

@[simp] theorem vertices_addIndices :
    (draft.addIndices triangles).vertices = draft.vertices := rfl

@[simp] theorem normals_addIndices :
    (draft.addIndices triangles).normals = draft.normals := rfl

@[simp] theorem uvs_addIndices :
    (draft.addIndices triangles).uvs = draft.uvs := rfl

@[simp] theorem colors_addIndices :
    (draft.addIndices triangles).colors = draft.colors := rfl

@[simp] theorem indices_addIndices :
    (draft.addIndices triangles).indices =
      draft.indices ++ (triangles.map Int32.ofNat).toArray :=
  appendList_eq_append_toArray _ _

end MeshDraft

/-! ## One draft after another -/

/-- The second draft after the first, with triangles between its own vertices
where these now are. -/
def MeshDraft.append (d e : MeshDraft K) : MeshDraft K where
  vertices := d.vertices ++ e.vertices
  normals := d.normals ++ e.normals
  uvs := d.uvs ++ e.uvs
  colors := d.colors ++ e.colors
  indices := d.indices ++ e.indices.map (· + Int32.ofNat d.vertices.size)

theorem MeshDraft.append_empty (d : MeshDraft K) : d.append {} = d := by
  simp [MeshDraft.append]

theorem leafIndices_add (before first : Nat) :
    leafIndices (before + first) = (leafIndices first).map (before + ·) := by
  simp [leafIndices, Nat.add_assoc]

theorem leafIndices_lt {first size i : Nat} (hsize : first + 4 ≤ size)
    (hi : i ∈ leafIndices first) : i < size := by
  obtain ⟨corner, hcorner, rfl⟩ := List.mem_map.mp hi
  have hlt : ∀ corner ∈ [0, 1, 2, 0, 2, 3, 2, 1, 0, 3, 2, 0], corner < 4 := by
    decide
  have := hlt corner hcorner
  omega

section Leaves

variable [Trigonometric K] (config : GeometryConfig K)

theorem length_corners (leaf : Leaf K) : (leaf.corners config).length = 4 := rfl

theorem Mesh.addLeaf_append (d e : MeshDraft K) (leaf : Leaf K) :
    Mesh.addLeaf config (d.append e) leaf =
      d.append (Mesh.addLeaf config e leaf) := by
  apply MeshDraft.ext
  case indices =>
    simp [Mesh.addLeaf, MeshDraft.append, leafIndices_add, Int32.ofNat_add,
      Int32.add_comm, Function.comp_def]
  all_goals simp [Mesh.addLeaf, MeshDraft.append]

/-- The leaves of a mesh on their own. -/
def leafDraft (leaves : Array (Leaf K)) : MeshDraft K :=
  leaves.foldl (Mesh.addLeaf config) {}

theorem size_vertices_addLeaf (draft : MeshDraft K) (leaf : Leaf K) :
    (Mesh.addLeaf config draft leaf).vertices.size =
      draft.vertices.size + 4 := by
  simp [Mesh.addLeaf, length_corners]

theorem size_vertices_leafDraft (leaves : Array (Leaf K)) :
    (leafDraft config leaves).vertices.size = 4 * leaves.size := by
  apply Array.foldl_induction
    (fun i (draft : MeshDraft K) => draft.vertices.size = 4 * i)
  · rfl
  · intro i draft hsize
    rw [size_vertices_addLeaf, hsize]
    rfl

theorem foldl_addLeaf (d : MeshDraft K) (leaves : Array (Leaf K)) :
    leaves.foldl (Mesh.addLeaf config) d =
      d.append (leafDraft config leaves) := by
  have happend : ∀ (leaves : List (Leaf K)) (e : MeshDraft K),
      leaves.foldl (Mesh.addLeaf config) (d.append e) =
        d.append (leaves.foldl (Mesh.addLeaf config) e) := by
    intro leaves
    induction leaves with
    | nil => exact fun _ => rfl
    | cons leaf leaves ih =>
        intro e
        rw [List.foldl_cons, Mesh.addLeaf_append, ih]
        rfl
  simpa only [leafDraft, ← Array.foldl_toList, MeshDraft.append_empty] using
    happend leaves.toList {}

end Leaves

/-! ## Well-formed drafts -/

/-- Every vertex has all of its quantities, and the triangles are between
vertices of the draft. -/
structure MeshDraft.WellFormed (draft : MeshDraft K) : Prop where
  normals : draft.normals.size = draft.vertices.size
  uvs : draft.uvs.size = draft.vertices.size
  colors : draft.colors.size = draft.vertices.size
  triangles : 3 ∣ draft.indices.size
  indices : ∃ block : List Nat, draft.indices.toList = block.map Int32.ofNat ∧
    ∀ i ∈ block, i < draft.vertices.size

theorem MeshDraft.wellFormed_empty : ({} : MeshDraft K).WellFormed where
  normals := rfl
  uvs := rfl
  colors := rfl
  triangles := Nat.dvd_zero 3
  indices := ⟨[], rfl, by simp⟩

theorem MeshDraft.WellFormed.exists_index {draft : MeshDraft K}
    (hdraft : draft.WellFormed) {i : Int32} (hi : i ∈ draft.indices) :
    ∃ k < draft.vertices.size, Int32.ofNat k = i := by
  obtain ⟨block, hblock, hlt⟩ := hdraft.indices
  rw [← Array.mem_toList_iff, hblock] at hi
  obtain ⟨k, hk, rfl⟩ := List.mem_map.mp hi
  exact ⟨k, hlt k hk, rfl⟩

theorem MeshDraft.WellFormed.append {d e : MeshDraft K} (hd : d.WellFormed)
    (he : e.WellFormed) : (d.append e).WellFormed := by
  obtain ⟨hnormals, huvs, hcolors, htriangles, block, hblock, hlt⟩ := hd
  obtain ⟨hnormals', huvs', hcolors', htriangles', block', hblock', hlt'⟩ := he
  constructor
  · simp [MeshDraft.append, hnormals, hnormals']
  · simp [MeshDraft.append, huvs, huvs']
  · simp [MeshDraft.append, hcolors, hcolors']
  · simpa [MeshDraft.append] using Nat.dvd_add htriangles htriangles'
  · refine ⟨block ++ block'.map (· + d.vertices.size), ?_, ?_⟩
    · simp [MeshDraft.append, hblock, hblock', Int32.ofNat_add,
        Function.comp_def]
    · intro i hi
      rw [MeshDraft.append, Array.size_append]
      rcases List.mem_append.mp hi with hfirst | hsecond
      · exact Nat.lt_add_right _ (hlt i hfirst)
      · obtain ⟨j, hj, rfl⟩ := List.mem_map.mp hsecond
        have := hlt' j hj
        omega

theorem MeshDraft.WellFormed.addLeaf [Trigonometric K] {draft : MeshDraft K}
    (hdraft : draft.WellFormed) (config : GeometryConfig K) (leaf : Leaf K) :
    (Mesh.addLeaf config draft leaf).WellFormed := by
  obtain ⟨hnormals, huvs, hcolors, htriangles, block, hblock, hlt⟩ := hdraft
  constructor
  · simp [Mesh.addLeaf, hnormals]
  · simp [Mesh.addLeaf, huvs]
  · simp [Mesh.addLeaf, hcolors]
  · have hlength : (leafIndices draft.vertices.size).length = 12 := rfl
    simpa [Mesh.addLeaf, hlength] using
      Nat.dvd_add htriangles (show 3 ∣ 12 by decide)
  · refine ⟨block ++ leafIndices draft.vertices.size, ?_, ?_⟩
    · simp [Mesh.addLeaf, hblock]
    · intro i hi
      have hsize := size_vertices_addLeaf config draft leaf
      rcases List.mem_append.mp hi with hold | hnew
      · have := hlt i hold
        omega
      · exact leafIndices_lt hsize.ge hnew

theorem wellFormed_leafDraft [Trigonometric K] (config : GeometryConfig K)
    (leaves : Array (Leaf K)) : (leafDraft config leaves).WellFormed :=
  Array.foldl_induction (fun _ draft => MeshDraft.WellFormed draft)
    MeshDraft.wellFormed_empty fun _ _ hdraft => hdraft.addLeaf config _

end TreeGrowth
