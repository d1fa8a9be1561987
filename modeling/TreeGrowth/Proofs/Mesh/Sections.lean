import TreeGrowth.Proofs.Mesh.Layout

/-!
# The sections of a mesh

A mesh is cut at two marks that are taken in the middle of its making: the
number of its vertices and of its triangles after the branches.  Whatever the
segments and their parents are, both sections have triangles between their own
vertices only, and put one after the other they are the mesh again.
-/

namespace TreeGrowth

variable {K : Type}

/-! ## Sections -/

/-- The buffers of a section fit together: every vertex has all of its
quantities, the indices come in threes, and each is one of the section's own
vertices. -/
structure MeshSection.WellFormed (s : MeshSection K) : Prop where
  normals : s.normals.size = s.vertices.size
  tangents : s.tangents.size = s.vertices.size
  uvs : s.uvs.size = s.vertices.size
  colors : s.colors.size = s.vertices.size
  triangles : 3 ∣ s.indices.size
  indices : ∀ i ∈ s.indices, 0 ≤ i.toInt ∧ i.toInt < s.vertices.size

theorem stripIndices_lt {start finish n size i : Nat}
    (hstart : start + n ≤ size) (hfinish : finish + n ≤ size)
    (hi : i ∈ stripIndices start finish n) : i < size := by
  obtain ⟨j, hj, hi⟩ := List.mem_flatMap.mp hi
  have hlt : j < n := List.mem_range.mp hj
  have hnext : (j + 1) % n < n := Nat.mod_lt _ (by omega)
  simp only [List.mem_cons, List.not_mem_nil, or_false] at hi
  omega

theorem length_stripIndices (start finish n : Nat) :
    (stripIndices start finish n).length = 6 * n := by
  simp [stripIndices, List.length_flatMap, Nat.mul_comm]

theorem RingLayout.length_indices (layout : RingLayout K) (n : Nat) :
    (layout.indices n).length = 6 * n * layout.drawn.length := by
  simp [RingLayout.indices, List.length_flatMap, length_stripIndices,
    Nat.mul_comm]

theorem RingLayout.Sound.indices_lt {layout : RingLayout K}
    (hsound : layout.Sound) {n i : Nat} (hi : i ∈ layout.indices n) :
    i < layout.heights.length * n := by
  obtain ⟨pair, hpair, hi⟩ := List.mem_flatMap.mp hi
  obtain ⟨hlt, hfinish⟩ := hsound pair hpair
  have hstart : pair.start * n + n ≤ layout.heights.length * n := by
    rw [← Nat.succ_mul]
    exact Nat.mul_le_mul_right n (by omega)
  have hend : pair.finish * n + n ≤ layout.heights.length * n := by
    rw [← Nat.succ_mul]
    exact Nat.mul_le_mul_right n hfinish
  exact stripIndices_lt hstart hend hi

theorem BranchSweep.Follows.wellFormed {n : Nat} {layout : RingLayout K}
    {sweep : BranchSweep K} (hfollows : sweep.Follows n layout)
    (hsound : layout.Sound) : sweep.draft.WellFormed := by
  have hsize := hfollows.draft.vertices
  constructor
  · rw [hfollows.draft.normals, hsize]
  · rw [hfollows.draft.size_uvs, hsize]
  · rw [hfollows.draft.colors, hsize]
  · rw [← Array.length_toList, hfollows.indices, List.length_map,
      RingLayout.length_indices]
    exact ⟨2 * n * layout.drawn.length, by ring⟩
  · refine ⟨_, hfollows.indices, ?_⟩
    intro i hi
    rw [hsize]
    exact hsound.indices_lt hi

section Sections

variable [Trigonometric K]

/-- A draft on its own, with the tangents of its normals. -/
def MeshDraft.toSection (draft : MeshDraft K) : MeshSection K where
  vertices := draft.vertices
  normals := draft.normals
  tangents := draft.normals.map Vec3.tangent
  uvs := draft.uvs
  colors := draft.colors
  indices := draft.indices

theorem MeshDraft.WellFormed.toSection {draft : MeshDraft K}
    (hdraft : draft.WellFormed) (hsize : draft.vertices.size < 2 ^ 31) :
    draft.toSection.WellFormed := by
  refine ⟨hdraft.normals, by simpa [MeshDraft.toSection] using hdraft.normals,
    hdraft.uvs, hdraft.colors, hdraft.triangles, ?_⟩
  intro i hi
  obtain ⟨k, hk, rfl⟩ := hdraft.exists_index hi
  rw [Int32.toInt_ofNat_of_lt (by omega)]
  exact ⟨Int.natCast_nonneg k, Int.ofNat_lt.mpr hk⟩

omit [Trigonometric K] in
theorem MeshDraft.WellFormed.moved_indices {draft : MeshDraft K}
    (hdraft : draft.WellFormed) {before : Nat}
    (hsize : before + draft.vertices.size < 2 ^ 31) {i : Int32}
    (hi : i ∈ draft.indices.map (· + Int32.ofNat before)) :
    before ≤ i.toInt ∧ i.toInt < (before + draft.vertices.size : Nat) := by
  obtain ⟨j, hj, rfl⟩ := Array.mem_map.mp hi
  obtain ⟨k, hk, rfl⟩ := hdraft.exists_index hj
  rw [← Int32.ofNat_add, Int32.toInt_ofNat_of_lt (by omega)]
  omega

/-- The mesh has the first draft for its branches and the second for its
leaves. -/
structure Mesh.Joins (mesh : Mesh K) (branches leaves : MeshDraft K) :
    Prop where
  joined : mesh.toMeshSection = (branches.append leaves).toSection
  branchVertices : mesh.branchVertices = branches.vertices.size
  branchTriangles : mesh.branchTriangles = branches.indices.size / 3

section Joins

variable {mesh : Mesh K} {branches leaves : MeshDraft K}

theorem Mesh.Joins.vertices_eq (hjoins : mesh.Joins branches leaves) :
    mesh.vertices = branches.vertices ++ leaves.vertices :=
  congrArg MeshSection.vertices hjoins.joined

theorem Mesh.Joins.normals_eq (hjoins : mesh.Joins branches leaves) :
    mesh.normals = branches.normals ++ leaves.normals :=
  congrArg MeshSection.normals hjoins.joined

theorem Mesh.Joins.tangents_eq (hjoins : mesh.Joins branches leaves) :
    mesh.tangents = mesh.normals.map Vec3.tangent := by
  rw [hjoins.normals_eq]
  exact congrArg MeshSection.tangents hjoins.joined

theorem Mesh.Joins.uvs_eq (hjoins : mesh.Joins branches leaves) :
    mesh.uvs = branches.uvs ++ leaves.uvs :=
  congrArg MeshSection.uvs hjoins.joined

theorem Mesh.Joins.size_vertices (hjoins : mesh.Joins branches leaves) :
    mesh.vertices.size = branches.vertices.size + leaves.vertices.size := by
  rw [hjoins.vertices_eq, Array.size_append]

end Joins

theorem Mesh.joins_ofParts (config : GeometryConfig K)
    (segments : Array (Segment K)) (leaves : Array (Leaf K)) (n : Nat)
    (includeLeaves : Bool) :
    (Mesh.ofParts config segments leaves n includeLeaves).1.Joins
      (BranchSweep.ofSegments config n segments).draft
      (if includeLeaves then leafDraft config leaves else {}) := by
  refine ⟨?_, rfl, rfl⟩
  cases includeLeaves with
  | false =>
      rw [if_neg Bool.false_ne_true, MeshDraft.append_empty]
      rfl
  | true =>
      rw [if_pos rfl, ← foldl_addLeaf]
      rfl

omit [Trigonometric K] in
theorem extract_append_fst {α : Type} {xs ys : Array α} {mark : Nat}
    (hmark : xs.size = mark) : (xs ++ ys).extract 0 mark = xs := by
  simp [← hmark]

omit [Trigonometric K] in
theorem extract_append_snd {α : Type} {xs ys : Array α} {mark : Nat}
    (hmark : xs.size = mark) :
    (xs ++ ys).extract mark (xs ++ ys).size = ys := by
  simp [← hmark]

variable {mesh : Mesh K} {branches leaves : MeshDraft K}

theorem Mesh.Joins.sections_eq (hjoins : mesh.Joins branches leaves)
    (hbranches : branches.WellFormed) :
    mesh.branchSection = branches.toSection ∧
      mesh.leafSection = leaves.toSection := by
  obtain ⟨hjoined, hvertices, htriangles⟩ := hjoins
  obtain ⟨hnormals, huvs, hcolors, hthrees, _⟩ := hbranches
  have htangents : (branches.normals.map Vec3.tangent).size =
      branches.vertices.size := by simpa using hnormals
  have hmark : 3 * mesh.branchTriangles = branches.indices.size := by
    rw [htriangles, Nat.mul_div_cancel' hthrees]
  rw [Mesh.branchSection, Mesh.leafSection, hjoined, hmark, hvertices]
  simp only [MeshDraft.toSection, MeshDraft.append, Array.map_append]
  constructor
  · rw [extract_append_fst rfl, extract_append_fst hnormals,
      extract_append_fst htangents, extract_append_fst huvs,
      extract_append_fst hcolors, extract_append_fst rfl]
  · rw [extract_append_snd rfl, extract_append_snd hnormals,
      extract_append_snd htangents, extract_append_snd huvs,
      extract_append_snd hcolors, extract_append_snd rfl]
    simp [Function.comp_def, Int32.add_sub_cancel]

/-! ## Every mesh -/

theorem BranchSweep.wellFormed_ofSegments (config : GeometryConfig K) (n : Nat)
    (segments : Array (Segment K)) :
    (BranchSweep.ofSegments config n segments).draft.WellFormed :=
  (BranchSweep.follows_ofSegments config n segments).wellFormed
    (RingLayout.sound_ofSegments config segments)

theorem wellFormed_shownLeaves (config : GeometryConfig K)
    (leaves : Array (Leaf K)) (includeLeaves : Bool) :
    (if includeLeaves then leafDraft config leaves else {}).WellFormed := by
  cases includeLeaves with
  | false => exact MeshDraft.wellFormed_empty
  | true => exact wellFormed_leafDraft config leaves

theorem size_vertices_shownLeaves_le (config : GeometryConfig K)
    (leaves : Array (Leaf K)) (includeLeaves : Bool) :
    (if includeLeaves then leafDraft config leaves else {}).vertices.size ≤
      4 * leaves.size := by
  cases includeLeaves with
  | false => exact Nat.zero_le _
  | true => exact (size_vertices_leafDraft config leaves).le

theorem Mesh.size_vertices_ofParts_le (config : GeometryConfig K)
    (segments : Array (Segment K)) (leaves : Array (Leaf K)) (n : Nat)
    (includeLeaves : Bool) :
    (Mesh.ofParts config segments leaves n includeLeaves).1.vertices.size ≤
      2 * segments.size * n + 4 * leaves.size := by
  have hjoins := Mesh.joins_ofParts config segments leaves n includeLeaves
  have hrings := (BranchSweep.follows_ofSegments config n segments).draft
  have hle := RingLayout.length_heights_ofSegments_le config segments
  rw [hjoins.size_vertices, hrings.vertices]
  exact Nat.add_le_add (Nat.mul_le_mul_right n hle)
    (size_vertices_shownLeaves_le config leaves includeLeaves)

/-- A mesh of any segments and leaves is well-formed.  Its first triangles, as
many as there are for the branches, are between the vertices of the branches,
and all others between those of the leaves.  The sections of the mesh are
well-formed on their own, and one after the other, with the triangles of the
leaves moved back, they are the mesh again. -/
theorem mesh_wellFormed_and_sections_rejoin (config : GeometryConfig K)
    (segments : Array (Segment K)) (leaves : Array (Leaf K)) (n : Nat)
    (includeLeaves : Bool)
    (hsize : (Mesh.ofParts config segments leaves n
      includeLeaves).1.vertices.size < 2 ^ 31) :
    let mesh := (Mesh.ofParts config segments leaves n includeLeaves).1
    let branches := mesh.branchSection
    let leafage := mesh.leafSection
    mesh.toMeshSection.WellFormed ∧
      mesh.branchVertices ≤ mesh.vertices.size ∧
      3 * mesh.branchTriangles ≤ mesh.indices.size ∧
      (∀ i ∈ mesh.indices.toList.take (3 * mesh.branchTriangles),
        0 ≤ i.toInt ∧ i.toInt < mesh.branchVertices) ∧
      (∀ i ∈ mesh.indices.toList.drop (3 * mesh.branchTriangles),
        mesh.branchVertices ≤ i.toInt ∧ i.toInt < mesh.vertices.size) ∧
      branches.WellFormed ∧ leafage.WellFormed ∧
      mesh.vertices = branches.vertices ++ leafage.vertices ∧
      mesh.normals = branches.normals ++ leafage.normals ∧
      mesh.tangents = branches.tangents ++ leafage.tangents ∧
      mesh.uvs = branches.uvs ++ leafage.uvs ∧
      mesh.colors = branches.colors ++ leafage.colors ∧
      mesh.indices = branches.indices ++
        leafage.indices.map (· + Int32.ofNat mesh.branchVertices) := by
  intro mesh branches leafage
  have hjoins := Mesh.joins_ofParts config segments leaves n includeLeaves
  have hdrawn := BranchSweep.wellFormed_ofSegments config n segments
  have hshown := wellFormed_shownLeaves config leaves includeLeaves
  set drawn := (BranchSweep.ofSegments config n segments).draft
  set shown := if includeLeaves then leafDraft config leaves else {}
  obtain ⟨hbranches, hleafage⟩ := hjoins.sections_eq hdrawn
  change branches = drawn.toSection at hbranches
  change leafage = shown.toSection at hleafage
  change mesh.Joins drawn shown at hjoins
  change mesh.vertices.size < 2 ^ 31 at hsize
  have hsum := hjoins.size_vertices
  obtain ⟨hjoined, hvertices, htriangles⟩ := hjoins
  have hmark : 3 * mesh.branchTriangles = drawn.indices.size := by
    rw [htriangles, Nat.mul_div_cancel' hdrawn.triangles]
  have hindices : mesh.indices = drawn.indices ++
      shown.indices.map (· + Int32.ofNat drawn.vertices.size) := by
    rw [hjoined]
    rfl
  rw [hbranches, hleafage, hmark, hvertices, hsum, hindices]
  refine ⟨?_, Nat.le_add_right _ _, ?_, ?_, ?_,
    hdrawn.toSection (by omega), hshown.toSection (by omega), ?_⟩
  · rw [hjoined]
    exact (hdrawn.append hshown).toSection (by
      rw [MeshDraft.append, Array.size_append]
      omega)
  · rw [Array.size_append]
    exact Nat.le_add_right _ _
  · intro i hi
    rw [Array.toList_append, ← Array.length_toList, List.take_left] at hi
    exact (hdrawn.toSection (by omega)).indices i (Array.mem_toList_iff.mp hi)
  · intro i hi
    rw [Array.toList_append, ← Array.length_toList, List.drop_left] at hi
    exact hshown.moved_indices (by omega) (Array.mem_toList_iff.mp hi)
  · rw [hjoined]
    exact ⟨rfl, rfl, Array.map_append, rfl, rfl, rfl⟩

/-- A leaf that points up, at a place of its own. -/
def Leaf.sample : Leaf Float where
  position := ⟨0.0, 0.0, 20.0⟩
  normal := Vec3.upAxis
  up := Vec3.sideAxis
  size := (1.0, 2.0)
  rotation := 15.0
  depth := 0

/-- A segment that names itself for its parent. -/
def Segment.sample : Segment Float where
  startPosition := Vec3.zero
  endPosition := ⟨0.0, 0.0, 20.0⟩
  startRadius := 2.0
  endRadius := 1.0
  direction := Vec3.upAxis
  depth := 0
  parent := some 0

theorem mesh_wellFormed_and_sections_rejoin_sample :
    let mesh := (Mesh.ofParts .standard #[Segment.sample, Segment.sample]
      #[Leaf.sample] 8 true).1
    mesh.vertices.size < 2 ^ 31 ∧ mesh.toMeshSection.WellFormed ∧
      mesh.leafSection.WellFormed ∧
      mesh.vertices = mesh.branchSection.vertices ++
        mesh.leafSection.vertices := by
  intro mesh
  have hsize : mesh.vertices.size < 2 ^ 31 :=
    (Mesh.size_vertices_ofParts_le _ _ _ _ _).trans_lt (by decide)
  obtain ⟨hmesh, _, _, _, _, _, hleafage, hvertices, _⟩ :=
    mesh_wellFormed_and_sections_rejoin .standard
      #[Segment.sample, Segment.sample] #[Leaf.sample] 8 true hsize
  exact ⟨hsize, hmesh, hleafage, hvertices⟩

end Sections

end TreeGrowth
