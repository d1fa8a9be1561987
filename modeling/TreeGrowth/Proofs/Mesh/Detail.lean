import TreeGrowth.Proofs.Mesh.Sections

/-!
# Levels of detail

Meshes of one drawing at different levels of detail follow one layout.  They
draw the same segments, between the same rings, with the same texture
coordinates; only the number of vertices in a ring is another.  The leaves do
not depend on it at all.
-/

namespace TreeGrowth

variable {K : Type}

/-- A place among blocks of one length. -/
theorem getElem?_flatten_block {α : Type} {blocks : List (List α)} {n i : Nat}
    (hblocks : ∀ block ∈ blocks, block.length = n) (hi : i < n) (number : Nat) :
    blocks.flatten[number * n + i]? =
      blocks[number]?.bind fun block => block[i]? := by
  induction blocks generalizing number with
  | nil => simp
  | cons block blocks ih =>
      obtain ⟨hblock, hrest⟩ := List.forall_mem_cons.mp hblocks
      rw [List.flatten_cons]
      cases number with
      | zero =>
          rw [List.getElem?_append_left (by omega), Nat.zero_mul, Nat.zero_add]
          rfl
      | succ number =>
          rw [List.getElem?_append_right (by rw [Nat.succ_mul]; omega), hblock,
            List.getElem?_cons_succ, ← ih hrest number]
          congr 1
          rw [Nat.succ_mul]
          omega

theorem getElem?_flatMap_replicate {α : Type} (heights : List α) (ring : Nat)
    {n i : Nat} (hi : i < n) :
    (heights.flatMap (List.replicate n))[ring * n + i]? = heights[ring]? := by
  have hblocks : ∀ block ∈ heights.map (List.replicate n),
      block.length = n := by
    simp
  rw [List.flatMap_def, getElem?_flatten_block hblocks hi, List.getElem?_map]
  cases heights[ring]? <;> simp [hi]

theorem MeshDraft.HasRings.uv_snd {n : Nat} {heights : List K}
    {draft : MeshDraft K} (hrings : draft.HasRings n heights) (ring : Nat)
    {i : Nat} (hi : i < n) :
    (draft.uvs[ring * n + i]?).map Prod.snd = heights[ring]? := by
  rw [← getElem?_flatMap_replicate heights ring hi, ← hrings.uvs,
    List.getElem?_map, Array.getElem?_toList]

section Levels

variable [Trigonometric K] (config : GeometryConfig K)
  (segments : Array (Segment K)) (leaves : Array (Leaf K)) (n : Nat)
  (includeLeaves : Bool)

theorem Mesh.rings_ofParts :
    (Mesh.ofParts config segments leaves n includeLeaves).1.rings =
      (RingLayout.ofSegments config segments).pairs.map
        (Option.map (RingPair.scale n)) :=
  (BranchSweep.follows_ofSegments config n segments).rings

theorem Mesh.branchVertices_ofParts :
    (Mesh.ofParts config segments leaves n includeLeaves).1.branchVertices =
      (RingLayout.ofSegments config segments).heights.length * n :=
  (BranchSweep.follows_ofSegments config n segments).draft.vertices

theorem Mesh.branchTriangles_ofParts :
    (Mesh.ofParts config segments leaves n includeLeaves).1.branchTriangles =
      2 * n * (RingLayout.ofSegments config segments).drawn.length := by
  have hfollows := BranchSweep.follows_ofSegments config n segments
  have hjoins := Mesh.joins_ofParts config segments leaves n includeLeaves
  rw [hjoins.branchTriangles, ← Array.length_toList, hfollows.indices,
    List.length_map, RingLayout.length_indices]
  generalize (RingLayout.ofSegments config segments).drawn.length = count
  rw [show 6 * n * count = 3 * (2 * n * count) by ring]
  exact Nat.mul_div_cancel_left _ (by decide)

theorem Mesh.leafSection_ofParts :
    (Mesh.ofParts config segments leaves n includeLeaves).1.leafSection =
      (if includeLeaves then leafDraft config leaves else {}).toSection :=
  ((Mesh.joins_ofParts config segments leaves n includeLeaves).sections_eq
    (BranchSweep.wellFormed_ofSegments config n segments)).2

theorem Mesh.uv_snd_ofParts {ring : Nat} {height : K}
    (hheight :
      (RingLayout.ofSegments config segments).heights[ring]? = some height)
    {i : Nat} (hi : i < n) :
    ((Mesh.ofParts config segments leaves n
      includeLeaves).1.uvs[ring * n + i]?).map Prod.snd = some height := by
  have hdraft := (BranchSweep.follows_ofSegments config n segments).draft
  have hjoins := Mesh.joins_ofParts config segments leaves n includeLeaves
  have huv := hdraft.uv_snd ring hi
  rw [hheight] at huv
  obtain ⟨uv, hget, hsnd⟩ := Option.map_eq_some_iff.mp huv
  obtain ⟨hlt, _⟩ := Array.getElem?_eq_some_iff.mp hget
  rw [hjoins.uvs_eq, Array.getElem?_append_left hlt, hget, Option.map_some,
    hsnd]

/-- The meshes of levels are made one by one; without any level, there is one
of middle detail. -/
theorem Mesh.ofLevels_eq_map (levels : List DetailLevel) :
    (Mesh.ofLevels config segments leaves levels).1 =
      (if levels = [] then [{}] else levels).map fun level =>
        (Mesh.ofParts config segments leaves level.ringSize
          level.includeLeaves).1 := by
  unfold Mesh.ofLevels
  simp only [List.isEmpty_iff]
  split
  next => rfl
  next =>
    rw [List.map_map]
    change levels.zipIdx.map ((fun level : DetailLevel =>
      (Mesh.ofParts config segments leaves level.ringSize
        level.includeLeaves).1) ∘ Prod.fst) = _
    rw [← List.map_map, List.zipIdx_map_fst]

end Levels

/-- Meshes of the same segments and leaves with different numbers of vertices
around a branch share one layout: they draw the same segments, between the same
rings up to the size of a ring, with one texture coordinate for each ring, and
their leaves are identical.  So a smaller number makes smaller branches, unless
nothing is drawn. -/
theorem levels_share_layout [Trigonometric K] (config : GeometryConfig K)
    (segments : Array (Segment K)) (leaves : Array (Leaf K))
    (includeLeaves : Bool) (requested₁ requested₂ : Int) :
    let n₁ := DetailLevel.ringSizeOf requested₁
    let n₂ := DetailLevel.ringSizeOf requested₂
    let mesh₁ := (Mesh.ofParts config segments leaves n₁ includeLeaves).1
    let mesh₂ := (Mesh.ofParts config segments leaves n₂ includeLeaves).1
    ∃ pairs : Array (Option RingPair),
      mesh₁.rings = pairs.map (Option.map (RingPair.scale n₁)) ∧
      mesh₂.rings = pairs.map (Option.map (RingPair.scale n₂)) ∧
      (∀ pair : RingPair, some pair ∈ pairs →
        ∀ ring ∈ [pair.start, pair.finish], ∃ height,
          (∀ i < n₁, (mesh₁.uvs[ring * n₁ + i]?).map Prod.snd =
            some height) ∧
          ∀ i < n₂, (mesh₂.uvs[ring * n₂ + i]?).map Prod.snd =
            some height) ∧
      mesh₁.leafSection = mesh₂.leafSection ∧
      ((∃ pair : RingPair, some pair ∈ pairs) → n₁ < n₂ →
        mesh₁.branchVertices < mesh₂.branchVertices ∧
          mesh₁.branchTriangles < mesh₂.branchTriangles) := by
  intro n₁ n₂ mesh₁ mesh₂
  set layout := RingLayout.ofSegments config segments
  have hsound : layout.Sound := RingLayout.sound_ofSegments config segments
  have hdrawn : ∀ {pair : RingPair}, some pair ∈ layout.pairs →
      pair ∈ layout.drawn := by
    intro pair hpair
    exact RingLayout.mem_drawn_iff.mpr (Array.mem_iff_getElem?.mp hpair)
  refine ⟨layout.pairs,
    Mesh.rings_ofParts config segments leaves n₁ includeLeaves,
    Mesh.rings_ofParts config segments leaves n₂ includeLeaves, ?_, ?_, ?_⟩
  · intro pair hpair ring hring
    obtain ⟨hlt, hfinish⟩ := hsound pair (hdrawn hpair)
    have hin : ring < layout.heights.length := by
      simp only [List.mem_cons, List.not_mem_nil, or_false] at hring
      omega
    have hheight : layout.heights[ring]? = some layout.heights[ring] :=
      List.getElem?_eq_getElem hin
    refine ⟨layout.heights[ring], ?_, ?_⟩
    · intro i hi
      exact Mesh.uv_snd_ofParts config segments leaves n₁ includeLeaves hheight
        hi
    · intro i hi
      exact Mesh.uv_snd_ofParts config segments leaves n₂ includeLeaves hheight
        hi
  · exact (Mesh.leafSection_ofParts config segments leaves n₁
      includeLeaves).trans (Mesh.leafSection_ofParts config segments leaves n₂
        includeLeaves).symm
  · rintro ⟨pair, hpair⟩ hlt
    have hmem := hdrawn hpair
    have hrings : 0 < layout.heights.length := by
      have := (hsound pair hmem).2
      omega
    have hcount : 0 < layout.drawn.length := List.length_pos_of_mem hmem
    constructor
    · rw [Mesh.branchVertices_ofParts, Mesh.branchVertices_ofParts]
      exact Nat.mul_lt_mul_of_pos_left hlt hrings
    · rw [Mesh.branchTriangles_ofParts, Mesh.branchTriangles_ofParts]
      exact Nat.mul_lt_mul_of_pos_right
        (Nat.mul_lt_mul_of_pos_left hlt (by decide)) hcount

theorem levels_share_layout_sample :
    let coarse := (Mesh.ofParts .standard #[Segment.sample, Segment.sample]
      #[Leaf.sample] (DetailLevel.ringSizeOf 1) true).1
    let fine := (Mesh.ofParts .standard #[Segment.sample, Segment.sample]
      #[Leaf.sample] (DetailLevel.ringSizeOf 8) true).1
    coarse.rings = #[some ⟨0, 3⟩, some ⟨3, 6⟩] ∧
      coarse.leafSection = fine.leafSection ∧
      coarse.branchVertices < fine.branchVertices ∧
      coarse.branchTriangles < fine.branchTriangles := by
  intro coarse fine
  have hrings : coarse.rings = #[some ⟨0, 3⟩, some ⟨3, 6⟩] := by
    decide +kernel
  obtain ⟨pairs, hpairs, _, _, hleaves, hsmaller⟩ := levels_share_layout
    .standard #[Segment.sample, Segment.sample] #[Leaf.sample] true 1 8
  have hdrawn : ∃ pair : RingPair, some pair ∈ pairs := by
    have hfirst : some ⟨0, 3⟩ ∈ coarse.rings := by simp [hrings]
    rw [hpairs] at hfirst
    obtain ⟨pair?, hpair, hscale⟩ := Array.mem_map.mp hfirst
    obtain ⟨pair, rfl, _⟩ := Option.map_eq_some_iff.mp hscale
    exact ⟨pair, hpair⟩
  exact ⟨hrings, hleaves, hsmaller hdrawn (by decide)⟩

end TreeGrowth
