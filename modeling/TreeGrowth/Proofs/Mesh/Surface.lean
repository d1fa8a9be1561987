import TreeGrowth.Proofs.Mesh.Detail
import TreeGrowth.Proofs.Mesh.Runs
import TreeGrowth.Proofs.Mesh.Strip

/-!
# The surface of a tree

The branches of a drawing are an oriented surface.  No edge belongs to two
triangles in the same direction, and every edge is met by its reverse, except
where the surface is open: at the ring with which a run of drawn segments
begins, and at the ring with which it ends.
-/

namespace TreeGrowth

variable {K : Type}

/-! ## Branches of a mesh -/

/-- The triangles of the branches, by the numbers of their vertices. -/
def Mesh.branchFaces (mesh : Mesh K) : List (Face Int) :=
  Face.ofIndices (mesh.branchSection.indices.toList.map Int32.toInt)

/-- The entry of an index buffer that stands for a vertex. -/
def RingVertex.entry {n : Nat} (v : RingVertex n) : Int := v.index

theorem RingVertex.entry_injective {n : Nat} [NeZero n] :
    Function.Injective (RingVertex.entry (n := n)) :=
  Nat.cast_injective.comp RingVertex.index_injective

theorem RingLayout.ofIndices_indices (layout : RingLayout K) (n : Nat)
    [NeZero n] :
    Face.ofIndices ((layout.indices n).map Int.ofNat) =
      (surface n layout.drawn).map (Face.map RingVertex.entry) := by
  have hthrees : ∀ pair : RingPair,
      3 ∣ (stripIndices (pair.start * n) (pair.finish * n) n).length := by
    intro pair
    rw [length_stripIndices]
    exact ⟨2 * n, by ring⟩
  rw [Face.ofIndices_map, RingLayout.indices, Face.ofIndices_flatMap hthrees,
    surface, List.map_flatMap, List.map_flatMap]
  simp only [RingPair.ofIndices_stripIndices, List.map_map]
  rfl

section Surface

variable [Trigonometric K]

/-- As long as the indices are words, the triangles of the branches are the
strips of the layout. -/
theorem Mesh.branchFaces_ofParts (config : GeometryConfig K)
    (segments : Array (Segment K)) (leaves : Array (Leaf K)) (n : Nat)
    [NeZero n] (includeLeaves : Bool)
    (hsize : (Mesh.ofParts config segments leaves n
      includeLeaves).1.branchVertices < 2 ^ 31) :
    (Mesh.ofParts config segments leaves n includeLeaves).1.branchFaces =
      (surface n (RingLayout.ofSegments config segments).drawn).map
        (Face.map RingVertex.entry) := by
  have hfollows := BranchSweep.follows_ofSegments config n segments
  have hsound := RingLayout.sound_ofSegments config segments
  have hjoins := Mesh.joins_ofParts config segments leaves n includeLeaves
  obtain ⟨hbranches, _⟩ := hjoins.sections_eq
    (BranchSweep.wellFormed_ofSegments config n segments)
  rw [Mesh.branchVertices_ofParts] at hsize
  rw [Mesh.branchFaces, hbranches, MeshDraft.toSection, hfollows.indices,
    List.map_map, ← RingLayout.ofIndices_indices]
  congr 1
  apply List.map_congr_left
  intro i hi
  have hlt := hsound.indices_lt hi
  exact Int32.toInt_ofNat_of_lt (by omega)

/-! ## The rim of a surface -/

/-- The edges along the ring with which a maximal run of drawn segments begins,
and along the ring with which one ends, each in the direction of its
triangle. -/
inductive Mesh.Rim (mesh : Mesh K) (segments : Array (Segment K)) :
    Int → Int → Prop
  | first {lo hi k : Nat} {pair : RingPair}
      (hrun : MaximalRun (IsDrawn segments) lo hi)
      (hpair : mesh.rings[lo]? = some (some pair)) (hk : k < mesh.ringSize) :
      Rim mesh segments (pair.start + (k + 1) % mesh.ringSize : Nat)
        (pair.start + k : Nat)
  | last {lo hi k : Nat} {pair : RingPair}
      (hrun : MaximalRun (IsDrawn segments) lo hi)
      (hpair : mesh.rings[hi]? = some (some pair)) (hk : k < mesh.ringSize) :
      Rim mesh segments (pair.finish + k : Nat)
        (pair.finish + (k + 1) % mesh.ringSize : Nat)

/-- The rim in a layout, before its rings have vertices of their own. -/
inductive RingLayout.Rim {n : Nat} [NeZero n] (layout : RingLayout K)
    (segments : Array (Segment K)) : RingVertex n → RingVertex n → Prop
  | first {lo hi : Nat} {pair : RingPair}
      (hrun : MaximalRun (IsDrawn segments) lo hi)
      (hpair : layout.pairs[lo]? = some (some pair)) (k : Fin n) :
      Rim layout segments (pair.start, k + 1) (pair.start, k)
  | last {lo hi : Nat} {pair : RingPair}
      (hrun : MaximalRun (IsDrawn segments) lo hi)
      (hpair : layout.pairs[hi]? = some (some pair)) (k : Fin n) :
      Rim layout segments (pair.finish, k) (pair.finish, k + 1)

variable {segments : Array (Segment K)} {n : Nat} [NeZero n]

theorem RingLayout.unmatched_edge_iff_rim (hn : 3 ≤ n)
    (config : GeometryConfig K) (hchained : Chained segments)
    {u v : RingVertex n} :
    let layout := RingLayout.ofSegments config segments
    ((u, v) ∈ edgesOf (surface n layout.drawn) ∧
        (v, u) ∉ edgesOf (surface n layout.drawn)) ↔
      layout.Rim segments u v := by
  intro layout
  have hsound : layout.Sound := RingLayout.sound_ofSegments config segments
  rw [unmatched_edge_iff hn fun pair hpair => (hsound pair hpair).1]
  constructor
  · rintro (⟨p, hp, halone, k, rfl, rfl⟩ | ⟨p, hp, halone, k, rfl, rfl⟩)
    · obtain ⟨lo, hi, hrun, hpair⟩ :=
        (RingLayout.starts_run_iff config hchained).mp ⟨hp, halone⟩
      exact .first hrun hpair k
    · obtain ⟨lo, hi, hrun, hpair⟩ :=
        (RingLayout.finishes_run_iff config hchained).mp ⟨hp, halone⟩
      exact .last hrun hpair k
  · intro hrim
    cases hrim with
    | first hrun hpair k =>
        obtain ⟨hp, halone⟩ := (RingLayout.starts_run_iff config hchained).mpr
          ⟨_, _, hrun, hpair⟩
        exact .inl ⟨_, hp, halone, k, rfl, rfl⟩
    | last hrun hpair k =>
        obtain ⟨hp, halone⟩ :=
          (RingLayout.finishes_run_iff config hchained).mpr
            ⟨_, _, hrun, hpair⟩
        exact .inr ⟨_, hp, halone, k, rfl, rfl⟩

variable {mesh : Mesh K} {layout : RingLayout K}

omit [Trigonometric K] [NeZero n] in
theorem Mesh.rings_getElem?_iff
    (hrings : mesh.rings = layout.pairs.map (Option.map (RingPair.scale n)))
    {i : Nat} {pair : RingPair} :
    mesh.rings[i]? = some (some pair) ↔
      ∃ p : RingPair, layout.pairs[i]? = some (some p) ∧ p.scale n = pair := by
  rw [hrings, Array.getElem?_map]
  cases layout.pairs[i]? with
  | none => simp
  | some pair? => cases pair? <;> simp

theorem Mesh.rim_iff (hsize : mesh.ringSize = n)
    (hrings : mesh.rings = layout.pairs.map (Option.map (RingPair.scale n)))
    {x y : Int} :
    mesh.Rim segments x y ↔
      ∃ u v : RingVertex n, layout.Rim segments u v ∧
        u.entry = x ∧ v.entry = y := by
  subst hsize
  constructor
  · intro hrim
    cases hrim with
    | @first lo hi k pair hrun hpair hk =>
        obtain ⟨p, hp, rfl⟩ := (Mesh.rings_getElem?_iff hrings).mp hpair
        refine ⟨_, _, .first hrun hp ⟨k, hk⟩, ?_, rfl⟩
        exact congrArg Nat.cast (RingVertex.index_add_one p.start ⟨k, hk⟩)
    | @last lo hi k pair hrun hpair hk =>
        obtain ⟨p, hp, rfl⟩ := (Mesh.rings_getElem?_iff hrings).mp hpair
        refine ⟨_, _, .last hrun hp ⟨k, hk⟩, rfl, ?_⟩
        exact congrArg Nat.cast (RingVertex.index_add_one p.finish ⟨k, hk⟩)
  · rintro ⟨u, v, hrim, rfl, rfl⟩
    cases hrim with
    | @first lo hi p hrun hp k =>
        have hpair := (Mesh.rings_getElem?_iff hrings).mpr ⟨p, hp, rfl⟩
        rw [RingVertex.entry, RingVertex.index_add_one]
        exact .first hrun hpair k.isLt
    | @last lo hi p hrun hp k =>
        have hpair := (Mesh.rings_getElem?_iff hrings).mpr ⟨p, hp, rfl⟩
        rw [RingVertex.entry, RingVertex.entry, RingVertex.index_add_one]
        exact .last hrun hpair k.isLt

/-! ## Oriented surfaces -/

/-- The drawn segments have rings, the triangles between them have three
corners, no edge belongs to two triangles in one direction, and just the edges
of the rim are met by no reverse. -/
structure Mesh.OrientedAlong (segments : Array (Segment K)) (mesh : Mesh K) :
    Prop where
  rings : ∀ i, (∃ pair, mesh.rings[i]? = some (some pair)) ↔
    IsDrawn segments i
  corners : ∀ face ∈ mesh.branchFaces, face.Distinct
  edges : (edgesOf mesh.branchFaces).Nodup
  rim : ∀ x y, ((x, y) ∈ edgesOf mesh.branchFaces ∧
    (y, x) ∉ edgesOf mesh.branchFaces) ↔ mesh.Rim segments x y

theorem Mesh.orientedAlong_ofParts (hn : 3 ≤ n) (hchained : Chained segments)
    (config : GeometryConfig K) (leaves : Array (Leaf K))
    (includeLeaves : Bool)
    (hsize : (Mesh.ofParts config segments leaves n
      includeLeaves).1.vertices.size < 2 ^ 31) :
    (Mesh.ofParts config segments leaves n includeLeaves).1.OrientedAlong
      segments := by
  have hjoins := Mesh.joins_ofParts config segments leaves n includeLeaves
  have hrings := Mesh.rings_ofParts config segments leaves n includeLeaves
  have hbranches : (Mesh.ofParts config segments leaves n
      includeLeaves).1.branchVertices < 2 ^ 31 := by
    rw [hjoins.size_vertices] at hsize
    rw [hjoins.branchVertices]
    exact (Nat.le_add_right _ _).trans_lt hsize
  have hfaces := Mesh.branchFaces_ofParts config segments leaves n
    includeLeaves hbranches
  have hlinked := RingLayout.linked_ofSegments config hchained
  have hlt : ∀ pair ∈ (RingLayout.ofSegments config segments).drawn,
      pair.start < pair.finish := fun pair hpair =>
    (RingLayout.sound_ofSegments config segments pair hpair).1
  constructor
  case rings =>
    intro i
    rw [← RingLayout.exists_pair_iff config segments i]
    simp only [Mesh.rings_getElem?_iff hrings]
    constructor
    · rintro ⟨_, p, hp, _⟩
      exact ⟨p, hp⟩
    · rintro ⟨p, hp⟩
      exact ⟨_, p, hp, rfl⟩
  all_goals rw [hfaces]
  case corners =>
    intro face hface
    obtain ⟨triangle, htriangle, rfl⟩ := List.mem_map.mp hface
    exact (distinct_of_mem_surface hn hlt htriangle).map
      RingVertex.entry_injective
  case edges =>
    rw [edgesOf_map]
    exact (nodup_edgesOf_surface hn hlt hlinked.pairwise_drawn).map
      (RingVertex.entry_injective.prodMap RingVertex.entry_injective)
  case rim =>
    intro x y
    rw [unmatched_edge_map_iff RingVertex.entry_injective,
      Mesh.rim_iff (n := n) rfl hrings]
    simp only [RingLayout.unmatched_edge_iff_rim hn config hchained]

/-! ## Surfaces of drawings -/

/-- The branches of every drawing are an oriented surface, whatever the word,
the parameters and the dice, and open just where a run of drawn segments begins
and where it ends. -/
theorem branch_surface_oriented {G : Type} [RandomSource G K]
    (c : TurtleConfig K) (source : G) (word : Word) (config : GeometryConfig K)
    (leaves : Array (Leaf K)) (requested : Int) (includeLeaves : Bool) :
    (c.WellShaped → ∃ drawing,
      (Walk.interpretFrom c source word).1 = .ok drawing) ∧
    ∀ drawing, (Walk.interpretFrom c source word).1 = .ok drawing →
      let mesh := (Mesh.ofParts config drawing.segments leaves
        (DetailLevel.ringSizeOf requested) includeLeaves).1
      mesh.vertices.size < 2 ^ 31 → mesh.OrientedAlong drawing.segments := by
  have hn : 3 ≤ DetailLevel.ringSizeOf requested :=
    le_clampNat (by decide) requested
  have : NeZero (DetailLevel.ringSizeOf requested) := ⟨by omega⟩
  constructor
  · intro hshape
    obtain ⟨w, hdraws⟩ := Walk.exists_draws hshape source word
    exact ⟨w.interpretation, by rw [hdraws.interpretFrom]⟩
  · intro drawing hdrawing mesh hsize
    obtain ⟨w, hdraws, rfl⟩ := Walk.exists_draws_of_interpretFrom hdrawing
    have hchained : Chained w.interpretation.segments :=
      hdraws.leavesChain.chained
    exact Mesh.orientedAlong_ofParts hn hchained config leaves includeLeaves
      hsize

/-- A trunk, a branch that ends, and after a step that draws nothing a segment
that goes on from the branch: a single run, open at both of its ends. -/
theorem branch_surface_oriented_sample :
    ∃ drawing : Interpretation Float,
      (Walk.interpretFrom .standard (Pcg64.ofEntropy 7)
        "F[F]fF".toList).1 = .ok drawing ∧
      let mesh := (Mesh.ofParts .standard drawing.segments #[Leaf.sample]
        (DetailLevel.ringSizeOf 1) true).1
      mesh.vertices.size < 2 ^ 31 ∧ (edgesOf mesh.branchFaces).Nodup ∧
        ((1, 0) ∈ edgesOf mesh.branchFaces ∧
          (0, 1) ∉ edgesOf mesh.branchFaces) ∧
        (9, 10) ∈ edgesOf mesh.branchFaces ∧
          (10, 9) ∉ edgesOf mesh.branchFaces := by
  obtain ⟨hexists, horiented⟩ := branch_surface_oriented (K := Float)
    .standard (Pcg64.ofEntropy 7) "F[F]fF".toList .standard #[Leaf.sample] 1
    true
  obtain ⟨drawing, hdrawing⟩ := hexists ⟨rfl, rfl, rfl⟩
  have hsize : (Mesh.ofParts .standard drawing.segments #[Leaf.sample]
      (DetailLevel.ringSizeOf 1) true).1.vertices.size < 2 ^ 31 := by
    obtain ⟨w, hdraws, rfl⟩ := Walk.exists_draws_of_interpretFrom hdrawing
    have hsegments : w.interpretation.segments.size ≤ 6 :=
      hdraws.leavesChain.size
    have hle := Mesh.size_vertices_ofParts_le .standard
      w.interpretation.segments #[Leaf.sample] (DetailLevel.ringSizeOf 1) true
    have hring : DetailLevel.ringSizeOf 1 = 3 := rfl
    have hleaf : (#[Leaf.sample] : Array (Leaf Float)).size = 1 := rfl
    rw [hring] at hle ⊢
    omega
  have hrings : (Mesh.ofParts .standard drawing.segments #[Leaf.sample]
      (DetailLevel.ringSizeOf 1) true).1.rings =
        #[some ⟨0, 3⟩, some ⟨3, 6⟩, some ⟨6, 9⟩] := by
    have hdrawn : ((Walk.interpretFrom .standard (Pcg64.ofEntropy 7)
        "F[F]fF".toList).1.map fun drawing : Interpretation Float =>
          (Mesh.ofParts .standard drawing.segments #[Leaf.sample]
            (DetailLevel.ringSizeOf 1) true).1.rings).toOption =
        some #[some ⟨0, 3⟩, some ⟨3, 6⟩, some ⟨6, 9⟩] := by
      decide +kernel
    rw [hdrawing] at hdrawn
    exact Option.some.inj hdrawn
  obtain ⟨hdrawn, _, hedges, hrim⟩ := horiented drawing hdrawing hsize
  rw [hrings] at hdrawn
  have hrun : MaximalRun (IsDrawn drawing.segments) 0 2 := by
    refine ⟨by decide, ?_, ?_, ?_⟩
    · intro i _ hi
      apply (hdrawn i).mp
      interval_cases i <;> exact ⟨_, rfl⟩
    · intro i hi
      omega
    · rw [← hdrawn 3]
      simp
  refine ⟨drawing, hdrawing, hsize, hedges, (hrim 1 0).mpr ?_,
    (hrim 9 10).mpr ?_⟩
  · exact .first (k := 0) hrun (by rw [hrings]; rfl) (Nat.zero_lt_succ 2)
  · exact .last (k := 0) hrun (by rw [hrings]; rfl) (Nat.zero_lt_succ 2)

end Surface

end TreeGrowth
