import TreeGrowth.Proofs.Mesh.Detail
import TreeGrowth.Proofs.Mesh.Runs

/-!
# Sizes of meshes

Along a chain of segments a drawn segment adds one ring, or two if the segment
before it is passed over.  That one adds none, so it pays for the other, and
there is never more than one ring beyond the number of segments.  As long as
the vertices of a mesh can be counted in 32 bits, its triangles are stored as
they are computed.
-/

namespace TreeGrowth

variable {K : Type}

/-! ## Rings along a chain -/

namespace RingLayout

variable {layout : RingLayout K}

/-- The rings of the last segment, if it is drawn. -/
def last? (layout : RingLayout K) : Option RingPair := layout.pairs.back?.join

/-- There are no more rings than segments, except for one ring in which the
last segment ends. -/
def Frugal (layout : RingLayout K) : Prop :=
  layout.heights.length ≤ layout.pairs.size + layout.last?.toList.length

theorem last?_push (layout : RingLayout K) (heights : List K)
    (pair? : Option RingPair) (v : K) :
    last? { heights, pairs := layout.pairs.push pair?, v } = pair? := by
  simp [last?]

theorem length_last?_le (layout : RingLayout K) :
    layout.last?.toList.length ≤ 1 := by
  cases layout.last? <;> simp

/-- The next segment of a chain begins where the last one ends. -/
theorem startRing_eq {segment : Segment K}
    (hparent : segment.parent = if layout.pairs.size = 0 then none
      else some ((layout.pairs.size - 1 : Nat) : Int)) :
    segment.parent.bind layout.endRing? = layout.last?.map RingPair.finish := by
  rw [hparent, last?, Array.back?]
  by_cases hsize : layout.pairs.size = 0
  · simp [hsize]
  · rw [if_neg hsize, Option.bind_some, endRing?, if_neg (by omega),
      Int.toNat_natCast, Array.getD_eq_getD_getElem?]
    cases layout.pairs[layout.pairs.size - 1]? with
    | none => rfl
    | some pair? => rfl

variable [Trigonometric K]

theorem Frugal.addSegment (hfrugal : layout.Frugal) (config : GeometryConfig K)
    {segment : Segment K}
    (hparent : segment.parent = if layout.pairs.size = 0 then none
      else some ((layout.pairs.size - 1 : Nat) : Int)) :
    (layout.addSegment config segment).Frugal := by
  have hone := layout.length_last?_le
  unfold Frugal at hfrugal
  unfold RingLayout.addSegment
  rw [startRing_eq hparent]
  split
  next =>
    simp only [Frugal, last?_push, Array.size_push, Option.toList_none,
      List.length_nil]
    omega
  next =>
    cases hlast : layout.last? with
    | some pair =>
        simp only [hlast, Option.toList_some, List.length_singleton]
          at hfrugal
        simp only [Option.map_some, Frugal, last?_push, Array.size_push,
          List.length_append, Option.toList_some, List.length_singleton]
        omega
    | none =>
        -- The segment before adds no ring, so that two are paid for.
        simp only [hlast, Option.toList_none, List.length_nil] at hfrugal
        simp only [Option.map_none, Frugal, last?_push, Array.size_push,
          List.length_append, Option.toList_some, List.length_cons,
          List.length_nil]
        omega

theorem length_heights_le_of_chained (config : GeometryConfig K)
    {segments : Array (Segment K)} (hchained : Chained segments) :
    (ofSegments config segments).heights.length ≤ segments.size + 1 := by
  have hall : (ofSegments config segments).pairs.size = segments.size ∧
      (ofSegments config segments).Frugal := by
    apply Array.foldl_induction (fun i (layout : RingLayout K) =>
      layout.pairs.size = i ∧ layout.Frugal)
    · exact ⟨rfl, Nat.zero_le _⟩
    · rintro i layout ⟨hsize, hfrugal⟩
      refine ⟨by rw [size_pairs_addSegment, hsize], ?_⟩
      apply hfrugal.addSegment config
      rw [hsize]
      exact hchained i i.isLt
  obtain ⟨hsize, hfrugal⟩ := hall
  have hone := (ofSegments config segments).length_last?_le
  unfold Frugal at hfrugal
  omega

end RingLayout

/-! ## Vertices -/

section Meshes

variable [Trigonometric K] (config : GeometryConfig K)
  (segments : Array (Segment K)) (leaves : Array (Leaf K)) (n : Nat)
  (includeLeaves : Bool)

theorem Mesh.size_vertices_le_of_chained {segments : Array (Segment K)}
    (hchained : Chained segments) :
    (Mesh.ofParts config segments leaves n includeLeaves).1.vertices.size ≤
      (segments.size + 1) * n + 4 * leaves.size := by
  have hjoins := Mesh.joins_ofParts config segments leaves n includeLeaves
  have hrings := (BranchSweep.follows_ofSegments config n segments).draft
  have hle := RingLayout.length_heights_le_of_chained config hchained
  rw [hjoins.size_vertices, hrings.vertices]
  exact Nat.add_le_add (Nat.mul_le_mul_right n hle)
    (size_vertices_shownLeaves_le config leaves includeLeaves)

/-! ## Indices as they are computed -/

omit [Trigonometric K] in
/-- The triangles of a mesh before they are stored: the strips of the drawn
segments, then the leaves. -/
def Mesh.computedIndices (mesh : Mesh K) : List Nat :=
  (mesh.rings.toList.reduceOption.flatMap fun pair =>
      stripIndices pair.start pair.finish mesh.ringSize) ++
    (List.range (mesh.leafVertices / 4)).flatMap fun k =>
      leafIndices (mesh.branchVertices + 4 * k)

theorem indices_leafDraft :
    (leafDraft config leaves).indices.toList =
      ((List.range leaves.size).flatMap fun k =>
        leafIndices (4 * k)).map Int32.ofNat := by
  have hall : (leafDraft config leaves).vertices.size = 4 * leaves.size ∧
      (leafDraft config leaves).indices.toList =
        ((List.range leaves.size).flatMap fun k =>
          leafIndices (4 * k)).map Int32.ofNat := by
    apply Array.foldl_induction (fun i (draft : MeshDraft K) =>
      draft.vertices.size = 4 * i ∧
        draft.indices.toList = ((List.range i).flatMap fun k =>
          leafIndices (4 * k)).map Int32.ofNat)
    · exact ⟨rfl, rfl⟩
    · rintro i draft ⟨hsize, hindices⟩
      refine ⟨by rw [size_vertices_addLeaf, hsize]; rfl, ?_⟩
      simp [Mesh.addLeaf, hindices, hsize, List.range_succ]
  exact hall.2

theorem Mesh.computedIndices_ofParts :
    (Mesh.ofParts config segments leaves n includeLeaves).1.computedIndices =
      (RingLayout.ofSegments config segments).indices n ++
        (List.range (if includeLeaves then leaves.size else 0)).flatMap
          fun k => leafIndices
            ((BranchSweep.ofSegments config n segments).draft.vertices.size +
              4 * k) := by
  have hrings := Mesh.rings_ofParts config segments leaves n includeLeaves
  have hjoins := Mesh.joins_ofParts config segments leaves n includeLeaves
  have hleaves : (Mesh.ofParts config segments leaves n
      includeLeaves).1.leafVertices / 4 =
        if includeLeaves then leaves.size else 0 := by
    rw [Mesh.leafVertices, hjoins.size_vertices, hjoins.branchVertices,
      Nat.add_sub_cancel_left]
    cases includeLeaves <;> simp [size_vertices_leafDraft]
  rw [Mesh.computedIndices, hleaves, hjoins.branchVertices, hrings]
  congr 1
  rw [Array.toList_map, List.reduceOption_map, List.flatMap_map]
  rfl

/-- The triangles are stored one by one as they are computed. -/
theorem Mesh.indices_ofParts :
    (Mesh.ofParts config segments leaves n
      includeLeaves).1.indices.toList =
        (Mesh.ofParts config segments leaves n
          includeLeaves).1.computedIndices.map Int32.ofNat := by
  have hjoins := Mesh.joins_ofParts config segments leaves n includeLeaves
  have hfollows := BranchSweep.follows_ofSegments config n segments
  rw [Mesh.computedIndices_ofParts, hjoins.joined]
  simp only [MeshDraft.toSection, MeshDraft.append, Array.toList_append,
    Array.toList_map, hfollows.indices, List.map_append]
  congr 1
  cases includeLeaves with
  | false => rfl
  | true =>
      simp [indices_leafDraft, List.map_flatMap, leafIndices_add,
        Int32.ofNat_add, Int32.add_comm, Function.comp_def]

theorem Mesh.lt_of_mem_computedIndices {i : Nat}
    (hi : i ∈ (Mesh.ofParts config segments leaves n
      includeLeaves).1.computedIndices) :
    i < (Mesh.ofParts config segments leaves n
      includeLeaves).1.vertices.size := by
  have hjoins := Mesh.joins_ofParts config segments leaves n includeLeaves
  have hdraft := (BranchSweep.follows_ofSegments config n segments).draft
  have hsound := RingLayout.sound_ofSegments config segments
  rw [Mesh.computedIndices_ofParts] at hi
  rw [hjoins.size_vertices]
  rcases List.mem_append.mp hi with hbranch | hleaf
  · have hlt := hsound.indices_lt hbranch
    rw [← hdraft.vertices] at hlt
    exact Nat.lt_add_right _ hlt
  · obtain ⟨k, hk, hcorner⟩ := List.mem_flatMap.mp hleaf
    cases includeLeaves with
    | false => simp at hk
    | true =>
        rw [if_pos rfl, List.mem_range] at hk
        rw [if_pos rfl, size_vertices_leafDraft]
        exact leafIndices_lt (by omega) hcorner

/-- Triangles of a mesh whose vertices can be counted in 32 bits are stored
unchanged. -/
theorem Mesh.toInt_indices_ofParts
    (hsize : (Mesh.ofParts config segments leaves n
      includeLeaves).1.vertices.size < 2 ^ 31) :
    let mesh := (Mesh.ofParts config segments leaves n includeLeaves).1
    mesh.indices.toList.map Int32.toInt =
      mesh.computedIndices.map Int.ofNat := by
  intro mesh
  have hindices : mesh.indices.toList =
      mesh.computedIndices.map Int32.ofNat :=
    Mesh.indices_ofParts config segments leaves n includeLeaves
  rw [hindices, List.map_map]
  apply List.map_congr_left
  intro i hi
  have hlt := Mesh.lt_of_mem_computedIndices config segments leaves n
    includeLeaves hi
  exact Int32.toInt_ofNat_of_lt (hlt.trans hsize)

end Meshes

end TreeGrowth
