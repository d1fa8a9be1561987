import Mathlib
import TreeGrowth.Proofs.Mesh.Rings
import TreeGrowth.Proofs.Space.Frame

/-!
# Shading

The vertices of the branches are the rings that are made for the segments, one
after the other, each around one end of its segment.  Over the real numbers the
vertices of a ring lie on a circle across the direction of the segment, their
normals point away from its centre, and every unit normal has a tangent.  So has
every corner of a leaf, which takes over the normal of the leaf as it is.
-/

namespace TreeGrowth

variable {K : Type}

/-! ## Rings of a draft -/

namespace SegmentEnd

def center (side : SegmentEnd) (segment : Segment K) : Vec3 K :=
  match side with
  | start _ => segment.startPosition
  | finish _ => segment.endPosition

def radius (side : SegmentEnd) (segment : Segment K) : K :=
  match side with
  | start _ => segment.startRadius
  | finish _ => segment.endRadius

end SegmentEnd

variable [Trigonometric K] {config : GeometryConfig K}
  {segments : Array (Segment K)} {n count : Nat} {segment : Segment K}

/-- The vertices are a ring around this end of its segment. -/
def SegmentEnd.IsRing (config : GeometryConfig K)
    (segments : Array (Segment K)) (n : Nat) (side : SegmentEnd)
    (block : List (MeshVertex K)) : Prop :=
  ∃ segment v, segments[side.segment]? = some segment ∧
    block = ringVertices config (side.center segment) segment.direction
      (side.radius segment) n v

theorem SegmentEnd.IsRing.length_eq {side : SegmentEnd}
    {block : List (MeshVertex K)}
    (hring : side.IsRing config segments n block) : block.length = n := by
  obtain ⟨segment, v, -, rfl⟩ := hring
  exact length_ringVertices _ _ _ _ _ _

/-- The vertices of the draft are rings around these ends of segments, one after
the other. -/
def MeshDraft.RingsAt (config : GeometryConfig K)
    (segments : Array (Segment K)) (n : Nat) (sides : List SegmentEnd)
    (draft : MeshDraft K) : Prop :=
  ∃ blocks : List (List (MeshVertex K)),
    List.Forall₂ (SegmentEnd.IsRing config segments n) sides blocks ∧
      draft.vertices.toList = blocks.flatten.map (fun v => v.position) ∧
      draft.normals.toList = blocks.flatten.map (fun v => v.normal)

namespace MeshDraft.RingsAt

variable {draft : MeshDraft K} {sides : List SegmentEnd}

theorem addRing (hrings : draft.RingsAt config segments n sides)
    (side : SegmentEnd) (hsegment : segments[side.segment]? = some segment)
    (v : K) :
    (draft.addVertices (ringVertices config (side.center segment)
      segment.direction (side.radius segment) n v)).RingsAt config segments n
        (sides ++ [side]) := by
  obtain ⟨blocks, hblocks, hvertices, hnormals⟩ := hrings
  refine ⟨blocks ++ [ringVertices config (side.center segment)
    segment.direction (side.radius segment) n v], ?_, ?_, ?_⟩
  · exact List.rel_append hblocks (.cons ⟨segment, v, hsegment, rfl⟩ .nil)
  · simp [hvertices]
  · simp [hnormals]

theorem addIndices (hrings : draft.RingsAt config segments n sides)
    (block : List Nat) :
    (draft.addIndices block).RingsAt config segments n sides := hrings

/-- The vertex at a place around one of the rings. -/
theorem getElem? (hrings : draft.RingsAt config segments n sides) {r k : Nat}
    {side : SegmentEnd} (hside : sides[r]? = some side) (hk : k < n) :
    ∃ block vertex, side.IsRing config segments n block ∧ vertex ∈ block ∧
      draft.vertices[r * n + k]? = some vertex.position ∧
      draft.normals[r * n + k]? = some vertex.normal := by
  obtain ⟨blocks, hblocks, hvertices, hnormals⟩ := hrings
  obtain ⟨hcount, hpaired⟩ := List.forall₂_iff_get.mp hblocks
  have hlength : ∀ block ∈ blocks, block.length = n := by
    intro block hblock
    obtain ⟨i, hi, rfl⟩ := List.mem_iff_getElem.mp hblock
    exact (hpaired i (hcount ▸ hi) hi).length_eq
  obtain ⟨hr, rfl⟩ := List.getElem?_eq_some_iff.mp hside
  have hr' : r < blocks.length := hcount ▸ hr
  have hring := hpaired r hr hr'
  have hk' : k < blocks[r].length := hring.length_eq.symm ▸ hk
  have hplace : blocks.flatten[r * n + k]? = some blocks[r][k] := by
    rw [getElem?_flatten_block hlength hk, List.getElem?_eq_getElem hr',
      Option.bind_some, List.getElem?_eq_getElem hk']
  refine ⟨blocks[r], blocks[r][k], hring, List.getElem_mem hk', ?_, ?_⟩
  · rw [← Array.getElem?_toList, hvertices, List.getElem?_map, hplace]
    rfl
  · rw [← Array.getElem?_toList, hnormals, List.getElem?_map, hplace]
    rfl

end MeshDraft.RingsAt

namespace BranchSweep

variable {sweep : BranchSweep K} {layout : RingLayout K}

/-- A sweep makes the rings of the next segment behind those that there are. -/
theorem Follows.ringsAt_addSegment (hfollows : sweep.Follows n layout)
    (hnumbers : layout.Numbers segments count)
    (hsegment : segments[count]? = some segment)
    (hrings : sweep.draft.RingsAt config segments n
      (ringsMade segments count)) :
    (sweep.addSegment config n segment).draft.RingsAt config segments n
      (ringsMade segments (count + 1)) := by
  have hstart := hfollows.bind_endRing?_eq segment.parent
  rw [hnumbers.startRing_eq hsegment] at hstart
  have hdrawn : IsDrawn segments count ↔
      ¬segment.length < Vec3.smallLength := by
    simp [IsDrawn, hsegment]
  rw [ringsMade_succ, ringsMadeFor]
  unfold BranchSweep.addSegment
  by_cases hshort : segment.length < Vec3.smallLength
  · have hskipped : ¬IsDrawn segments count := fun h => hdrawn.mp h hshort
    rw [if_pos hshort, if_neg hskipped, List.append_nil]
    exact hrings
  rw [if_neg hshort, if_pos (hdrawn.mpr hshort)]
  cases hjoint : jointOf? segments count with
  | some p =>
      obtain ⟨hlt, hp, -⟩ := jointOf?_eq_some_iff.mp hjoint
      obtain ⟨pair, hpair⟩ := (hnumbers.drawn p hlt).mpr hp
      rw [hjoint, Option.bind_some, SegmentEnd.ring?, hpair] at hstart
      rw [startRing_of_some hstart]
      exact (hrings.addRing (.finish count) hsegment _).addIndices _
  | none =>
      rw [hjoint, Option.bind_none, Option.map_none] at hstart
      obtain ⟨journal, hfresh⟩ := startRing_of_none config n hstart
      rw [hfresh]
      have hbegun := hrings.addRing (.start count) hsegment sweep.v
      have hended := hbegun.addRing (.finish count) hsegment
        (sweep.v + segment.length * config.barkTiling / 100.0)
      rw [List.append_assoc] at hended
      exact hended.addIndices _

theorem ringsAt_ofSegments (config : GeometryConfig K) (n : Nat)
    (segments : Array (Segment K)) :
    (ofSegments config n segments).draft.RingsAt config segments n
      (ringsMade segments segments.size) := by
  -- The layout that the sweep follows tells which segments are joined.
  have hfollowed : ∃ layout,
      (ofSegments config n segments).Follows n layout ∧
        layout.Numbers segments segments.size ∧
        (ofSegments config n segments).draft.RingsAt config segments n
          (ringsMade segments segments.size) := by
    apply Array.foldl_induction (fun i (sweep : BranchSweep K) => ∃ layout,
      sweep.Follows n layout ∧ layout.Numbers segments i ∧
        sweep.draft.RingsAt config segments n (ringsMade segments i))
    · exact ⟨_, follows_begin n, RingLayout.numbers_begin segments,
        [], .nil, rfl, rfl⟩
    · rintro i sweep ⟨layout, hfollows, hnumbers, hrings⟩
      have hsegment := Array.getElem?_eq_getElem i.isLt
      exact ⟨_, hfollows.addSegment _, hnumbers.addSegment hsegment config,
        hfollows.ringsAt_addSegment hnumbers hsegment hrings⟩
  obtain ⟨_, _, _, hrings⟩ := hfollowed
  exact hrings

end BranchSweep

/-! ## Normals of the leaves -/

/-- All corners of a leaf have its normal. -/
theorem normals_leafDraft (config : GeometryConfig K)
    (leaves : Array (Leaf K)) :
    (leafDraft config leaves).normals.toList =
      leaves.toList.flatMap fun leaf => List.replicate 4 leaf.normal := by
  have hfold : ∀ (leaves : List (Leaf K)) (draft : MeshDraft K),
      (leaves.foldl (Mesh.addLeaf config) draft).normals.toList =
        draft.normals.toList ++
          leaves.flatMap fun leaf => List.replicate 4 leaf.normal := by
    intro leaves
    induction leaves with
    | nil => simp
    | cons leaf leaves ih =>
        intro draft
        have hcorners : (leaf.corners config).map (fun v => v.normal) =
            List.replicate 4 leaf.normal := rfl
        rw [List.foldl_cons, ih, List.flatMap_cons]
        simp [Mesh.addLeaf, hcorners]
  rw [leafDraft, ← Array.foldl_toList, hfold]
  simp

/-! ## Vertices of a mesh -/

omit [Trigonometric K] in
/-- What the vertex with this number has for shading. -/
structure Mesh.HasVertex (mesh : Mesh K) (i : Nat)
    (position normal tangent : Vec3 K) : Prop where
  position : mesh.vertices[i]? = some position
  normal : mesh.normals[i]? = some normal
  tangent : mesh.tangents[i]? = some tangent

namespace Mesh.Joins

variable {mesh : Mesh K} {branches leaves : MeshDraft K} {i : Nat}
  {position normal : Vec3 K}

theorem hasVertex (hjoins : mesh.Joins branches leaves)
    (hposition : mesh.vertices[i]? = some position)
    (hnormal : mesh.normals[i]? = some normal) :
    mesh.HasVertex i position normal normal.tangent := by
  refine ⟨hposition, hnormal, ?_⟩
  rw [hjoins.tangents_eq, Array.getElem?_map, hnormal, Option.map_some]

theorem hasVertex_branch (hjoins : mesh.Joins branches leaves)
    (hposition : branches.vertices[i]? = some position)
    (hnormal : branches.normals[i]? = some normal) :
    mesh.HasVertex i position normal normal.tangent := by
  apply hjoins.hasVertex
  · obtain ⟨hlt, -⟩ := Array.getElem?_eq_some_iff.mp hposition
    rw [hjoins.vertices_eq, Array.getElem?_append_left hlt, hposition]
  · obtain ⟨hlt, -⟩ := Array.getElem?_eq_some_iff.mp hnormal
    rw [hjoins.normals_eq, Array.getElem?_append_left hlt, hnormal]

theorem hasVertex_leaf (hjoins : mesh.Joins branches leaves)
    (hbranches : branches.WellFormed)
    (hposition : leaves.vertices[i]? = some position)
    (hnormal : leaves.normals[i]? = some normal) :
    mesh.HasVertex (mesh.branchVertices + i) position normal
      normal.tangent := by
  rw [hjoins.branchVertices]
  apply hjoins.hasVertex
  · rw [hjoins.vertices_eq, Array.getElem?_append_right (Nat.le_add_right _ _),
      Nat.add_sub_cancel_left, hposition]
  · rw [hjoins.normals_eq, ← hbranches.normals,
      Array.getElem?_append_right (Nat.le_add_right _ _),
      Nat.add_sub_cancel_left, hnormal]

/-- Every normal belongs to a vertex with a position. -/
theorem exists_hasVertex (hjoins : mesh.Joins branches leaves)
    (hbranches : branches.WellFormed) (hleaves : leaves.WellFormed)
    (hnormal : mesh.normals[i]? = some normal) :
    ∃ position, mesh.HasVertex i position normal normal.tangent := by
  have hsize : mesh.normals.size = mesh.vertices.size := by
    rw [hjoins.normals_eq, hjoins.vertices_eq]
    exact (hbranches.append hleaves).normals
  obtain ⟨hlt, -⟩ := Array.getElem?_eq_some_iff.mp hnormal
  rw [hsize] at hlt
  exact ⟨_, hjoins.hasVertex (Array.getElem?_eq_getElem hlt) hnormal⟩

end Mesh.Joins

section Meshes

variable (config : GeometryConfig K) (segments : Array (Segment K))
  (leaves : Array (Leaf K)) (n : Nat) (includeLeaves : Bool)

/-- The rings that are made have the numbers from zero on. -/
theorem Mesh.ring?_of_made {r : Nat} {side : SegmentEnd}
    (hside : (ringsMade segments segments.size)[r]? = some side) :
    side.ring? (Mesh.ofParts config segments leaves n includeLeaves).1.rings =
      some (r * n) := by
  have hrings := congrArg (·[r]?)
    (Mesh.ringsMade_ofParts config segments leaves n includeLeaves)
  obtain ⟨hr, -⟩ := List.getElem?_eq_some_iff.mp hside
  simp only [List.getElem?_map, hside, List.getElem?_range hr] at hrings
  exact Option.some.inj hrings

/-- The vertices of the branches are those of the rings that are made. -/
theorem Mesh.exists_ringVertex {r k : Nat} {side : SegmentEnd}
    (hside : (ringsMade segments segments.size)[r]? = some side) (hk : k < n) :
    ∃ block vertex, side.IsRing config segments n block ∧ vertex ∈ block ∧
      (Mesh.ofParts config segments leaves n includeLeaves).1.HasVertex
        (r * n + k) vertex.position vertex.normal vertex.normal.tangent := by
  have hjoins := Mesh.joins_ofParts config segments leaves n includeLeaves
  obtain ⟨block, vertex, hring, hvertex, hposition, hnormal⟩ :=
    (BranchSweep.ringsAt_ofSegments config n segments).getElem? hside hk
  exact ⟨block, vertex, hring, hvertex,
    hjoins.hasVertex_branch hposition hnormal⟩

/-- The vertices of the leaves follow, four for each. -/
theorem Mesh.exists_leafVertex {j corner : Nat} {leaf : Leaf K}
    (hleaf : leaves[j]? = some leaf) (hcorner : corner < 4) :
    let mesh := (Mesh.ofParts config segments leaves n true).1
    ∃ position, mesh.HasVertex (mesh.branchVertices + (j * 4 + corner))
      position leaf.normal leaf.normal.tangent := by
  intro mesh
  have hjoins := Mesh.joins_ofParts config segments leaves n true
  rw [if_pos rfl] at hjoins
  have hnormal : (leafDraft config leaves).normals[j * 4 + corner]? =
      some leaf.normal := by
    have hplace := getElem?_flatMap_replicate
      (leaves.toList.map Leaf.normal) j hcorner
    rw [← Array.getElem?_toList] at hleaf
    rw [List.flatMap_map, List.getElem?_map, hleaf] at hplace
    rw [← Array.getElem?_toList, normals_leafDraft]
    exact hplace
  obtain ⟨hlt, -⟩ := Array.getElem?_eq_some_iff.mp hnormal
  rw [(wellFormed_leafDraft config leaves).normals] at hlt
  exact ⟨_, hjoins.hasVertex_leaf
    (BranchSweep.wellFormed_ofSegments config n segments)
    (Array.getElem?_eq_getElem hlt) hnormal⟩

end Meshes

/-- Over the real numbers, where all directions of the segments are long enough.
The vertices of the branches are the rings that are made, each around one end of
its segment.  If the radius is positive, all vertices of a ring lie at this
distance from its centre, in the plane across the direction; their normals are
the directions from the centre to them, and their tangents have length one and
are perpendicular to the normals.  The corners of a leaf have the normal of the
leaf, and if its length is one, so is that of their tangents, which are
perpendicular to it.  The same holds for every vertex with a normal of length
one. -/
theorem shading_frames_valid (config : GeometryConfig ℝ)
    (segments : Array (Segment ℝ)) (leaves : Array (Leaf ℝ)) (n : Nat)
    (includeLeaves : Bool)
    (hdirections : ∀ segment ∈ segments,
      1e-8 ≤ segment.direction.dot segment.direction) :
    let mesh := (Mesh.ofParts config segments leaves n includeLeaves).1
    let made := ringsMade segments segments.size
    mesh.branchVertices = made.length * n ∧
      (∀ (r : Nat) (side : SegmentEnd), made[r]? = some side →
        ∃ segment, segments[side.segment]? = some segment ∧
          side.ring? mesh.rings = some (r * n) ∧
          (0 < side.radius segment → ∀ k < n, ∃ position normal tangent,
            mesh.HasVertex (r * n + k) position normal tangent ∧
            OnRing (side.center segment) segment.direction
              (side.radius segment) position normal ∧
            tangent.IsTangent normal)) ∧
      (includeLeaves = true → ∀ (j : Nat) (leaf : Leaf ℝ),
        leaves[j]? = some leaf → leaf.normal.norm = 1 →
          ∀ corner < 4, ∃ position tangent,
            mesh.HasVertex (mesh.branchVertices + (j * 4 + corner)) position
              leaf.normal tangent ∧
            tangent.IsTangent leaf.normal) ∧
      ∀ (i : Nat) (normal : Vec3 ℝ), mesh.normals[i]? = some normal →
        normal.norm = 1 → ∃ position tangent,
          mesh.HasVertex i position normal tangent ∧
          tangent.IsTangent normal := by
  intro mesh made
  refine ⟨Mesh.branchVertices_eq_made config segments leaves n includeLeaves,
    ?_, ?_, ?_⟩
  · intro r side hside
    obtain ⟨hr, rfl⟩ := List.getElem?_eq_some_iff.mp hside
    have hsegment := Array.getElem?_eq_getElem
      (segment_lt_of_mem_ringsMade (List.getElem_mem hr))
    refine ⟨_, hsegment,
      Mesh.ring?_of_made config segments leaves n includeLeaves hside, ?_⟩
    intro hradius k hk
    obtain ⟨_, vertex, ⟨segment, v, hsame, rfl⟩, hvertex, hplaced⟩ :=
      Mesh.exists_ringVertex config segments leaves n includeLeaves hside hk
    obtain rfl := Option.some.inj (hsegment.symm.trans hsame)
    have honRing := onRing_of_mem_ringVertices
      (hdirections _ (Array.getElem_mem _)) hradius hvertex
    exact ⟨_, _, _, hplaced, honRing,
      Vec3.isTangent_tangent honRing.normal_norm⟩
  · rintro rfl j leaf hleaf hunit corner hcorner
    obtain ⟨position, hplaced⟩ :=
      Mesh.exists_leafVertex config segments leaves n hleaf hcorner
    exact ⟨position, _, hplaced, Vec3.isTangent_tangent hunit⟩
  · intro i normal hnormal hunit
    have hjoins := Mesh.joins_ofParts config segments leaves n includeLeaves
    obtain ⟨position, hplaced⟩ := hjoins.exists_hasVertex
      (BranchSweep.wellFormed_ofSegments config n segments)
      (wellFormed_shownLeaves config leaves includeLeaves) hnormal
    exact ⟨position, _, hplaced, Vec3.isTangent_tangent hunit⟩

/-- A cone that rises straight from its tip, so that the side axis takes the
place of the upward one. -/
noncomputable def Segment.cone : Segment ℝ where
  startPosition := ⟨0, 0, 0⟩
  endPosition := ⟨0, 0, 1⟩
  startRadius := 0
  endRadius := 1
  direction := ⟨0, 0, 1⟩
  depth := 0
  parent := none

/-- A leaf that faces sideways. -/
noncomputable def Leaf.sideways : Leaf ℝ where
  position := ⟨0, 0, 1⟩
  normal := ⟨1, 0, 0⟩
  up := ⟨0, 0, 1⟩
  size := (1, 1)
  rotation := 0
  depth := 0

theorem shading_frames_valid_sample :
    let segments := #[Segment.cone]
    let mesh := (Mesh.ofParts .standard segments #[Leaf.sideways] 8 true).1
    (∀ segment ∈ segments,
      1e-8 ≤ segment.direction.dot segment.direction) ∧
    mesh.branchVertices = 16 ∧
    (∃ position normal tangent, mesh.HasVertex 11 position normal tangent ∧
      OnRing ⟨0, 0, 1⟩ ⟨0, 0, 1⟩ 1 position normal ∧
      tangent.IsTangent normal) ∧
    ∃ position tangent, mesh.HasVertex 18 position ⟨1, 0, 0⟩ tangent ∧
      tangent.IsTangent ⟨1, 0, 0⟩ := by
  intro segments mesh
  have hdirections : ∀ segment ∈ segments,
      1e-8 ≤ segment.direction.dot segment.direction := by
    simp only [segments, Array.mem_singleton, forall_eq, Segment.cone,
      Vec3.dot_eq]
    norm_num
  have hlength : Segment.cone.length = 1 := by
    rw [Segment.length, Vec3.norm_eq_one_iff, Vec3.sub_eq, Vec3.dot_eq]
    norm_num [Segment.cone]
  have hdrawn : IsDrawn segments 0 := by
    refine ⟨Segment.cone, rfl, ?_⟩
    rw [hlength]
    change ¬(1 : ℝ) < 1e-4
    norm_num
  have hmade : ringsMade segments segments.size = [.start 0, .finish 0] := by
    have hlone : jointOf? segments 0 = none := rfl
    have hsize : segments.size = 1 := rfl
    rw [hsize, ringsMade, List.range_one, List.flatMap_singleton, ringsMadeFor,
      if_pos hdrawn, hlone]
    rfl
  obtain ⟨hcount, hrings, hleaves, -⟩ := shading_frames_valid .standard
    segments #[Leaf.sideways] 8 true hdirections
  rw [hmade] at hcount hrings
  obtain ⟨segment, hsegment, -, hring⟩ := hrings 1 (.finish 0) rfl
  obtain rfl := Option.some.inj hsegment
  have hunit : (⟨1, 0, 0⟩ : Vec3 ℝ).norm = 1 := by
    rw [Vec3.norm_eq_one_iff, Vec3.dot_eq]
    norm_num
  refine ⟨hdirections, hcount, ?_, ?_⟩
  · exact hring one_pos 3 (by decide)
  · have hleaf := hleaves rfl 0 Leaf.sideways rfl hunit 2 (by decide)
    rw [hcount] at hleaf
    exact hleaf

end TreeGrowth
