import TreeGrowth.Proofs.Mesh.Draft

/-!
# The layout of the rings

Which rings a sweep draws, which of them a segment shares with its parent, and
the texture coordinate of each does not depend on how many vertices a ring has.
The layout is the sweep with a single number in place of every ring.  A mesh
with `n` vertices around a branch follows it: ring `r` of the layout is the
block of the vertices from `r * n` up to `(r + 1) * n`, and the triangles are
the strips between the two rings of each drawn segment, in order.
-/

namespace TreeGrowth

variable {K : Type}

/-! ## Layouts -/

/-- The rings of a sweep, numbered from zero in the order in which they are
drawn. -/
structure RingLayout (K : Type) where
  /-- The texture coordinate of each ring. -/
  heights : List K := []
  /-- For every segment the numbers of its two rings, if it is drawn. -/
  pairs : Array (Option RingPair) := #[]
  /-- The texture coordinate that the next segment begins with. -/
  v : K

namespace RingLayout

def endRing? (layout : RingLayout K) (segment : Int) : Option Nat :=
  if segment < 0 then none
  else (layout.pairs.getD segment.toNat none).map fun pair => pair.finish

def drawn (layout : RingLayout K) : List RingPair :=
  layout.pairs.toList.reduceOption

def indices (layout : RingLayout K) (n : Nat) : List Nat :=
  layout.drawn.flatMap fun pair =>
    stripIndices (pair.start * n) (pair.finish * n) n

variable [Trigonometric K]

def addSegment (config : GeometryConfig K) (layout : RingLayout K)
    (segment : Segment K) : RingLayout K :=
  if segment.length < Vec3.smallLength then
    { layout with pairs := layout.pairs.push none }
  else
    let endV := layout.v + segment.length * config.barkTiling / 100.0
    let count := layout.heights.length
    match segment.parent.bind layout.endRing? with
    | some start =>
        { heights := layout.heights ++ [endV]
          pairs := layout.pairs.push (some { start, finish := count })
          v := endV }
    | none =>
        { heights := layout.heights ++ [layout.v, endV]
          pairs := layout.pairs.push
            (some { start := count, finish := count + 1 })
          v := endV }

def ofSegments (config : GeometryConfig K) (segments : Array (Segment K)) :
    RingLayout K :=
  segments.foldl (addSegment config) { v := 0.0 }

end RingLayout

/-- A pair of rings as vertices of a mesh with `n` vertices in a ring. -/
def RingPair.scale (n : Nat) (pair : RingPair) : RingPair :=
  { start := pair.start * n, finish := pair.finish * n }

/-! ## Rings of a layout -/

/-- Every drawn segment ends with a later ring than it begins with. -/
def RingLayout.Sound (layout : RingLayout K) : Prop :=
  ∀ pair ∈ layout.drawn,
    pair.start < pair.finish ∧ pair.finish < layout.heights.length

theorem RingLayout.mem_drawn_iff {layout : RingLayout K} {pair : RingPair} :
    pair ∈ layout.drawn ↔
      ∃ segment : Nat, layout.pairs[segment]? = some (some pair) := by
  rw [RingLayout.drawn, List.reduceOption_mem_iff, List.mem_iff_getElem?]
  simp

theorem RingLayout.endRing?_eq_some_iff {layout : RingLayout K} {segment : Int}
    {ring : Nat} :
    layout.endRing? segment = some ring ↔
      0 ≤ segment ∧ ∃ pair : RingPair,
        layout.pairs[segment.toNat]? = some (some pair) ∧
          pair.finish = ring := by
  unfold RingLayout.endRing?
  by_cases hnegative : segment < 0
  · simp [hnegative]
  · rw [if_neg hnegative, Array.getD_eq_getD_getElem?]
    have hnonneg : 0 ≤ segment := by omega
    cases layout.pairs[segment.toNat]? with
    | none => simp
    | some pair? => cases pair? <;> simp [hnonneg]

theorem RingLayout.drawn_push (layout : RingLayout K) (heights : List K)
    (pair? : Option RingPair) (v : K) :
    RingLayout.drawn
      { heights, pairs := layout.pairs.push pair?, v } =
        layout.drawn ++ pair?.toList := by
  cases pair? <;> simp [RingLayout.drawn, List.reduceOption_append]

variable [Trigonometric K]

theorem RingLayout.Sound.addSegment {layout : RingLayout K}
    (hsound : layout.Sound) (config : GeometryConfig K) (segment : Segment K) :
    (layout.addSegment config segment).Sound := by
  unfold RingLayout.addSegment
  split
  next =>
    intro pair hpair
    rw [RingLayout.drawn_push] at hpair
    exact hsound pair (by simpa using hpair)
  next =>
    split
    next start hstart =>
      obtain ⟨parent, _, hend⟩ := Option.bind_eq_some_iff.mp hstart
      obtain ⟨_, before, hbefore, rfl⟩ :=
        RingLayout.endRing?_eq_some_iff.mp hend
      have hlt := (hsound before (RingLayout.mem_drawn_iff.mpr ⟨_, hbefore⟩)).2
      intro pair hpair
      simp only [RingLayout.drawn_push, Option.toList_some, List.mem_append,
        List.mem_singleton, List.length_append, List.length_singleton]
        at hpair ⊢
      rcases hpair with hold | rfl
      · obtain ⟨hpair, hfinish⟩ := hsound pair hold
        exact ⟨hpair, by omega⟩
      · exact ⟨hlt, by simp⟩
    next =>
      intro pair hpair
      simp only [RingLayout.drawn_push, Option.toList_some, List.mem_append,
        List.mem_singleton, List.length_append, List.length_cons,
        List.length_nil] at hpair ⊢
      rcases hpair with hold | rfl
      · obtain ⟨hpair, hfinish⟩ := hsound pair hold
        exact ⟨hpair, by omega⟩
      · exact ⟨by simp, by simp⟩

theorem RingLayout.sound_ofSegments (config : GeometryConfig K)
    (segments : Array (Segment K)) :
    (RingLayout.ofSegments config segments).Sound := by
  apply Array.foldl_induction (fun _ layout => RingLayout.Sound layout)
  · intro pair hpair
    simp [RingLayout.drawn] at hpair
  · intro _ layout hsound
    exact hsound.addSegment config _

theorem RingLayout.size_pairs_addSegment (config : GeometryConfig K)
    (layout : RingLayout K) (segment : Segment K) :
    (layout.addSegment config segment).pairs.size = layout.pairs.size + 1 := by
  unfold RingLayout.addSegment
  split
  next => simp
  next => split <;> simp

theorem RingLayout.length_heights_addSegment_le (config : GeometryConfig K)
    (layout : RingLayout K) (segment : Segment K) :
    (layout.addSegment config segment).heights.length ≤
      layout.heights.length + 2 := by
  unfold RingLayout.addSegment
  split
  next => exact Nat.le_add_right _ 2
  next => split <;> simp

theorem RingLayout.length_heights_ofSegments_le (config : GeometryConfig K)
    (segments : Array (Segment K)) :
    (RingLayout.ofSegments config segments).heights.length ≤
      2 * segments.size := by
  apply Array.foldl_induction
    (fun i (layout : RingLayout K) => layout.heights.length ≤ 2 * i)
  · exact Nat.zero_le _
  · intro i layout hle
    have hadd := layout.length_heights_addSegment_le config segments[i]
    exact hadd.trans (by omega)

/-! ## Blocks of vertices -/

/-- The vertices of a draft are rings of `n` vertices, one for every height, and
all vertices of a ring have its height for a texture coordinate. -/
structure MeshDraft.HasRings (n : Nat) (heights : List K)
    (draft : MeshDraft K) : Prop where
  vertices : draft.vertices.size = heights.length * n
  normals : draft.normals.size = heights.length * n
  colors : draft.colors.size = heights.length * n
  uvs : draft.uvs.toList.map Prod.snd = heights.flatMap (List.replicate n)

omit [Trigonometric K] in
theorem MeshDraft.HasRings.size_uvs {n : Nat} {heights : List K}
    {draft : MeshDraft K} (hrings : draft.HasRings n heights) :
    draft.uvs.size = heights.length * n := by
  have hlength := congrArg List.length hrings.uvs
  simpa using hlength

@[simp] theorem length_ringVertices (config : GeometryConfig K)
    (center direction : Vec3 K) (radius : K) (n : Nat) (v : K) :
    (ringVertices config center direction radius n v).length = n := by
  simp [ringVertices]

theorem ringVertices_heights (config : GeometryConfig K)
    (center direction : Vec3 K) (radius : K) (n : Nat) (v : K) :
    (ringVertices config center direction radius n v).map
      (fun vertex => vertex.uv.2) = List.replicate n v := by
  simp [ringVertices, Function.comp_def]

theorem MeshDraft.HasRings.addRing {n : Nat} {heights : List K}
    {draft : MeshDraft K} (hrings : draft.HasRings n heights)
    (config : GeometryConfig K) (center direction : Vec3 K) (radius v : K) :
    (draft.addVertices
      (ringVertices config center direction radius n v)).HasRings n
        (heights ++ [v]) := by
  have hheights := ringVertices_heights config center direction radius n v
  obtain ⟨hvertices, hnormals, hcolors, huvs⟩ := hrings
  constructor
  · simp [hvertices, Nat.add_mul]
  · simp [hnormals, Nat.add_mul]
  · simp [hcolors, Nat.add_mul]
  · simp [huvs, ← hheights, Function.comp_def]

omit [Trigonometric K] in
theorem MeshDraft.HasRings.addIndices {n : Nat} {heights : List K}
    {draft : MeshDraft K} (hrings : draft.HasRings n heights)
    (block : List Nat) : (draft.addIndices block).HasRings n heights :=
  ⟨hrings.vertices, hrings.normals, hrings.colors, hrings.uvs⟩

/-! ## Sweeps that follow a layout -/

structure BranchSweep.Follows (n : Nat) (layout : RingLayout K)
    (sweep : BranchSweep K) : Prop where
  draft : sweep.draft.HasRings n layout.heights
  indices : sweep.draft.indices.toList = (layout.indices n).map Int32.ofNat
  rings : sweep.rings = layout.pairs.map (Option.map (RingPair.scale n))
  v : sweep.v = layout.v

variable {config : GeometryConfig K} {n : Nat} {layout : RingLayout K}
  {sweep : BranchSweep K}

omit [Trigonometric K] in
theorem BranchSweep.Follows.endRing?_eq (hfollows : sweep.Follows n layout)
    (segment : Int) :
    sweep.endRing? segment = (layout.endRing? segment).map (· * n) := by
  unfold BranchSweep.endRing? RingLayout.endRing?
  split
  next => rfl
  next =>
    rw [hfollows.rings, Array.getD_eq_getD_getElem?, Array.getElem?_map,
      Array.getD_eq_getD_getElem?]
    cases layout.pairs[segment.toNat]? with
    | none => rfl
    | some pair? => cases pair? <;> rfl

omit [Trigonometric K] in
/-- The sweep finds a ring to begin a segment in just when the layout does. -/
theorem BranchSweep.Follows.bind_endRing?_eq (hfollows : sweep.Follows n layout)
    (parent : Option Int) :
    parent.bind sweep.endRing? =
      (parent.bind layout.endRing?).map (· * n) := by
  cases parent with
  | none => rfl
  | some parent => exact hfollows.endRing?_eq parent

theorem BranchSweep.startRing_of_some {segment : Segment K} {ring : Nat}
    (hring : segment.parent.bind sweep.endRing? = some ring) :
    sweep.startRing config n segment = (sweep, ring) := by
  obtain ⟨parent, hparent, hend⟩ := Option.bind_eq_some_iff.mp hring
  simp only [BranchSweep.startRing, hparent, hend]

theorem BranchSweep.startRing_of_none (config : GeometryConfig K) (n : Nat)
    {segment : Segment K}
    (hring : segment.parent.bind sweep.endRing? = none) :
    ∃ journal, sweep.startRing config n segment =
      ({ sweep with
          draft := sweep.draft.addVertices (ringVertices config
            segment.startPosition segment.direction segment.startRadius n
            sweep.v)
          journal },
        sweep.draft.vertices.size) := by
  unfold BranchSweep.startRing
  cases hparent : segment.parent with
  | none => exact ⟨sweep.journal, rfl⟩
  | some parent =>
      rw [hparent, Option.bind_some] at hring
      simp only [hring]
      exact ⟨_, rfl⟩

theorem BranchSweep.Follows.addSegment (hfollows : sweep.Follows n layout)
    (segment : Segment K) :
    (sweep.addSegment config n segment).Follows n
      (layout.addSegment config segment) := by
  have hstart := hfollows.bind_endRing?_eq segment.parent
  obtain ⟨hdraft, hindices, hrings, hv⟩ := hfollows
  unfold BranchSweep.addSegment RingLayout.addSegment
  simp only [hv]
  by_cases hlength : segment.length < Vec3.smallLength
  · rw [if_pos hlength, if_pos hlength]
    refine ⟨hdraft, ?_, ?_, rfl⟩
    · simp [hindices, RingLayout.indices, RingLayout.drawn_push]
    · simp [hrings]
  rw [if_neg hlength, if_neg hlength]
  cases hring : segment.parent.bind layout.endRing? with
  | some ring =>
      rw [hring, Option.map_some] at hstart
      rw [BranchSweep.startRing_of_some hstart]
      constructor
      · apply MeshDraft.HasRings.addIndices
        exact hdraft.addRing config _ _ _ _
      · simp [BranchSweep.addRing, hindices, hdraft.vertices,
          RingLayout.indices, RingLayout.drawn_push]
      · simp [BranchSweep.addRing, hrings, hdraft.vertices, RingPair.scale]
      · rfl
  | none =>
      rw [hring, Option.map_none] at hstart
      obtain ⟨journal, hfresh⟩ :=
        BranchSweep.startRing_of_none config n hstart
      have hbegun := hdraft.addRing config segment.startPosition
        segment.direction segment.startRadius layout.v
      rw [hfresh, hv]
      constructor
      · apply MeshDraft.HasRings.addIndices
        have hended := hbegun.addRing config segment.endPosition
          segment.direction segment.endRadius
          (layout.v + segment.length * config.barkTiling / 100.0)
        rw [List.append_assoc] at hended
        exact hended
      · simp [BranchSweep.addRing, hindices, hdraft.vertices,
          RingLayout.indices, RingLayout.drawn_push, Nat.add_mul]
      · simp [BranchSweep.addRing, hrings, hdraft.vertices, RingPair.scale,
          Nat.add_mul]
      · rfl

def BranchSweep.ofSegments (config : GeometryConfig K) (n : Nat)
    (segments : Array (Segment K)) : BranchSweep K :=
  segments.foldl (BranchSweep.addSegment config n) { v := 0.0 }

theorem BranchSweep.follows_begin (n : Nat) :
    BranchSweep.Follows n ({ v := 0.0 } : RingLayout K) { v := 0.0 } := by
  constructor
  · constructor <;> simp
  · simp [RingLayout.indices, RingLayout.drawn]
  · simp
  · rfl

theorem BranchSweep.follows_ofSegments (config : GeometryConfig K) (n : Nat)
    (segments : Array (Segment K)) :
    (BranchSweep.ofSegments config n segments).Follows n
      (RingLayout.ofSegments config segments) := by
  have hfold : ∀ (segments : List (Segment K)) (sweep : BranchSweep K)
      (layout : RingLayout K), sweep.Follows n layout →
        (segments.foldl (BranchSweep.addSegment config n) sweep).Follows n
          (segments.foldl (RingLayout.addSegment config) layout) := by
    intro segments
    induction segments with
    | nil => exact fun _ _ hfollows => hfollows
    | cons segment segments ih =>
        intro sweep layout hfollows
        exact ih _ _ (hfollows.addSegment segment)
  simp only [BranchSweep.ofSegments, RingLayout.ofSegments,
    ← Array.foldl_toList]
  exact hfold segments.toList _ _ (BranchSweep.follows_begin n)

end TreeGrowth
