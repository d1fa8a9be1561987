import TreeGrowth.Proofs.Mesh.Detail
import TreeGrowth.Proofs.Mesh.Runs

/-!
# Rings in the order of their making

For a drawn segment one or two rings are made: the one in which it ends, and
before it the one in which it begins, unless the segment is joined to an earlier
one that is drawn.  Which of them are made can be told from the segments alone,
whatever their parents are.  The rings of a mesh are these and no others, laid
one after the other, so that they tile the vertices of its branches.
-/

namespace TreeGrowth

variable {K : Type}

/-! ## Rings of segments -/

/-- One of the two rings of a segment. -/
inductive SegmentEnd
  | start (segment : Nat)
  | finish (segment : Nat)
  deriving Repr, DecidableEq

namespace SegmentEnd

def segment : SegmentEnd → Nat
  | start segment => segment
  | finish segment => segment

/-- The ring in a table of the rings of all segments. -/
def ring? (pairs : Array (Option RingPair)) : SegmentEnd → Option Nat
  | start segment => pairs[segment]?.join.map RingPair.start
  | finish segment => pairs[segment]?.join.map RingPair.finish

variable {pairs : Array (Option RingPair)} {side : SegmentEnd}

theorem ring?_push_of_lt (hside : side.segment < pairs.size)
    (pair? : Option RingPair) :
    side.ring? (pairs.push pair?) = side.ring? pairs := by
  have hkept : (pairs.push pair?)[side.segment]? = pairs[side.segment]? := by
    rw [Array.getElem?_push_lt hside, Array.getElem?_eq_getElem hside]
  cases side with
  | start segment => exact congrArg (·.join.map RingPair.start) hkept
  | finish segment => exact congrArg (·.join.map RingPair.finish) hkept

theorem ring?_scale (n : Nat) (side : SegmentEnd) :
    side.ring? (pairs.map (Option.map (RingPair.scale n))) =
      (side.ring? pairs).map (· * n) := by
  cases side with
  | start segment | finish segment =>
      simp only [ring?, Array.getElem?_map]
      rcases pairs[segment]? with - | - | pair <;> rfl

end SegmentEnd

variable [Trigonometric K] {segments : Array (Segment K)}

instance (segments : Array (Segment K)) (i : Nat) :
    Decidable (IsDrawn segments i) :=
  decidable_of_iff (segments[i]?.any fun segment =>
      !decide (segment.length < Vec3.smallLength)) (by
    simp [IsDrawn, Option.any_eq_true])

/-- The segment in whose last ring a segment begins: its parent, if that is an
earlier segment and drawn. -/
def jointOf? (segments : Array (Segment K)) (i : Nat) : Option Nat :=
  (List.range i).find? fun p => decide (IsDrawn segments p ∧
    segments[i]?.bind Segment.parent = some (p : Int))

theorem jointOf?_eq_some_iff {i p : Nat} :
    jointOf? segments i = some p ↔ p < i ∧ IsDrawn segments p ∧
      segments[i]?.bind Segment.parent = some (p : Int) := by
  constructor
  · intro hjoint
    have hmem := List.mem_of_find?_eq_some hjoint
    have hparent := List.find?_some hjoint
    exact ⟨List.mem_range.mp hmem, of_decide_eq_true hparent⟩
  · rintro ⟨hlt, hdrawn, hparent⟩
    obtain ⟨q, hq⟩ : ∃ q, jointOf? segments i = some q := by
      rw [← Option.isSome_iff_exists, jointOf?, List.find?_isSome]
      exact ⟨p, List.mem_range.mpr hlt, decide_eq_true ⟨hdrawn, hparent⟩⟩
    have hfound := List.find?_some hq
    rw [decide_eq_true_eq, hparent, Option.some_inj, Int.natCast_inj] at hfound
    rw [hq, hfound.2]

/-- The rings that are made for a segment, in order. -/
def ringsMadeFor (segments : Array (Segment K)) (i : Nat) : List SegmentEnd :=
  if IsDrawn segments i then
    if (jointOf? segments i).isSome then [.finish i] else [.start i, .finish i]
  else []

/-- The rings that are made for the first segments, in order. -/
def ringsMade (segments : Array (Segment K)) (count : Nat) : List SegmentEnd :=
  (List.range count).flatMap (ringsMadeFor segments)

theorem ringsMade_succ (segments : Array (Segment K)) (count : Nat) :
    ringsMade segments (count + 1) =
      ringsMade segments count ++ ringsMadeFor segments count := by
  simp [ringsMade, List.range_succ]

theorem segment_lt_of_mem_ringsMade {count : Nat} {side : SegmentEnd}
    (hside : side ∈ ringsMade segments count) : side.segment < count := by
  obtain ⟨i, hi, hside⟩ := List.mem_flatMap.mp hside
  have hsegment : side.segment = i := by
    unfold ringsMadeFor at hside
    split_ifs at hside <;> simp at hside
    · rw [hside]
      rfl
    · rcases hside with rfl | rfl <;> rfl
  rw [hsegment]
  exact List.mem_range.mp hi

/-- The first segments that are drawn. -/
def drawnBelow (segments : Array (Segment K)) (count : Nat) : List Nat :=
  (List.range count).filter fun i => decide (IsDrawn segments i)

/-- The first segments that are drawn and joined to none. -/
def loneBelow (segments : Array (Segment K)) (count : Nat) : List Nat :=
  (drawnBelow segments count).filter fun i => (jointOf? segments i).isNone

/-- Every drawn segment has a ring of its own to end in, and one to begin in if
it is joined to none. -/
theorem length_ringsMade (segments : Array (Segment K)) (count : Nat) :
    (ringsMade segments count).length =
      (drawnBelow segments count).length +
        (loneBelow segments count).length := by
  induction count with
  | zero => rfl
  | succ count ih =>
      rw [ringsMade_succ, List.length_append, ih, ringsMadeFor]
      simp only [drawnBelow, loneBelow, List.range_succ, List.filter_append,
        List.length_append]
      by_cases hdrawn : IsDrawn segments count
      · cases hjoint : jointOf? segments count with
        | some p =>
            simp [hdrawn, hjoint]
            omega
        | none =>
            simp [hdrawn, hjoint]
            omega
      · simp [hdrawn]

theorem finish_mem_ringsMade {count i : Nat}
    (hi : i ∈ drawnBelow segments count) :
    .finish i ∈ ringsMade segments count := by
  obtain ⟨hlt, hdrawn⟩ := List.mem_filter.mp hi
  refine List.mem_flatMap.mpr ⟨i, hlt, ?_⟩
  rw [ringsMadeFor, if_pos (of_decide_eq_true hdrawn)]
  split <;> simp

theorem start_mem_ringsMade {count i : Nat}
    (hi : i ∈ drawnBelow segments count) (hlone : jointOf? segments i = none) :
    .start i ∈ ringsMade segments count := by
  obtain ⟨hlt, hdrawn⟩ := List.mem_filter.mp hi
  refine List.mem_flatMap.mpr ⟨i, hlt, ?_⟩
  rw [ringsMadeFor, if_pos (of_decide_eq_true hdrawn), hlone]
  exact List.mem_cons_self

/-! ## Rings of a layout -/

/-- The layout has dealt with the first segments: the rings that were made for
them have the numbers from zero on, and a joined segment begins in the last ring
of the one that it is joined to. -/
structure RingLayout.Numbers (segments : Array (Segment K)) (count : Nat)
    (layout : RingLayout K) : Prop where
  size : layout.pairs.size = count
  drawn : ∀ i < count, (∃ pair, layout.pairs[i]? = some (some pair)) ↔
    IsDrawn segments i
  numbered : (ringsMade segments count).map
    (SegmentEnd.ring? layout.pairs) =
      (List.range layout.heights.length).map some
  joined : ∀ i < count, ∀ p, IsDrawn segments i →
    jointOf? segments i = some p →
      (SegmentEnd.start i).ring? layout.pairs =
        (SegmentEnd.finish p).ring? layout.pairs

namespace RingLayout

variable {layout : RingLayout K} {count : Nat} {segment : Segment K}

omit [Trigonometric K] in
theorem Sound.ring?_lt (hsound : layout.Sound) {side : SegmentEnd} {ring : Nat}
    (hring : side.ring? layout.pairs = some ring) :
    ring < layout.heights.length := by
  have hbounds : ∀ {i : Nat} {pair : RingPair},
      layout.pairs[i]?.join = some pair →
        pair.start < pair.finish ∧ pair.finish < layout.heights.length :=
    fun hpair => hsound _
      (mem_drawn_iff.mpr ⟨_, Option.join_eq_some_iff.mp hpair⟩)
  cases side with
  | start i =>
      obtain ⟨pair, hpair, rfl⟩ := Option.map_eq_some_iff.mp hring
      obtain ⟨hlt, hfinish⟩ := hbounds hpair
      exact hlt.trans hfinish
  | finish i =>
      obtain ⟨pair, hpair, rfl⟩ := Option.map_eq_some_iff.mp hring
      exact (hbounds hpair).2

theorem Numbers.length_heights (hnumbers : layout.Numbers segments count) :
    layout.heights.length = (ringsMade segments count).length := by
  have hcount := congrArg List.length hnumbers.numbered
  rw [List.length_map, List.length_map, List.length_range] at hcount
  exact hcount.symm

/-- A layout finds the ring in which the next segment begins just when the
segment is joined. -/
theorem Numbers.startRing_eq (hnumbers : layout.Numbers segments count)
    (hsegment : segments[count]? = some segment) :
    segment.parent.bind layout.endRing? =
      (jointOf? segments count).bind fun p =>
        (SegmentEnd.finish p).ring? layout.pairs := by
  have hparent : segments[count]?.bind Segment.parent = segment.parent := by
    rw [hsegment, Option.bind_some]
  cases hjoint : jointOf? segments count with
  | some p =>
      obtain ⟨hlt, hdrawn, hp⟩ := jointOf?_eq_some_iff.mp hjoint
      obtain ⟨pair, hpair⟩ := (hnumbers.drawn p hlt).mpr hdrawn
      rw [hparent] at hp
      rw [hp, Option.bind_some, Option.bind_some, SegmentEnd.ring?, hpair]
      exact endRing?_eq_some_iff.mpr ⟨Int.natCast_nonneg p, pair, hpair, rfl⟩
  | none =>
      rw [Option.bind_none, Option.bind_eq_none_iff]
      intro parent hsome
      by_contra hring
      obtain ⟨ring, hring⟩ := Option.ne_none_iff_exists'.mp hring
      obtain ⟨hnonneg, pair, hpair, -⟩ := endRing?_eq_some_iff.mp hring
      have hlt : parent.toNat < count := by
        rw [← hnumbers.size]
        exact (Array.getElem?_eq_some_iff.mp hpair).1
      have hdrawn := (hnumbers.drawn _ hlt).mp ⟨pair, hpair⟩
      have hp : jointOf? segments count = some parent.toNat :=
        jointOf?_eq_some_iff.mpr ⟨hlt, hdrawn, by
          rw [hparent, hsome, Int.toNat_of_nonneg hnonneg]⟩
      simp [hjoint] at hp

/-- The next segment adds its rings behind those that there are. -/
theorem Numbers.push (hnumbers : layout.Numbers segments count)
    {pair? : Option RingPair} {heights : List K} {v : K}
    (hdrawn : pair?.isSome ↔ IsDrawn segments count)
    (hnumbered : (ringsMadeFor segments count).map
        (SegmentEnd.ring? (layout.pairs.push pair?)) =
      (List.range heights.length).map
        fun k => some (layout.heights.length + k))
    (hjoined : ∀ pair, pair? = some pair → ∀ p,
      jointOf? segments count = some p →
        (SegmentEnd.finish p).ring? layout.pairs = some pair.start) :
    Numbers segments (count + 1)
      { heights := layout.heights ++ heights
        pairs := layout.pairs.push pair?
        v } := by
  obtain ⟨hsize, hbefore, hnumbers, hjoints⟩ := hnumbers
  have hlast : (layout.pairs.push pair?)[count]? = some pair? := by
    rw [← hsize]
    exact Array.getElem?_push_size
  have hkept : ∀ side : SegmentEnd, side.segment < count →
      side.ring? (layout.pairs.push pair?) = side.ring? layout.pairs :=
    fun side hside => SegmentEnd.ring?_push_of_lt (hsize ▸ hside) pair?
  constructor
  · rw [Array.size_push, hsize]
  · intro i hi
    rcases Nat.lt_succ_iff_lt_or_eq.mp hi with hlt | rfl
    · rw [Array.getElem?_push_lt (hsize ▸ hlt), ← Array.getElem?_eq_getElem]
      exact hbefore i hlt
    · rw [hlast, ← hdrawn, Option.isSome_iff_exists]
      simp
  · have hold : (ringsMade segments count).map
          (SegmentEnd.ring? (layout.pairs.push pair?)) =
        (ringsMade segments count).map (SegmentEnd.ring? layout.pairs) :=
      List.map_congr_left fun side hside =>
        hkept side (segment_lt_of_mem_ringsMade hside)
    rw [ringsMade_succ, List.map_append, hold, hnumbers, hnumbered,
      List.length_append, List.range_add, List.map_append, List.map_map]
    rfl
  · intro i hi p hi' hp
    obtain ⟨hlt, -, -⟩ := jointOf?_eq_some_iff.mp hp
    rw [hkept (.finish p) (hlt.trans_le (Nat.le_of_lt_succ hi))]
    rcases Nat.lt_succ_iff_lt_or_eq.mp hi with hold | rfl
    · rw [hkept (.start i) hold]
      exact hjoints i hold p hi' hp
    · obtain ⟨pair, rfl⟩ := Option.isSome_iff_exists.mp (hdrawn.mpr hi')
      rw [hjoined pair rfl p hp, SegmentEnd.ring?, hlast]
      rfl

theorem Numbers.addSegment (hnumbers : layout.Numbers segments count)
    (hsegment : segments[count]? = some segment) (config : GeometryConfig K) :
    (layout.addSegment config segment).Numbers segments (count + 1) := by
  have hdrawn : IsDrawn segments count ↔
      ¬segment.length < Vec3.smallLength := by
    simp [IsDrawn, hsegment]
  have hstart := hnumbers.startRing_eq hsegment
  have hlast : ∀ pair? : Option RingPair,
      (layout.pairs.push pair?)[count]? = some pair? := by
    intro pair?
    rw [← hnumbers.size]
    exact Array.getElem?_push_size
  unfold RingLayout.addSegment
  by_cases hshort : segment.length < Vec3.smallLength
  · rw [if_pos hshort]
    have hskipped : ¬IsDrawn segments count := fun h => hdrawn.mp h hshort
    have hpush : Numbers segments (count + 1)
        { layout with
          heights := layout.heights ++ []
          pairs := layout.pairs.push none } :=
      hnumbers.push (by simp [hskipped]) (by simp [ringsMadeFor, hskipped])
        (by simp)
    rw [List.append_nil] at hpush
    exact hpush
  rw [if_neg hshort]
  have hlong : IsDrawn segments count := hdrawn.mpr hshort
  cases hjoint : jointOf? segments count with
  | some p =>
      obtain ⟨hlt, hp, -⟩ := jointOf?_eq_some_iff.mp hjoint
      obtain ⟨pair, hpair⟩ := (hnumbers.drawn p hlt).mpr hp
      rw [hjoint, Option.bind_some, SegmentEnd.ring?, hpair] at hstart
      rw [hstart]
      apply hnumbers.push (by simp [hlong])
      · simp [ringsMadeFor, hlong, hjoint, SegmentEnd.ring?, hlast]
      · intro pair' hpair' q hq
        obtain rfl := Option.some.inj hpair'
        obtain rfl := Option.some.inj (hjoint.symm.trans hq)
        rw [SegmentEnd.ring?, hpair]
        rfl
  | none =>
      rw [hjoint, Option.bind_none] at hstart
      rw [hstart]
      apply hnumbers.push (by simp [hlong])
      · simp [ringsMadeFor, hlong, hjoint, SegmentEnd.ring?, hlast,
          List.range_succ]
      · simp [hjoint]

theorem numbers_begin (segments : Array (Segment K)) :
    Numbers segments 0 { v := 0.0 } := by
  constructor <;> simp [ringsMade]

theorem numbers_ofSegments (config : GeometryConfig K)
    (segments : Array (Segment K)) :
    (ofSegments config segments).Numbers segments segments.size := by
  apply Array.foldl_induction
    (fun i (layout : RingLayout K) => layout.Numbers segments i)
  · exact numbers_begin segments
  · intro i layout hnumbers
    exact hnumbers.addSegment (Array.getElem?_eq_getElem i.isLt) config

end RingLayout

/-! ## Rings of a mesh -/

theorem flatMap_range'_blocks (count n : Nat) :
    ((List.range count).flatMap fun k => List.range' (k * n) n) =
      List.range (count * n) := by
  induction count with
  | zero => simp
  | succ count ih =>
      rw [List.range_succ, List.flatMap_append, ih, List.flatMap_singleton,
        Nat.succ_mul, List.range_add, List.range'_eq_map_range]

omit [Trigonometric K] in
theorem Mesh.snd_drawnRings (mesh : Mesh K) :
    mesh.drawnRings.map Prod.snd = mesh.rings.toList.reduceOption := by
  have hpairs : ∀ pairs : List (Option RingPair),
      (pairs.zipIdx.filterMap fun entry =>
        entry.1.map fun pair => (entry.2, pair)).map Prod.snd =
          pairs.reduceOption := by
    intro pairs
    induction pairs using List.reverseRecOn with
    | nil => rfl
    | append_singleton pairs pair? ih =>
        rw [List.zipIdx_append, List.filterMap_append, List.map_append, ih,
          List.reduceOption_append]
        cases pair? <;> rfl
  exact hpairs mesh.rings.toList

omit [Trigonometric K] in
theorem Mesh.fst_drawnRings (mesh : Mesh K) :
    mesh.drawnRings.map Prod.fst =
      (List.range mesh.rings.size).filter fun i =>
        mesh.rings[i]?.join.isSome := by
  have hpairs : ∀ pairs : List (Option RingPair),
      (pairs.zipIdx.filterMap fun entry =>
        entry.1.map fun pair => (entry.2, pair)).map Prod.fst =
          (List.range pairs.length).filter fun i =>
            pairs[i]?.join.isSome := by
    intro pairs
    induction pairs using List.reverseRecOn with
    | nil => rfl
    | append_singleton pairs pair? ih =>
        have hbefore : ∀ i ∈ List.range pairs.length,
            (pairs ++ [pair?])[i]?.join.isSome = pairs[i]?.join.isSome := by
          intro i hi
          rw [List.getElem?_append_left (List.mem_range.mp hi)]
        rw [List.zipIdx_append, List.filterMap_append, List.map_append, ih,
          List.length_append, List.length_singleton, List.range_succ,
          List.filter_append, List.filter_congr hbefore]
        cases pair? <;> simp
  have hrings := hpairs mesh.rings.toList
  simp only [Array.length_toList, Array.getElem?_toList] at hrings
  exact hrings

section Meshes

variable (config : GeometryConfig K) (segments : Array (Segment K))
  (leaves : Array (Leaf K)) (n : Nat) (includeLeaves : Bool)

theorem Mesh.drawn_ofParts :
    (Mesh.ofParts config segments leaves n
      includeLeaves).1.drawnRings.map Prod.fst =
        drawnBelow segments segments.size := by
  have hnumbers := RingLayout.numbers_ofSegments config segments
  rw [Mesh.fst_drawnRings, Mesh.rings_ofParts, Array.size_map, hnumbers.size,
    drawnBelow]
  apply List.filter_congr
  intro i hi
  rw [Bool.eq_iff_iff, decide_eq_true_iff,
    ← hnumbers.drawn i (List.mem_range.mp hi), Array.getElem?_map]
  rcases (RingLayout.ofSegments config segments).pairs[i]? with
    - | - | pair <;> simp

theorem Mesh.ringsMade_ofParts :
    (ringsMade segments segments.size).map (SegmentEnd.ring?
      (Mesh.ofParts config segments leaves n includeLeaves).1.rings) =
        (List.range (ringsMade segments segments.size).length).map
          fun k => some (k * n) := by
  have hnumbers := RingLayout.numbers_ofSegments config segments
  have hscaled := congrArg (List.map (Option.map (· * n))) hnumbers.numbered
  rw [List.map_map, List.map_map] at hscaled
  rw [Mesh.rings_ofParts, ← hnumbers.length_heights]
  apply Eq.trans _ hscaled
  exact List.map_congr_left fun side _ => SegmentEnd.ring?_scale n side

theorem Mesh.branchVertices_eq_made :
    (Mesh.ofParts config segments leaves n includeLeaves).1.branchVertices =
      (ringsMade segments segments.size).length * n := by
  have hnumbers := RingLayout.numbers_ofSegments config segments
  rw [Mesh.branchVertices_ofParts, hnumbers.length_heights]

/-- The rings that are made are blocks of vertices that follow one another. -/
theorem Mesh.blocks_ofParts :
    let mesh := (Mesh.ofParts config segments leaves n includeLeaves).1
    ((ringsMade segments segments.size).flatMap fun side =>
      (side.ring? mesh.rings).elim [] (List.range' · n)) =
        List.range mesh.branchVertices := by
  intro mesh
  have hblocks := congrArg
    (List.flatMap fun ring? => ring?.elim [] (List.range' · n))
    (Mesh.ringsMade_ofParts config segments leaves n includeLeaves)
  rw [List.flatMap_map, List.flatMap_map] at hblocks
  rw [Mesh.branchVertices_eq_made, ← flatMap_range'_blocks]
  exact hblocks

theorem Mesh.branchTriangles_eq_drawn :
    (Mesh.ofParts config segments leaves n includeLeaves).1.branchTriangles =
      2 * n * (drawnBelow segments segments.size).length := by
  have hpairs := congrArg List.length (Mesh.snd_drawnRings
    (Mesh.ofParts config segments leaves n includeLeaves).1)
  rw [List.length_map, Mesh.rings_ofParts, Array.toList_map,
    List.reduceOption_map, List.length_map] at hpairs
  rw [← Mesh.drawn_ofParts config segments leaves n includeLeaves,
    List.length_map, hpairs]
  exact Mesh.branchTriangles_ofParts config segments leaves n includeLeaves

/-- A joined segment begins in the last ring of the one that it is joined to. -/
theorem Mesh.joined_ofParts {i p : Nat}
    (hi : i ∈ drawnBelow segments segments.size)
    (hp : jointOf? segments i = some p) :
    let mesh := (Mesh.ofParts config segments leaves n includeLeaves).1
    (SegmentEnd.start i).ring? mesh.rings =
      (SegmentEnd.finish p).ring? mesh.rings := by
  intro mesh
  obtain ⟨hlt, hdrawn⟩ := List.mem_filter.mp hi
  have hjoined := (RingLayout.numbers_ofSegments config segments).joined i
    (List.mem_range.mp hlt) p (of_decide_eq_true hdrawn) hp
  simp only [mesh, Mesh.rings_ofParts, SegmentEnd.ring?_scale, hjoined]

omit [Trigonometric K] in
theorem Mesh.size_ringPositions {mesh : Mesh K} {first : Nat}
    (hfirst : first + mesh.ringSize ≤ mesh.vertices.size) :
    (mesh.ringPositions first).size = mesh.ringSize := by
  have hplace : ∀ bound : Nat, bound ≤ mesh.vertices.size →
      Mesh.placeOf mesh.vertices.size bound = bound := by
    intro bound hbound
    rw [Mesh.placeOf, if_neg (by omega), Int.toNat_natCast,
      Nat.min_eq_left hbound]
  have hlast := hplace (first + mesh.ringSize) hfirst
  rw [Nat.cast_add] at hlast
  simp only [Mesh.ringPositions]
  rw [hplace first (by omega), hlast, Array.size_extract,
    Nat.min_eq_left hfirst, Nat.add_sub_cancel_left]

/-- A ring of a segment lies within the vertices of the branches. -/
theorem Mesh.ring_le_branchVertices {side : SegmentEnd} {ring : Nat}
    (hring : side.ring? (Mesh.ofParts config segments leaves n
      includeLeaves).1.rings = some ring) :
    ring + n ≤ (Mesh.ofParts config segments leaves n
      includeLeaves).1.branchVertices := by
  rw [Mesh.rings_ofParts, SegmentEnd.ring?_scale] at hring
  obtain ⟨k, hk, rfl⟩ := Option.map_eq_some_iff.mp hring
  have hlt := (RingLayout.sound_ofSegments config segments).ring?_lt hk
  rw [Mesh.branchVertices_ofParts, ← Nat.succ_mul]
  exact Nat.mul_le_mul_right n hlt

end Meshes

/-- The rings of a mesh, whatever the parents of its segments are.  Exactly the
segments that are long enough are drawn.  A drawn segment ends in a ring that is
made for it; it begins in the last ring of its parent if that is an earlier
drawn segment, and otherwise in a ring that is made for it too.  One after the
other, the rings that are made are the blocks of vertices from zero on, and
together they are the vertices of the branches, so the numbers of vertices and
triangles follow; and every ring of a segment has all of its vertices. -/
theorem rings_tile_branch_vertices (config : GeometryConfig K)
    (segments : Array (Segment K)) (leaves : Array (Leaf K)) (requested : Int)
    (includeLeaves : Bool) :
    let n := DetailLevel.ringSizeOf requested
    let mesh := (Mesh.ofParts config segments leaves n includeLeaves).1
    let drawn := drawnBelow segments segments.size
    let lone := loneBelow segments segments.size
    let made := ringsMade segments segments.size
    mesh.drawnRings.map Prod.fst = drawn ∧
      (∀ i ∈ drawn, .finish i ∈ made ∧
        match jointOf? segments i with
        | some p => (SegmentEnd.start i).ring? mesh.rings =
            (SegmentEnd.finish p).ring? mesh.rings
        | none => .start i ∈ made) ∧
      made.map (SegmentEnd.ring? mesh.rings) =
        (List.range made.length).map (fun k => some (k * n)) ∧
      (made.flatMap fun side =>
        (side.ring? mesh.rings).elim [] (List.range' · n)) =
          List.range mesh.branchVertices ∧
      mesh.branchVertices = n * (drawn.length + lone.length) ∧
      mesh.branchTriangles = 2 * n * drawn.length ∧
      ∀ side ring, SegmentEnd.ring? mesh.rings side = some ring →
        (mesh.ringPositions ring).size = n := by
  intro n mesh drawn lone made
  refine ⟨Mesh.drawn_ofParts config segments leaves n includeLeaves, ?_,
    Mesh.ringsMade_ofParts config segments leaves n includeLeaves,
    Mesh.blocks_ofParts config segments leaves n includeLeaves, ?_,
    Mesh.branchTriangles_eq_drawn config segments leaves n includeLeaves, ?_⟩
  · intro i hi
    refine ⟨finish_mem_ringsMade hi, ?_⟩
    cases hjoint : jointOf? segments i with
    | some p =>
        exact Mesh.joined_ofParts config segments leaves n includeLeaves hi
          hjoint
    | none => exact start_mem_ringsMade hi hjoint
  · have hvertices :=
      Mesh.branchVertices_eq_made config segments leaves n includeLeaves
    rw [length_ringsMade, Nat.mul_comm] at hvertices
    exact hvertices
  · intro side ring hring
    have hjoins := Mesh.joins_ofParts config segments leaves n includeLeaves
    have hwithin : ring + n ≤ mesh.branchVertices :=
      Mesh.ring_le_branchVertices config segments leaves n includeLeaves hring
    apply Mesh.size_ringPositions
    rw [hjoins.size_vertices, ← hjoins.branchVertices]
    exact hwithin.trans (Nat.le_add_right _ _)

/-- A segment that names itself is joined to none, and the next one that names
it is joined to it. -/
example :
    let segments := #[Segment.sample, Segment.sample]
    ringsMade segments 2 = [.start 0, .finish 0, .finish 1] ∧
      (Mesh.ofParts .standard segments #[] (DetailLevel.ringSizeOf 4)
        false).1.rings = #[some ⟨0, 4⟩, some ⟨4, 8⟩] := by
  decide +kernel

end TreeGrowth
