import TreeGrowth.Proofs.Mesh.Size

/-!
# Bark across the joints

The texture of the bark moves on with the length of every drawn segment, in the
order of the segments, while the ring in which a segment begins is found by its
parent.  Along a chain the two agree: the last ring of the segment before ends
just where the texture has come to, also behind a branch that has ended, and
where that segment is not drawn, a ring is made at the same height.
-/

namespace TreeGrowth

variable {K : Type} [Trigonometric K]

/-! ## Heights of the bark -/

/-- How far the texture has moved over the drawn ones of the first segments. -/
def barkHeight (config : GeometryConfig K) (segments : Array (Segment K))
    (count : Nat) : K :=
  ((segments.toList.take count).filter fun segment =>
      !decide (segment.length < Vec3.smallLength)).foldl
    (fun v segment => v + segment.length * config.barkTiling / 100.0) 0.0

section Heights

variable (config : GeometryConfig K) {segments : Array (Segment K)}
  {segment : Segment K} {i : Nat}

theorem barkHeight_succ_of_drawn (hsegment : segments[i]? = some segment)
    (hlong : ¬segment.length < Vec3.smallLength) :
    barkHeight config segments (i + 1) =
      barkHeight config segments i +
        segment.length * config.barkTiling / 100.0 := by
  rw [← Array.getElem?_toList] at hsegment
  rw [barkHeight, List.take_add_one, hsegment, List.filter_append,
    List.foldl_append]
  simp [barkHeight, hlong]

theorem barkHeight_succ_of_short (hsegment : segments[i]? = some segment)
    (hshort : segment.length < Vec3.smallLength) :
    barkHeight config segments (i + 1) = barkHeight config segments i := by
  rw [← Array.getElem?_toList] at hsegment
  rw [barkHeight, List.take_add_one, hsegment, List.filter_append,
    List.foldl_append]
  simp [barkHeight, hshort]

end Heights

/-! ## Heights of the rings -/

namespace RingLayout

/-- The layout has dealt with the first segments, and each of them that is drawn
begins and ends at the height that the texture has there. -/
structure Seamless (config : GeometryConfig K) (segments : Array (Segment K))
    (count : Nat) (layout : RingLayout K) : Prop where
  size : layout.pairs.size = count
  v : layout.v = barkHeight config segments count
  heights : ∀ (i : Nat) (pair : RingPair),
    layout.pairs[i]? = some (some pair) →
      layout.heights[pair.start]? = some (barkHeight config segments i) ∧
        layout.heights[pair.finish]? =
          some (barkHeight config segments (i + 1))

variable {config : GeometryConfig K} {segments : Array (Segment K)}
  {layout : RingLayout K} {count : Nat} {segment : Segment K}

theorem Seamless.push (hseamless : layout.Seamless config segments count)
    {heights : List K} {pair : RingPair}
    (hstart : (layout.heights ++ heights)[pair.start]? =
      some (barkHeight config segments count))
    (hfinish : (layout.heights ++ heights)[pair.finish]? =
      some (barkHeight config segments (count + 1))) :
    Seamless config segments (count + 1)
      { heights := layout.heights ++ heights
        pairs := layout.pairs.push (some pair)
        v := barkHeight config segments (count + 1) } := by
  obtain ⟨hsize, -, hrings⟩ := hseamless
  -- A ring that has a height keeps it.
  have hkept : ∀ {ring : Nat} {height : K},
      layout.heights[ring]? = some height →
        (layout.heights ++ heights)[ring]? = some height := by
    intro ring height hheight
    obtain ⟨hlt, -⟩ := List.getElem?_eq_some_iff.mp hheight
    rw [List.getElem?_append_left hlt, hheight]
  refine ⟨by rw [Array.size_push, hsize], rfl, ?_⟩
  intro i q hq
  rw [Array.getElem?_push, hsize] at hq
  by_cases hlast : i = count
  · rw [if_pos hlast, Option.some_inj, Option.some_inj] at hq
    rw [hlast, ← hq]
    exact ⟨hstart, hfinish⟩
  · rw [if_neg hlast] at hq
    obtain ⟨hbegun, hended⟩ := hrings i q hq
    exact ⟨hkept hbegun, hkept hended⟩

theorem Seamless.addSegment (hseamless : layout.Seamless config segments count)
    (hsegment : segments[count]? = some segment)
    (hparent : segment.parent = if count = 0 then none
      else some ((count - 1 : Nat) : Int)) :
    (layout.addSegment config segment).Seamless config segments
      (count + 1) := by
  have hsize := hseamless.size
  have hv := hseamless.v
  rw [← hsize] at hparent
  unfold RingLayout.addSegment
  by_cases hshort : segment.length < Vec3.smallLength
  · have hheight := barkHeight_succ_of_short config hsegment hshort
    rw [if_pos hshort]
    refine ⟨by rw [Array.size_push, hsize], hv.trans hheight.symm, ?_⟩
    intro i pair hpair
    rw [Array.getElem?_push] at hpair
    split at hpair
    next => simp at hpair
    next => exact hseamless.heights i pair hpair
  have hheight := barkHeight_succ_of_drawn config hsegment hshort
  rw [if_neg hshort, startRing_eq hparent, hv]
  simp only [← hheight]
  cases hlast : layout.last? with
  | some previous =>
      -- The segment before is drawn, and its last ring has this height.
      rw [last?, Array.back?, Option.join_eq_some_iff] at hlast
      obtain ⟨hlt, -⟩ := Array.getElem?_eq_some_iff.mp hlast
      have hjoint := (hseamless.heights _ previous hlast).2
      rw [hsize, Nat.sub_add_cancel (by omega)] at hjoint
      obtain ⟨hin, -⟩ := List.getElem?_eq_some_iff.mp hjoint
      apply hseamless.push
      · rw [List.getElem?_append_left hin, hjoint]
      · simp
  | none =>
      apply hseamless.push
      · simp
      · simp

theorem seamless_ofSegments (config : GeometryConfig K)
    (hchained : Chained segments) :
    (ofSegments config segments).Seamless config segments segments.size := by
  apply Array.foldl_induction (fun i (layout : RingLayout K) =>
    layout.Seamless config segments i)
  · refine ⟨rfl, ?_, ?_⟩
    · simp [barkHeight]
    · intro i pair hpair
      simp at hpair
  · intro i layout hseamless
    exact hseamless.addSegment (Array.getElem?_eq_getElem i.isLt)
      (hchained i i.isLt)

end RingLayout

/-! ## Bark of a mesh -/

/-- The segments of a chain that are long enough begin where the texture has
come to over the ones before, and end where it has moved on by their length. -/
theorem Mesh.bark_ofParts (config : GeometryConfig K)
    {segments : Array (Segment K)} (hchained : Chained segments)
    (leaves : Array (Leaf K)) (n : Nat) (includeLeaves : Bool) {i : Nat}
    {segment : Segment K} (hsegment : segments[i]? = some segment)
    (hlong : ¬segment.length < Vec3.smallLength) :
    let mesh := (Mesh.ofParts config segments leaves n includeLeaves).1
    ∃ pair, mesh.rings[i]? = some (some pair) ∧ ∀ k < n,
      (mesh.uvs[pair.start + k]?).map Prod.snd =
        some (barkHeight config segments i) ∧
      (mesh.uvs[pair.finish + k]?).map Prod.snd =
        some (barkHeight config segments i +
          segment.length * config.barkTiling / 100.0) := by
  intro mesh
  have hseamless := RingLayout.seamless_ofSegments config hchained
  obtain ⟨pair, hpair⟩ := (RingLayout.exists_pair_iff config segments i).mpr
    ⟨segment, hsegment, hlong⟩
  obtain ⟨hstart, hfinish⟩ := hseamless.heights i pair hpair
  rw [barkHeight_succ_of_drawn config hsegment hlong] at hfinish
  refine ⟨pair.scale n, ?_, fun k hk => ⟨?_, ?_⟩⟩
  · simp only [mesh, Mesh.rings_ofParts]
    rw [Array.getElem?_map, hpair]
    rfl
  · exact Mesh.uv_snd_ofParts config segments leaves n includeLeaves hstart hk
  · exact Mesh.uv_snd_ofParts config segments leaves n includeLeaves hfinish hk

/-- In the mesh of every drawing, each segment that is long enough begins in a
ring of which all vertices have the height that the texture has come to over the
drawn segments before it, whether that ring was there or is made for it, and it
ends in a ring where the texture has moved on by its own length. -/
theorem bark_continues_across_joints {G : Type} [RandomSource G K]
    (c : TurtleConfig K) (source : G) (word : Word) (config : GeometryConfig K)
    (leaves : Array (Leaf K)) (requested : Int) (includeLeaves : Bool) :
    (c.WellShaped → ∃ drawing,
      (Walk.interpretFrom c source word).1 = .ok drawing) ∧
    ∀ drawing, (Walk.interpretFrom c source word).1 = .ok drawing →
      let n := DetailLevel.ringSizeOf requested
      let mesh :=
        (Mesh.ofParts config drawing.segments leaves n includeLeaves).1
      ∀ (i : Nat) (segment : Segment K),
        drawing.segments[i]? = some segment →
          ¬segment.length < Vec3.smallLength →
            ∃ pair, mesh.rings[i]? = some (some pair) ∧ ∀ k < n,
              (mesh.uvs[pair.start + k]?).map Prod.snd =
                some (barkHeight config drawing.segments i) ∧
              (mesh.uvs[pair.finish + k]?).map Prod.snd =
                some (barkHeight config drawing.segments i +
                  segment.length * config.barkTiling / 100.0) := by
  constructor
  · intro hshape
    obtain ⟨w, hdraws⟩ := Walk.exists_draws hshape source word
    exact ⟨w.interpretation, by rw [hdraws.interpretFrom]⟩
  · intro drawing hdrawing n mesh i segment hsegment hlong
    obtain ⟨w, hdraws, rfl⟩ := Walk.exists_draws_of_interpretFrom hdrawing
    have hchained : Chained w.interpretation.segments :=
      hdraws.leavesChain.chained
    exact Mesh.bark_ofParts config hchained leaves n includeLeaves hsegment
      hlong

/-- After a branch that has ended, the next segment begins at the height that
the trunk and the branch have come to together. -/
theorem bark_continues_across_joints_sample :
    ∃ drawing : Interpretation Float,
      (Walk.interpretFrom .standard (Pcg64.ofEntropy 7)
        "F[F]F".toList).1 = .ok drawing ∧
      let mesh := (Mesh.ofParts .standard drawing.segments #[Leaf.sample]
        (DetailLevel.ringSizeOf 1) true).1
      ∃ segment, drawing.segments[2]? = some segment ∧
        ¬segment.length < Vec3.smallLength ∧
        ∃ pair, mesh.rings[2]? = some (some pair) ∧
          (mesh.uvs[pair.start + 1]?).map Prod.snd = some 0.2 := by
  obtain ⟨hexists, hbark⟩ := bark_continues_across_joints (K := Float)
    .standard (Pcg64.ofEntropy 7) "F[F]F".toList .standard #[Leaf.sample] 1 true
  obtain ⟨drawing, hdrawing⟩ := hexists ⟨rfl, rfl, rfl⟩
  have hmeasured : ((Walk.interpretFrom .standard (Pcg64.ofEntropy 7)
      "F[F]F".toList).1.map fun drawing : Interpretation Float =>
        (drawing.segments[2]?.map Segment.length,
          barkHeight .standard drawing.segments 2)).toOption =
      some (some 10.0, 0.2) := by
    decide +kernel
  rw [hdrawing] at hmeasured
  obtain ⟨hlength, hheight⟩ := Prod.mk.inj (Option.some.inj hmeasured)
  obtain ⟨segment, hsegment, hlength⟩ := Option.map_eq_some_iff.mp hlength
  have hlong : ¬segment.length < Vec3.smallLength := by
    rw [hlength]
    decide +kernel
  obtain ⟨pair, hpair, hheights⟩ :=
    hbark drawing hdrawing 2 segment hsegment hlong
  have hstart := (hheights 1 (by decide)).1
  rw [hheight] at hstart
  exact ⟨drawing, hdrawing, segment, hsegment, hlong, pair, hpair, hstart⟩

end TreeGrowth
