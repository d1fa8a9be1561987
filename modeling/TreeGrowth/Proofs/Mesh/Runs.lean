import TreeGrowth.Proofs.Mesh.Layout
import TreeGrowth.Proofs.Turtle.Chain

/-!
# Runs of segments

A segment without length is passed over, so the segments that are drawn fall
into runs.  Along a chain, each drawn segment begins with the ring with which
the one before it ends, as long as the run goes on; a run begins with a ring of
its own, and the ring with which it ends is shared with no later segment.
-/

namespace TreeGrowth

variable {K : Type}

/-! ## Runs -/

/-- From `lo` up to `hi` all have the property, but not the ones next to
them. -/
structure MaximalRun (p : Nat → Prop) (lo hi : Nat) : Prop where
  le : lo ≤ hi
  holds : ∀ i, lo ≤ i → i ≤ hi → p i
  before : ∀ i, i + 1 = lo → ¬p i
  after : ¬p (hi + 1)

theorem exists_run_start {p : Nat → Prop} {i : Nat} (hi : p i) :
    ∃ lo ≤ i, (∀ j, lo ≤ j → j ≤ i → p j) ∧ ∀ j, j + 1 = lo → ¬p j := by
  induction i with
  | zero =>
      refine ⟨0, Nat.le_refl 0, ?_, ?_⟩
      · intro j _ hj
        obtain rfl : j = 0 := by omega
        exact hi
      · intro j hj
        omega
  | succ i ih =>
      by_cases hprevious : p i
      · obtain ⟨lo, hlo, hholds, hbefore⟩ := ih hprevious
        refine ⟨lo, by omega, ?_, hbefore⟩
        intro j hlo hj
        by_cases hlast : j = i + 1
        · rw [hlast]
          exact hi
        · exact hholds j hlo (by omega)
      · refine ⟨i + 1, Nat.le_refl _, ?_, ?_⟩
        · intro j hlo hj
          obtain rfl : j = i + 1 := by omega
          exact hi
        · intro j hj
          obtain rfl : j = i := by omega
          exact hprevious

theorem exists_run_finish {p : Nat → Prop} {bound : Nat}
    (hbound : ∀ i, p i → i < bound) {i : Nat} (hi : p i) :
    ∃ hi ≥ i, (∀ j, i ≤ j → j ≤ hi → p j) ∧ ¬p (hi + 1) := by
  -- The first place past `i` without the property ends the run.
  classical
  have hstops : ∃ d, ¬p (i + d + 1) := by
    refine ⟨bound, fun hp => ?_⟩
    have := hbound _ hp
    omega
  refine ⟨i + Nat.find hstops, Nat.le_add_right _ _, ?_, Nat.find_spec hstops⟩
  intro j hij hj
  by_cases hfirst : j = i
  · rw [hfirst]
    exact hi
  · have hmin := Nat.find_min hstops (m := j - i - 1) (by omega)
    rw [not_not, show i + (j - i - 1) + 1 = j by omega] at hmin
    exact hmin

theorem exists_maximalRun {p : Nat → Prop} {bound : Nat}
    (hbound : ∀ i, p i → i < bound) {i : Nat} (hi : p i) :
    ∃ lo hi, MaximalRun p lo hi ∧ lo ≤ i ∧ i ≤ hi := by
  obtain ⟨lo, hlo, hbelow, hbefore⟩ := exists_run_start hi
  obtain ⟨hi', hhi, habove, hafter⟩ := exists_run_finish hbound hi
  refine ⟨lo, hi', ⟨hlo.trans hhi, ?_, hbefore, hafter⟩, hlo, hhi⟩
  intro j hj hj'
  by_cases hle : j ≤ i
  · exact hbelow j hj hle
  · exact habove j (by omega) hj'

/-! ## Drawn segments -/

variable [Trigonometric K]

/-- The segment is long enough not to be passed over. -/
def IsDrawn (segments : Array (Segment K)) (i : Nat) : Prop :=
  ∃ segment, segments[i]? = some segment ∧
    ¬segment.length < Vec3.smallLength

theorem RingLayout.isSome_pairs_ofSegments (config : GeometryConfig K)
    (segments : Array (Segment K)) :
    (RingLayout.ofSegments config segments).pairs.toList.map Option.isSome =
      segments.toList.map fun segment =>
        !decide (segment.length < Vec3.smallLength) := by
  have hfold : ∀ (segments : List (Segment K)) (layout : RingLayout K),
      (segments.foldl (RingLayout.addSegment config)
          layout).pairs.toList.map Option.isSome =
        layout.pairs.toList.map Option.isSome ++ segments.map fun segment =>
          !decide (segment.length < Vec3.smallLength) := by
    intro segments
    induction segments with
    | nil => simp
    | cons segment segments ih =>
        intro layout
        rw [List.foldl_cons, ih, List.map_cons, List.append_cons]
        congr 1
        unfold RingLayout.addSegment
        by_cases hshort : segment.length < Vec3.smallLength
        · simp [hshort]
        · cases segment.parent.bind layout.endRing? <;> simp [hshort]
  rw [RingLayout.ofSegments, ← Array.foldl_toList, hfold]
  rfl

theorem RingLayout.exists_pair_iff (config : GeometryConfig K)
    (segments : Array (Segment K)) (i : Nat) :
    (∃ pair : RingPair,
        (RingLayout.ofSegments config segments).pairs[i]? = some (some pair)) ↔
      IsDrawn segments i := by
  have hsome := congrArg (·[i]?)
    (RingLayout.isSome_pairs_ofSegments config segments)
  simp only [List.getElem?_map, Array.getElem?_toList] at hsome
  constructor
  · rintro ⟨pair, hpair⟩
    rw [hpair, Option.map_some] at hsome
    obtain ⟨segment, hsegment, hlong⟩ := Option.map_eq_some_iff.mp hsome.symm
    exact ⟨segment, hsegment, by simpa using hlong⟩
  · rintro ⟨segment, hsegment, hlong⟩
    rw [hsegment, Option.map_some] at hsome
    obtain ⟨pair?, hpair, hdrawn⟩ := Option.map_eq_some_iff.mp hsome
    obtain ⟨pair, rfl⟩ := Option.isSome_iff_exists.mp
      (hdrawn.trans (by simpa using hlong))
    exact ⟨pair, hpair⟩

/-! ## Rings along a chain -/

namespace RingLayout

variable {layout : RingLayout K}

omit [Trigonometric K] in
/-- A later segment begins no earlier than where an earlier one ends, and just
there if it is the next one. -/
def Linked (layout : RingLayout K) : Prop :=
  ∀ (i j : Nat) (p q : RingPair), i < j →
    layout.pairs[i]? = some (some p) → layout.pairs[j]? = some (some q) →
      p.finish ≤ q.start ∧ (p.finish = q.start ↔ j = i + 1)

omit [Trigonometric K] in
theorem Linked.push (hlinked : layout.Linked) {heights : List K} {v : K}
    {pair? : Option RingPair}
    (hpair : ∀ q, pair? = some q → ∀ (i : Nat) (p : RingPair),
      layout.pairs[i]? = some (some p) →
        p.finish ≤ q.start ∧
          (p.finish = q.start ↔ layout.pairs.size = i + 1)) :
    Linked { heights, pairs := layout.pairs.push pair?, v } := by
  intro i j p q hlt hp hq
  simp only [Array.getElem?_push] at hp hq
  by_cases hj : j = layout.pairs.size
  · rw [if_pos hj] at hq
    rw [if_neg (by omega)] at hp
    rw [hj]
    exact hpair q (Option.some.inj hq) i p hp
  · rw [if_neg hj] at hq
    obtain ⟨hsize, _⟩ := Array.getElem?_eq_some_iff.mp hq
    rw [if_neg (by omega)] at hp
    exact hlinked i j p q hlt hp hq

theorem Linked.addSegment (hlinked : layout.Linked) (hsound : layout.Sound)
    (config : GeometryConfig K) {segment : Segment K}
    (hparent : segment.parent = if layout.pairs.size = 0 then none
      else some ((layout.pairs.size - 1 : Nat) : Int)) :
    (layout.addSegment config segment).Linked := by
  have hbounds : ∀ {i : Nat} {p : RingPair},
      layout.pairs[i]? = some (some p) →
        p.start < p.finish ∧ p.finish < layout.heights.length :=
    fun hp => hsound _ (mem_drawn_iff.mpr ⟨_, hp⟩)
  unfold RingLayout.addSegment
  split
  next => exact hlinked.push (by simp)
  next =>
    split
    next start hstart =>
      -- The segment goes on where the one before it ends.
      obtain ⟨parent, hsome, hend⟩ := Option.bind_eq_some_iff.mp hstart
      obtain ⟨_, previous, hprevious, rfl⟩ := endRing?_eq_some_iff.mp hend
      have hsize : layout.pairs.size ≠ 0 := by
        rintro hzero
        rw [hparent, if_pos hzero] at hsome
        simp at hsome
      rw [hparent, if_neg hsize] at hsome
      obtain rfl := Option.some.inj hsome
      rw [Int.toNat_natCast] at hprevious
      apply hlinked.push
      rintro q hq i p hp
      obtain rfl := Option.some.inj hq
      obtain ⟨hi, _⟩ := Array.getElem?_eq_some_iff.mp hp
      by_cases hlast : i + 1 = layout.pairs.size
      · obtain rfl : layout.pairs.size - 1 = i := by omega
        obtain rfl : p = previous := by
          rw [hprevious] at hp
          exact (Option.some.inj (Option.some.inj hp)).symm
        exact ⟨Nat.le_refl _, by simp [hlast]⟩
      · have hle := (hlinked i _ p previous (by omega) hp hprevious).1
        have hrings := (hbounds hprevious).1
        simp only
        omega
    next hnone =>
      -- The segment before it, if there is one, is not drawn.
      apply hlinked.push
      rintro q hq i p hp
      obtain rfl := Option.some.inj hq
      have hfinish := (hbounds hp).2
      have hgap : layout.pairs.size ≠ i + 1 := by
        intro hlast
        have hring : layout.endRing? ((i : Nat) : Int) = some p.finish :=
          endRing?_eq_some_iff.mpr
            ⟨Int.natCast_nonneg i, p, by simpa using hp, rfl⟩
        rw [hparent, if_neg (by omega), hlast, Nat.add_sub_cancel,
          Option.bind_some, hring] at hnone
        simp at hnone
      simp only
      omega

/-- The layout of a chain joins each run of drawn segments, and no more. -/
theorem linked_ofSegments (config : GeometryConfig K)
    {segments : Array (Segment K)} (hchained : Chained segments) :
    (ofSegments config segments).Linked := by
  have hall : (ofSegments config segments).pairs.size = segments.size ∧
      (ofSegments config segments).Sound ∧
      (ofSegments config segments).Linked := by
    apply Array.foldl_induction (fun i (layout : RingLayout K) =>
      layout.pairs.size = i ∧ layout.Sound ∧ layout.Linked)
    · refine ⟨rfl, ?_, ?_⟩
      · intro pair hpair
        simp [drawn] at hpair
      · intro i j p q _ hp
        simp at hp
    · rintro i layout ⟨hsize, hsound, hlinked⟩
      refine ⟨?_, hsound.addSegment config _, ?_⟩
      · rw [RingLayout.size_pairs_addSegment, hsize]
      · apply hlinked.addSegment hsound config
        rw [hsize]
        exact hchained i i.isLt
  exact hall.2.2

omit [Trigonometric K] in
theorem Linked.finish_eq_start_iff (hlinked : layout.Linked)
    (hsound : layout.Sound) {i j : Nat} {p q : RingPair}
    (hp : layout.pairs[i]? = some (some p))
    (hq : layout.pairs[j]? = some (some q)) :
    p.finish = q.start ↔ j = i + 1 := by
  have hpair := (hsound p (mem_drawn_iff.mpr ⟨i, hp⟩)).1
  have hpair' := (hsound q (mem_drawn_iff.mpr ⟨j, hq⟩)).1
  rcases Nat.lt_trichotomy i j with hlt | heq | hgt
  · exact (hlinked i j p q hlt hp hq).2
  · rw [heq, hq] at hp
    obtain rfl := Option.some.inj (Option.some.inj hp)
    omega
  · have hle := (hlinked j i q p hgt hq hp).1
    omega

omit [Trigonometric K] in
theorem Linked.pairwise_drawn (hlinked : layout.Linked) :
    layout.drawn.Pairwise fun p q => p.finish ≤ q.start := by
  rw [drawn, List.reduceOption, List.pairwise_filterMap,
    List.pairwise_iff_getElem]
  intro i j hi hj hlt p hp q hq
  apply (hlinked i j p q hlt _ _).1
  · rw [← Array.getElem?_toList, List.getElem?_eq_getElem hi]
    exact congrArg some hp
  · rw [← Array.getElem?_toList, List.getElem?_eq_getElem hj]
    exact congrArg some hq

section Chains

variable (config : GeometryConfig K) {segments : Array (Segment K)}
  (hchained : Chained segments) {p : RingPair}

theorem exists_run_of_pair {i : Nat}
    (hp : (ofSegments config segments).pairs[i]? = some (some p)) :
    ∃ lo hi, MaximalRun (IsDrawn segments) lo hi ∧ lo ≤ i ∧ i ≤ hi := by
  have hbound : ∀ j, IsDrawn segments j → j < segments.size := by
    rintro j ⟨segment, hsegment, _⟩
    exact (Array.getElem?_eq_some_iff.mp hsegment).1
  exact exists_maximalRun hbound ((exists_pair_iff config segments i).mp ⟨p, hp⟩)

include hchained

/-- The first rings of the maximal runs are those that end no segment. -/
theorem starts_run_iff :
    (p ∈ (ofSegments config segments).drawn ∧
        ∀ q ∈ (ofSegments config segments).drawn, q.finish ≠ p.start) ↔
      ∃ lo hi, MaximalRun (IsDrawn segments) lo hi ∧
        (ofSegments config segments).pairs[lo]? = some (some p) := by
  have hlinked := linked_ofSegments config hchained
  have hsound := sound_ofSegments config segments
  constructor
  · rintro ⟨hp, halone⟩
    obtain ⟨i, hp⟩ := mem_drawn_iff.mp hp
    obtain ⟨lo, hi, hrun, hlo, hhi⟩ := exists_run_of_pair config hp
    obtain rfl : i = lo := by
      by_contra hne
      obtain ⟨j, rfl⟩ : ∃ j, i = j + 1 := ⟨i - 1, by omega⟩
      obtain ⟨q, hq⟩ := (exists_pair_iff config segments j).mpr
        (hrun.holds j (by omega) (by omega))
      exact halone q (mem_drawn_iff.mpr ⟨j, hq⟩)
        ((hlinked.finish_eq_start_iff hsound hq hp).mpr rfl)
    exact ⟨i, hi, hrun, hp⟩
  · rintro ⟨lo, hi, hrun, hp⟩
    refine ⟨mem_drawn_iff.mpr ⟨lo, hp⟩, ?_⟩
    intro q hq hring
    obtain ⟨j, hq⟩ := mem_drawn_iff.mp hq
    have hnext := (hlinked.finish_eq_start_iff hsound hq hp).mp hring
    exact hrun.before j hnext.symm
      ((exists_pair_iff config segments j).mp ⟨q, hq⟩)

/-- The last rings of the maximal runs are those that begin no segment. -/
theorem finishes_run_iff :
    (p ∈ (ofSegments config segments).drawn ∧
        ∀ q ∈ (ofSegments config segments).drawn, q.start ≠ p.finish) ↔
      ∃ lo hi, MaximalRun (IsDrawn segments) lo hi ∧
        (ofSegments config segments).pairs[hi]? = some (some p) := by
  have hlinked := linked_ofSegments config hchained
  have hsound := sound_ofSegments config segments
  constructor
  · rintro ⟨hp, halone⟩
    obtain ⟨i, hp⟩ := mem_drawn_iff.mp hp
    obtain ⟨lo, hi, hrun, hlo, hhi⟩ := exists_run_of_pair config hp
    obtain rfl : i = hi := by
      by_contra hne
      obtain ⟨q, hq⟩ := (exists_pair_iff config segments (i + 1)).mpr
        (hrun.holds (i + 1) (by omega) (by omega))
      exact halone q (mem_drawn_iff.mpr ⟨i + 1, hq⟩)
        ((hlinked.finish_eq_start_iff hsound hp hq).mpr rfl).symm
    exact ⟨lo, i, hrun, hp⟩
  · rintro ⟨lo, hi, hrun, hp⟩
    refine ⟨mem_drawn_iff.mpr ⟨hi, hp⟩, ?_⟩
    intro q hq hring
    obtain ⟨j, hq⟩ := mem_drawn_iff.mp hq
    have hnext := (hlinked.finish_eq_start_iff hsound hp hq).mp hring.symm
    exact hrun.after
      (hnext ▸ (exists_pair_iff config segments j).mp ⟨q, hq⟩)

end Chains

end RingLayout

end TreeGrowth
