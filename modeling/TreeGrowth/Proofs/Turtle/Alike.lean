import TreeGrowth.Proofs.Turtle.Width

/-!
# Dice and geometry of a drawing

What a drawing draws from its source depends on which parameters are random,
and never on angles, lengths, widths or places.  Two drawings of one word whose
dice are alike therefore walk in step: they skip the same branches, are as deep
at every symbol and turn their leaves alike, however far their geometry parts.
-/

namespace TreeGrowth

variable {K G : Type} [Trigonometric K] [RandomSource G K]
  {c d : TurtleConfig K}

/-! ## Dice that are alike -/

omit [RandomSource G K] in
/-- The same parameters are random in both configurations, and a branch has the
same chance: no number tells the two chances apart.  A range of angles is
random unless its bounds are in descending order or equal. -/
structure TurtleConfig.SameDice (c d : TurtleConfig K) : Prop where
  branchProbability : ∀ u, c.branchProbability < u ↔ d.branchProbability < u
  stepVariation : 0.0 < c.stepVariation ↔ 0.0 < d.stepVariation
  turnVariation : c.turnVariation.2 ≤ c.turnVariation.1 ↔
    d.turnVariation.2 ≤ d.turnVariation.1
  pitchVariation : c.pitchVariation.2 ≤ c.pitchVariation.1 ↔
    d.pitchVariation.2 ≤ d.pitchVariation.1
  pitchFlipProbability :
    0.0 < c.pitchFlipProbability ↔ 0.0 < d.pitchFlipProbability
  initialRoll : 0.0 < c.initialRoll ↔ 0.0 < d.initialRoll

theorem Walk.source_jitter {range range' : K × K}
    (hrange : range.2 ≤ range.1 ↔ range'.2 ≤ range'.1) (source : G) :
    (Walk.jitter range source).2 = (Walk.jitter range' source).2 := by
  rw [Walk.jitter, Walk.jitter]
  by_cases hnone : range.2 ≤ range.1
  · rw [if_pos hnone, if_pos (hrange.mp hnone)]
  · rw [if_neg hnone, if_neg (hrange.not.mp hnone)]
    rfl

theorem Walk.source_stepLength (hdice : c.SameDice d) (source : G) :
    (Walk.stepLength c source).2 = (Walk.stepLength d source).2 := by
  rw [Walk.stepLength, Walk.stepLength]
  by_cases hvaried : 0.0 < c.stepVariation
  · rw [if_pos hvaried, if_pos (hdice.stepVariation.mp hvaried)]
    rfl
  · rw [if_neg hvaried, if_neg (hdice.stepVariation.not.mp hvaried)]

theorem TurtleConfig.SameDice.skips_iff (hdice : c.SameDice d) (source : G) :
    c.Skips source ↔ d.Skips source :=
  and_congr (hdice.branchProbability _) (hdice.branchProbability _)

theorem TurtleConfig.SameDice.afterRoll_eq (hdice : c.SameDice d)
    (source : G) : c.afterRoll source = d.afterRoll source := by
  rw [TurtleConfig.afterRoll, TurtleConfig.afterRoll]
  exact if_congr (hdice.branchProbability _) rfl rfl

/-! ## Walks that are alike -/

/-- The part of a leaf that is drawn or counted. -/
def Leaf.outline (leaf : Leaf K) : K × Nat :=
  (leaf.rotation, leaf.depth)

/-- The part of a segment that is counted. -/
def Segment.outline (segment : Segment K) : Nat × Option Int :=
  (segment.depth, segment.parent)

/-- Two walks with the same source and the same counts; they may be anywhere,
and turned and as wide as they like. -/
structure Walk.Alike (w v : Walk K G) : Prop where
  source : w.source = v.source
  depth : w.cursor.depth = v.cursor.depth
  saved : w.stack.map (fun cursor => cursor.depth) =
    v.stack.map (fun cursor => cursor.depth)
  skipDepth : w.skipDepth = v.skipDepth
  maxDepth : w.maxDepth = v.maxDepth
  symbols : w.symbols = v.symbols
  unmatched : w.unmatched = v.unmatched
  leaves : w.leaves.map Leaf.outline = v.leaves.map Leaf.outline

variable {w v w' v' : Walk K G}

theorem Walk.Alike.forward (hdice : c.SameDice d) (halike : w.Alike v)
    {isDrawn : Bool} (hw : w.forward c isDrawn = .ok w')
    (hv : v.forward d isDrawn = .ok v') : w'.Alike v' := by
  obtain ⟨basis, rfl⟩ := Walk.exists_eq_of_forward hw
  obtain ⟨basis', rfl⟩ := Walk.exists_eq_of_forward hv
  have hsource := Walk.source_stepLength hdice v.source
  exact { halike with
    source := by
      change (Walk.stepLength c w.source).2 = (Walk.stepLength d v.source).2
      rw [halike.source, hsource] }

theorem Walk.Alike.push (hdice : c.SameDice d) (halike : w.Alike v) :
    (w.push c).Alike (v.push d) := by
  have hsource : c.afterRoll w.source = d.afterRoll v.source := by
    rw [halike.source, hdice.afterRoll_eq]
  have hskips : c.Skips w.source ↔ d.Skips v.source := by
    rw [halike.source, hdice.skips_iff]
  by_cases hskip : c.Skips w.source
  · rw [Walk.push_of_skips hskip, Walk.push_of_skips (hskips.mp hskip)]
    exact { halike with source := hsource, skipDepth := rfl }
  · rw [Walk.push_of_not_skips hskip,
      Walk.push_of_not_skips (hskips.not.mp hskip)]
    exact { halike with
      source := hsource
      depth := congrArg (· + 1) halike.depth
      saved := congrArg₂ List.cons halike.depth halike.saved
      maxDepth := by
        change max w.maxDepth (w.cursor.depth + 1) =
          max v.maxDepth (v.cursor.depth + 1)
        rw [halike.maxDepth, halike.depth] }

omit [Trigonometric K] [RandomSource G K] in
theorem Walk.Alike.pop (halike : w.Alike v) : w.pop.Alike v.pop := by
  have hsaved := halike.saved
  unfold Walk.pop
  split
  next cursor below hw =>
    rw [hw, List.map_cons] at hsaved
    obtain ⟨cursor', below', hv, hdepth, hbelow⟩ :=
      List.map_eq_cons_iff.mp hsaved.symm
    rw [hv]
    exact { halike with depth := hdepth.symm, saved := hbelow.symm }
  next hw =>
    have hv : v.stack = [] := by
      rw [hw, List.map_nil] at hsaved
      exact List.map_eq_nil_iff.mp hsaved.symm
    simp only [hv]
    exact { halike with
      saved := by
        change w.stack.map _ = [].map _
        rw [hw]
      unmatched := congrArg₂ Array.push halike.unmatched halike.symbols }

omit [Trigonometric K] [RandomSource G K] in
theorem Walk.Alike.skip (halike : w.Alike v) (symbol : Char) :
    (w.skip symbol).Alike (v.skip symbol) := by
  unfold Walk.skip
  split
  next =>
    exact { halike with skipDepth := congrArg (· + 1) halike.skipDepth }
  next =>
    split
    next =>
      exact { halike with skipDepth := congrArg (· - 1) halike.skipDepth }
    next => exact halike

theorem Walk.Alike.placeLeaf (halike : w.Alike v) :
    (w.placeLeaf c).Alike (v.placeLeaf d) := by
  have hunit : RandomSource.unit w.source = RandomSource.unit v.source := by
    rw [halike.source]
  exact { halike with
    source := congrArg Prod.snd hunit
    leaves := by
      simp only [Walk.placeLeaf, Array.map_push, halike.leaves, Leaf.outline,
        halike.source, halike.depth] }

theorem Walk.Alike.pitch (hdice : c.SameDice d) (halike : w.Alike v)
    (angle angle' : K) : (w.pitch c angle).Alike (v.pitch d angle') := by
  have hsource : ∀ (c : TurtleConfig K) (w : Walk K G) (angle : K),
      (w.pitch c angle).source =
        (Walk.jitter c.pitchVariation
          (if 0.0 < c.pitchFlipProbability then
            (RandomSource.unit w.source).2 else w.source)).2 := by
    intro c w angle
    unfold Walk.pitch
    by_cases hflip : 0.0 < c.pitchFlipProbability
    · simp only [if_pos hflip]
      rfl
    · simp only [if_neg hflip]
      rfl
  exact { halike with
    source := by
      rw [hsource, hsource, halike.source,
        if_congr hdice.pitchFlipProbability rfl rfl]
      exact Walk.source_jitter hdice.pitchVariation _ }

theorem Walk.Alike.jittered (hdice : c.SameDice d) (halike : w.Alike v) :
    (Walk.jitter c.turnVariation w.source).2 =
      (Walk.jitter d.turnVariation v.source).2 := by
  rw [halike.source]
  exact Walk.source_jitter hdice.turnVariation v.source

theorem Walk.Alike.obey (hdice : c.SameDice d) (halike : w.Alike v)
    {command : TurtleCommand} (hw : w.obey c command = .ok w')
    (hv : v.obey d command = .ok v') : w'.Alike v' := by
  cases command with
  | draw => exact halike.forward hdice hw hv
  | move => exact halike.forward hdice hw hv
  | yawLeft | yawRight | rollLeft | rollRight =>
      obtain rfl := Except.ok.inj hw
      obtain rfl := Except.ok.inj hv
      exact { halike with source := halike.jittered hdice }
  | pitchUp | pitchDown =>
      obtain rfl := Except.ok.inj hw
      obtain rfl := Except.ok.inj hv
      exact halike.pitch hdice _ _
  | turnAround =>
      obtain rfl := Except.ok.inj hw
      obtain rfl := Except.ok.inj hv
      exact { halike with }
  | push =>
      obtain rfl := Except.ok.inj hw
      obtain rfl := Except.ok.inj hv
      exact halike.push hdice
  | pop =>
      obtain rfl := Except.ok.inj hw
      obtain rfl := Except.ok.inj hv
      exact halike.pop
  | leaf =>
      obtain rfl := Except.ok.inj hw
      obtain rfl := Except.ok.inj hv
      exact halike.placeLeaf

theorem Walk.Alike.step (hdice : c.SameDice d) (halike : w.Alike v)
    {symbol : Char} (hw : w.step c symbol = .ok w')
    (hv : v.step d symbol = .ok v') : w'.Alike v' := by
  have hcounted : ∀ {w v : Walk K G}, w.Alike v →
      Walk.Alike { w with symbols := w.symbols + 1 }
        { v with symbols := v.symbols + 1 } :=
    fun halike =>
      { halike with symbols := congrArg (· + 1) halike.symbols }
  have hskip := halike.skipDepth
  cases Walk.passes_of_step hw with
  | skipped hskipped =>
      cases Walk.passes_of_step hv with
      | skipped _ => exact hcounted (halike.skip symbol)
      | ignored hdrawn _ => omega
      | obeyed hdrawn _ _ => omega
  | ignored hdrawn hnone =>
      cases Walk.passes_of_step hv with
      | skipped hskipped => omega
      | ignored _ _ => exact hcounted halike
      | obeyed _ hcommand _ => simp [hnone] at hcommand
  | obeyed hdrawn hcommand hobey =>
      cases Walk.passes_of_step hv with
      | skipped hskipped => omega
      | ignored _ hnone => simp [hnone] at hcommand
      | obeyed _ hcommand' hobey' =>
          obtain rfl := Option.some.inj (hcommand.symm.trans hcommand')
          exact hcounted (halike.obey hdice hobey hobey')

/-! ## Whole words -/

/-- How many brackets are open within a skipped branch, before the symbol and
after it. -/
def Encounter.skipDepths (encounter : Encounter K G) : Nat × Nat :=
  (encounter.before.skipDepth, encounter.after.skipDepth)

theorem Walk.Alike.follow (hdice : c.SameDice d) (halike : w.Alike v)
    {word : Word} (hw : w.follow c word = .ok w')
    (hv : v.follow d word = .ok v') :
    w'.Alike v' ∧
      (Walk.encounters c word w).map Encounter.skipDepths =
        (Walk.encounters d word v).map Encounter.skipDepths := by
  induction word generalizing w v with
  | nil =>
      obtain rfl := Except.ok.inj hw
      obtain rfl := Except.ok.inj hv
      exact ⟨halike, rfl⟩
  | cons symbol word ih =>
      obtain ⟨w₁, hstep, hrest⟩ := Walk.exists_step_of_follow_cons hw
      obtain ⟨v₁, hstep', hrest'⟩ := Walk.exists_step_of_follow_cons hv
      have hnext := halike.step hdice hstep hstep'
      obtain ⟨hlast, hskips⟩ := ih hnext hrest hrest'
      refine ⟨hlast, ?_⟩
      rw [Walk.encounters_cons word hstep, Walk.encounters_cons word hstep',
        List.map_cons, List.map_cons, hskips]
      exact congrArg₂ (fun before after => (before, after) :: _)
        halike.skipDepth hnext.skipDepth

theorem Walk.Fresh.alike (hdice : c.SameDice d) {source : G}
    (hw : w.Fresh c source) (hv : v.Fresh d source) : w.Alike v where
  source := by
    rw [hw.source, hv.source]
    exact if_congr hdice.initialRoll rfl rfl
  depth := hw.depth.trans hv.depth.symm
  saved := by rw [hw.stack, hv.stack]
  skipDepth := hw.skipDepth.trans hv.skipDepth.symm
  maxDepth := hw.maxDepth.trans hv.maxDepth.symm
  symbols := hw.symbols.trans hv.symbols.symm
  unmatched := hw.unmatched.trans hv.unmatched.symm
  leaves := by rw [hw.leaves, hv.leaves]

/-! ## Segments of walks that are alike -/

/-- Where both cursors are wide enough, a symbol leaves alike segments behind:
both at the same depth, and joined to the same one. -/
theorem Walk.Alike.segments_step (halike : w.Alike v)
    (hsegments : w.segments.map Segment.outline =
      v.segments.map Segment.outline)
    (hwide : c.minWidth ≤ w.cursor.width)
    (hwide' : d.minWidth ≤ v.cursor.width)
    {symbol : Char} (hw : w.step c symbol = .ok w')
    (hv : v.step d symbol = .ok v') :
    w'.segments.map Segment.outline = v'.segments.map Segment.outline := by
  have hsize : w.segments.size = v.segments.size := by
    have hsizes := congrArg Array.size hsegments
    rwa [Array.size_map, Array.size_map] at hsizes
  have hlast : w.lastSegment? = v.lastSegment? := by
    rw [Walk.lastSegment?, Walk.lastSegment?, Array.isEmpty, Array.isEmpty,
      hsize]
  rcases Walk.segments_step hw with
    ⟨hdrawn, hdraw, -, hpushed⟩ | ⟨hkept, hthin⟩
  · rcases Walk.segments_step hv with ⟨-, -, -, hpushed'⟩ | ⟨-, hthin'⟩
    · rw [hpushed, hpushed', Array.map_push, Array.map_push, hsegments]
      congr 1
      exact Prod.ext halike.depth hlast
    · exact absurd hwide' (hthin' (halike.skipDepth ▸ hdrawn) hdraw)
  · rcases Walk.segments_step hv with ⟨hdrawn', hdraw', -, -⟩ | ⟨hkept', -⟩
    · exact absurd hwide (hthin (halike.skipDepth.trans hdrawn') hdraw')
    · rw [hkept, hkept', hsegments]

theorem Walk.Alike.segments_follow {c d : TurtleConfig Float} {H : Type}
    [RandomSource H Float] {w v w' v' : Walk Float H} (hdice : c.SameDice d)
    (hc : c.Tapers) (hd : d.Tapers) (halike : w.Alike v)
    (hw : w.Sturdy c False) (hv : v.Sturdy d False)
    (hsegments : w.segments.map Segment.outline =
      v.segments.map Segment.outline)
    {word : Word} (hfollow : w.follow c word = .ok w')
    (hfollow' : v.follow d word = .ok v') :
    w'.segments.map Segment.outline = v'.segments.map Segment.outline := by
  induction word generalizing w v with
  | nil =>
      obtain rfl := Except.ok.inj hfollow
      obtain rfl := Except.ok.inj hfollow'
      exact hsegments
  | cons symbol word ih =>
      obtain ⟨w₁, hstep, hrest⟩ := Walk.exists_step_of_follow_cons hfollow
      obtain ⟨v₁, hstep', hrest'⟩ := Walk.exists_step_of_follow_cons hfollow'
      have hwide := hw.broad (by simp)
      have hwide' := hv.broad (by simp)
      apply ih (halike.step hdice hstep hstep')
      · exact (hw.step hc hstep).mono And.left
      · exact (hv.step hd hstep').mono And.left
      · exact halike.segments_step hsegments hwide hwide' hstep hstep'
      · exact hrest
      · exact hrest'

/-! ## Drawings from one seed -/

theorem Walk.interpret_of_negative {H : Type} [SeededSource H Float]
    (entropy : Nat) {c : TurtleConfig Float} (hnegative : c.seed < 0)
    (word : Word) :
    Walk.interpret H entropy c word =
      (.error (.seed (.negative c.seed)), #[]) := by
  simp only [Walk.interpret, SeededSource.ofSeed, if_pos hnegative]

theorem Walk.Draws.interpret {H : Type} [SeededSource H Float]
    (entropy : Nat) {c : TurtleConfig Float} (hpositive : 0 < c.seed)
    {word : Word} {w : Walk Float H}
    (hdraws : Walk.Draws c (SeededSource.ofEntropy c.seed.toNat) word w) :
    (Walk.interpret H entropy c word).1 = .ok w.interpretation := by
  simp only [Walk.interpret, SeededSource.ofSeed, if_neg hpositive.le.not_gt,
    if_neg hpositive.ne', hdraws.interpretFrom]
  rfl

/-- Two drawings of one word from one seed, whose parameters have the same dice
and otherwise differ at will, pass over the same branches and agree on their
depth, their unmatched symbols and the turn and depth of every leaf.  They
agree on the depths and joints of all segments too if neither begins too thin.
A negative seed draws nothing, whatever the parameters. -/
theorem geometry_never_moves_dice {H : Type} [SeededSource H Float]
    (c d : TurtleConfig Float) (hseed : c.seed = d.seed)
    (hdice : c.bounded.SameDice d.bounded) (hc : c.WellShaped)
    (hd : d.WellShaped) (word : Word) (entropy entropy' : Nat) :
    (c.seed < 0 →
      Walk.interpret H entropy c word =
          (.error (.seed (.negative c.seed)), #[]) ∧
        Walk.interpret H entropy' d word =
          (.error (.seed (.negative c.seed)), #[])) ∧
      (0 < c.seed →
        let source : H := SeededSource.ofEntropy c.seed.toNat
        (Walk.course c source word).map Encounter.skipDepths =
            (Walk.course d source word).map Encounter.skipDepths ∧
          ∃ drawing drawing' : Interpretation Float,
            (Walk.interpret H entropy c word).1 = .ok drawing ∧
            (Walk.interpret H entropy' d word).1 = .ok drawing' ∧
            drawing.maxDepth = drawing'.maxDepth ∧
            drawing.symbols = drawing'.symbols ∧
            drawing.unmatched = drawing'.unmatched ∧
            drawing.leaves.map Leaf.outline =
              drawing'.leaves.map Leaf.outline ∧
            (c.FiniteWidths → d.FiniteWidths →
              c.bounded.minWidth ≤ c.initialWidth →
              d.bounded.minWidth ≤ d.initialWidth →
                drawing.segments.map Segment.outline =
                  drawing'.segments.map Segment.outline)) := by
  constructor
  · intro hnegative
    have hnegative' : d.seed < 0 := hseed ▸ hnegative
    have herror := Walk.interpret_of_negative (H := H) entropy' hnegative' word
    rw [← hseed] at herror
    exact ⟨Walk.interpret_of_negative entropy hnegative word, herror⟩
  · intro hpositive source
    have hpositive' : 0 < d.seed := hseed ▸ hpositive
    obtain ⟨w, hdraws⟩ := Walk.exists_draws hc source word
    obtain ⟨v, hdraws'⟩ := Walk.exists_draws hd source word
    obtain ⟨start, hfresh, hfollow, hcourse⟩ := hdraws.exists_fresh
    obtain ⟨start', hfresh', hfollow', hcourse'⟩ := hdraws'.exists_fresh
    have hstart := hfresh.alike hdice hfresh'
    obtain ⟨halike, hskips⟩ := hstart.follow hdice hfollow hfollow'
    have hdrawing := hdraws.interpret entropy hpositive
    have hdrawing' : (Walk.interpret H entropy' d word).1 =
        .ok v.interpretation := by
      apply Walk.Draws.interpret entropy' hpositive'
      rwa [← hseed]
    refine ⟨by rw [hcourse, hcourse', hskips], w.interpretation,
      v.interpretation, hdrawing, hdrawing', halike.maxDepth, halike.symbols,
      halike.unmatched, halike.leaves, ?_⟩
    intro hfinite hfinite' hwide hwide'
    have htapers := hfinite.tapers_bounded
    have htapers' := hfinite'.tapers_bounded
    apply hstart.segments_follow hdice htapers htapers' _ _ _ hfollow hfollow'
    · exact (hfresh.sturdy htapers).mono fun hthin => hthin hwide
    · exact (hfresh'.sturdy htapers').mono fun hthin => hthin hwide'
    · rw [hfresh.segments, hfresh'.segments]

/-- A drawing with jittered yaw that draws every second branch or so. -/
def TurtleConfig.scattered : TurtleConfig Float :=
  { TurtleConfig.standard with
    branchProbability := 0.5
    turnVariation := (-5.0, 5.0)
    seed := 8 }

/-- The same dice, with other angles, steps and widths. -/
def TurtleConfig.scatteredWide : TurtleConfig Float :=
  { TurtleConfig.scattered with
    yawAngle := 70.0
    stepLength := 3.0
    initialWidth := 9.0
    turnVariation := (0.0, 30.0)
    initialForward := [1.0, 0.0, 0.0] }

theorem TurtleConfig.sameDice_scattered :
    TurtleConfig.scattered.bounded.SameDice
      TurtleConfig.scatteredWide.bounded where
  branchProbability u := by
    have hchance : TurtleConfig.scattered.bounded.branchProbability =
        TurtleConfig.scatteredWide.bounded.branchProbability := by
      decide +kernel
    rw [hchance]
  stepVariation := by decide +kernel
  turnVariation := by decide +kernel
  pitchVariation := by decide +kernel
  pitchFlipProbability := by decide +kernel
  initialRoll := by decide +kernel

theorem geometry_never_moves_dice_sample :
    TurtleConfig.scattered.bounded.SameDice
        TurtleConfig.scatteredWide.bounded ∧
      ∃ drawing drawing' : Interpretation Float,
        (Walk.interpret Pcg64 0 .scattered "F[+FL]-F[L]".toList).1 =
          .ok drawing ∧
        (Walk.interpret Pcg64 1 .scatteredWide "F[+FL]-F[L]".toList).1 =
          .ok drawing' ∧
        drawing.leaves.map Leaf.outline = drawing'.leaves.map Leaf.outline ∧
        drawing.segments.map Segment.outline =
          drawing'.segments.map Segment.outline := by
  have hdice := TurtleConfig.sameDice_scattered
  obtain ⟨-, hpositive⟩ := geometry_never_moves_dice (H := Pcg64) .scattered
    .scatteredWide rfl hdice ⟨rfl, rfl, rfl⟩ ⟨rfl, rfl, rfl⟩
    "F[+FL]-F[L]".toList 0 1
  obtain ⟨-, drawing, drawing', hdrawing, hdrawing', -, -, -, hleaves,
    hsegments⟩ := hpositive (by decide)
  refine ⟨hdice, drawing, drawing', hdrawing, hdrawing', hleaves, ?_⟩
  apply hsegments
  · constructor <;> decide +kernel
  · constructor <;> decide +kernel
  · decide +kernel
  · decide +kernel

/-- A range whose lower bound is undefined does not ascend, yet it is random,
for it does not descend either; so its draw shifts the roll for the branch. -/
theorem undefined_jitter_bound_moves_dice :
    let c : TurtleConfig Float :=
      { TurtleConfig.standard with branchProbability := 0.5, seed := 8 }
    let d : TurtleConfig Float := { c with turnVariation := (0.0 / 0.0, 1.0) }
    (c.WellShaped ∧ d.WellShaped ∧ c.seed = d.seed ∧ c.seed ≠ 0 ∧
      c.branchProbability = d.branchProbability ∧
      (0.0 < c.stepVariation ↔ 0.0 < d.stepVariation) ∧
      (c.turnVariation.1 < c.turnVariation.2 ↔
        d.turnVariation.1 < d.turnVariation.2) ∧
      (c.pitchVariation.1 < c.pitchVariation.2 ↔
        d.pitchVariation.1 < d.pitchVariation.2) ∧
      (0.0 < c.pitchFlipProbability ↔ 0.0 < d.pitchFlipProbability) ∧
      (0.0 < c.initialRoll ↔ 0.0 < d.initialRoll)) ∧
    ((Walk.interpret Pcg64 0 c "+[".toList).1.map
      fun drawing => drawing.maxDepth).toOption = some 1 ∧
    ((Walk.interpret Pcg64 0 d "+[".toList).1.map
      fun drawing => drawing.maxDepth).toOption = some 0 := by
  intro c d
  refine ⟨⟨⟨rfl, rfl, rfl⟩, ⟨rfl, rfl, rfl⟩, rfl, by decide, rfl, Iff.rfl, ?_,
    Iff.rfl, Iff.rfl, Iff.rfl⟩, ?_, ?_⟩
  · decide +kernel
  · decide +kernel
  · decide +kernel

end TreeGrowth
