import TreeGrowth.Proofs.Numeric.Machine
import TreeGrowth.Proofs.Turtle.Encounter
import TreeGrowth.Random.Pcg64

/-!
# Widths of a drawing

Every cursor of a walk, the current one and those saved for open branches, is
as wide as the parameters allow, except for a trunk that begins too thin.  Only
the trunk has depth zero, and no branch is open while the walk is on it, so the
first move of the trunk widens the only thin cursor there is.  From then on no
segment is too thin to be drawn.
-/

namespace TreeGrowth

variable {G : Type} {c : TurtleConfig Float} {w w' : Walk Float G}

/-! ## Parameters with finite widths -/

/-- The width parameters are finite numbers. -/
structure TurtleConfig.FiniteWidths (c : TurtleConfig Float) : Prop where
  initialWidth : Scalar.isFinite c.initialWidth = true
  minWidth : Scalar.isFinite c.minWidth = true
  widthFalloff : Scalar.isFinite c.widthFalloff = true

/-- The width parameters of a walk: finite, with a floor that is not negative
and a share that a branch keeps. -/
structure TurtleConfig.Tapers (c : TurtleConfig Float) : Prop where
  initialWidth : Scalar.isFinite c.initialWidth = true
  minWidth : Scalar.isFinite c.minWidth = true
  nonneg : (0.0 : Float) ≤ c.minWidth
  widthFalloff : Machine.IsShare c.widthFalloff

theorem TurtleConfig.FiniteWidths.tapers_bounded (hfinite : c.FiniteWidths) :
    c.bounded.Tapers where
  initialWidth := hfinite.initialWidth
  minWidth := Machine.isFinite_atLeast Machine.isFinite_zero hfinite.minWidth
  nonneg := Machine.le_atLeast Machine.isFinite_zero hfinite.minWidth
  widthFalloff := Machine.isShare_clamp hfinite.widthFalloff

/-- The share of its width that a segment keeps up to its end. -/
theorem Machine.isShare_taper : Machine.IsShare 0.95 where
  isFinite := by decide +kernel
  nonneg := by decide +kernel
  le_one := by decide +kernel

/-! ## The cursors of a walk -/

/-- Each cursor is as deep as there are cursors below it, and all are finite
and at least as wide as the floor; a thin one may be on the trunk if `thin`
holds. -/
inductive Cursor.Sturdy (c : TurtleConfig Float) (thin : Prop) :
    List (Cursor Float) → Prop
  | nil : Sturdy c thin []
  | cons {cursor : Cursor Float} {below : List (Cursor Float)}
      (hdepth : cursor.depth = below.length)
      (hfinite : Scalar.isFinite cursor.width = true)
      (hbroad : c.minWidth ≤ cursor.width ∨ thin ∧ cursor.depth = 0)
      (hbelow : Sturdy c thin below) :
      Sturdy c thin (cursor :: below)

theorem Cursor.Sturdy.mono {thin thin' : Prop} (himp : thin → thin')
    {cursors : List (Cursor Float)} (hsturdy : Cursor.Sturdy c thin cursors) :
    Cursor.Sturdy c thin' cursors := by
  induction hsturdy with
  | nil => exact .nil
  | cons hdepth hfinite hbroad _ ih =>
      exact .cons hdepth hfinite
        (hbroad.imp_right fun ⟨hthin, htrunk⟩ => ⟨himp hthin, htrunk⟩) ih

def Walk.Sturdy (c : TurtleConfig Float) (thin : Prop)
    (w : Walk Float G) : Prop :=
  Cursor.Sturdy c thin (w.cursor :: w.stack)

variable {thin : Prop}

theorem Walk.Sturdy.broad (hsturdy : w.Sturdy c thin)
    (hfirm : ¬(thin ∧ w.cursor.depth = 0)) : c.minWidth ≤ w.cursor.width := by
  cases hsturdy with
  | cons hdepth hfinite hbroad hbelow => exact hbroad.resolve_right hfirm

theorem Walk.Sturdy.finite (hsturdy : w.Sturdy c thin) :
    Scalar.isFinite w.cursor.width = true := by
  cases hsturdy with
  | cons hdepth hfinite hbroad hbelow => exact hfinite

variable [RandomSource G Float]

/-- A move of the trunk makes it wide enough; a move elsewhere leaves a thin
trunk as it is. -/
theorem Walk.Sturdy.forward (htapers : c.Tapers) (hsturdy : w.Sturdy c thin)
    {isDrawn : Bool} (hforward : w.forward c isDrawn = .ok w') :
    w'.Sturdy c (thin ∧ w.cursor.depth ≠ 0) := by
  obtain ⟨basis, rfl⟩ := Walk.exists_eq_of_forward hforward
  cases hsturdy with
  | cons hdepth hfinite hbroad hbelow =>
      have htaper := Machine.isFinite_mul_share hfinite Machine.isShare_taper
      apply Cursor.Sturdy.cons
      · exact hdepth
      · exact Machine.isFinite_atLeast htapers.minWidth htaper
      · exact .inl (Machine.le_atLeast htapers.minWidth htaper)
      · by_cases htrunk : w.cursor.depth = 0
        · have hnone : w.stack = [] :=
            List.length_eq_zero_iff.mp (hdepth.symm.trans htrunk)
          rw [hnone]
          exact .nil
        · exact hbelow.mono fun hthin => ⟨hthin, htrunk⟩

theorem Walk.Sturdy.push (htapers : c.Tapers) (hsturdy : w.Sturdy c thin) :
    (w.push c).Sturdy c thin := by
  by_cases hskips : c.Skips w.source
  · rw [Walk.push_of_skips hskips]
    exact hsturdy
  · rw [Walk.push_of_not_skips hskips]
    have hshare :=
      Machine.isFinite_mul_share hsturdy.finite htapers.widthFalloff
    cases hsturdy with
    | cons hdepth hfinite hbroad hbelow =>
        apply Cursor.Sturdy.cons
        · exact congrArg (· + 1) hdepth
        · exact Machine.isFinite_atLeast htapers.minWidth hshare
        · exact .inl (Machine.le_atLeast htapers.minWidth hshare)
        · exact .cons hdepth hfinite hbroad hbelow

omit [RandomSource G Float] in
theorem Walk.Sturdy.pop (hsturdy : w.Sturdy c thin) : w.pop.Sturdy c thin := by
  unfold Walk.pop
  cases hstack : w.stack with
  | nil =>
      rw [Walk.Sturdy, hstack] at hsturdy
      exact hsturdy
  | cons cursor below =>
      cases hsturdy with
      | cons hdepth hfinite hbroad hbelow =>
          rw [hstack] at hbelow
          exact hbelow

omit [RandomSource G Float] in
theorem Walk.Sturdy.skip (hsturdy : w.Sturdy c thin) (symbol : Char) :
    (w.skip symbol).Sturdy c thin := by
  obtain ⟨skipDepth, hskip⟩ := w.exists_skip_eq symbol
  rw [hskip]
  exact hsturdy

theorem Walk.Sturdy.obey (htapers : c.Tapers) (hsturdy : w.Sturdy c thin)
    {command : TurtleCommand} (hobey : w.obey c command = .ok w') :
    w'.Sturdy c (thin ∧
      ¬((command = .draw ∨ command = .move) ∧ w.cursor.depth = 0)) := by
  cases command with
  | draw =>
      exact (hsturdy.forward htapers hobey).mono fun ⟨hthin, hbranch⟩ =>
        ⟨hthin, fun htrunk => hbranch htrunk.2⟩
  | move =>
      exact (hsturdy.forward htapers hobey).mono fun ⟨hthin, hbranch⟩ =>
        ⟨hthin, fun htrunk => hbranch htrunk.2⟩
  | push =>
      obtain rfl := Except.ok.inj hobey
      exact (hsturdy.push htapers).mono fun hthin => ⟨hthin, by simp⟩
  | pop =>
      obtain rfl := Except.ok.inj hobey
      exact hsturdy.pop.mono fun hthin => ⟨hthin, by simp⟩
  | yawLeft | yawRight | pitchUp | pitchDown | rollLeft | rollRight
  | turnAround | leaf =>
      have hkept : w'.Sturdy c thin := by
        obtain rfl := Except.ok.inj hobey
        cases hsturdy with
        | cons hdepth hfinite hbroad hbelow =>
            exact .cons hdepth hfinite hbroad hbelow
      exact hkept.mono fun hthin => ⟨hthin, by simp⟩

/-- A symbol keeps the walk sturdy, and a move of the trunk leaves no cursor
thin. -/
theorem Walk.Sturdy.step (htapers : c.Tapers) (hsturdy : w.Sturdy c thin)
    {symbol : Char} (hstep : w.step c symbol = .ok w') :
    w'.Sturdy c (thin ∧
      ¬(Encounter.mk symbol w w').isTrunkMove = true) := by
  rw [Encounter.isTrunkMove_iff]
  cases Walk.passes_of_step hstep with
  | skipped hskipped =>
      exact (hsturdy.skip symbol).mono fun hthin =>
        ⟨hthin, fun hmove => hskipped.ne' hmove.1⟩
  | ignored hdrawn hnone =>
      have hother : ¬(symbol = 'F' ∨ symbol = 'f') := by
        rintro (rfl | rfl) <;> simp [TurtleCommand.ofSymbol?] at hnone
      exact hsturdy.mono fun hthin => ⟨hthin, fun hmove => hother hmove.2.1⟩
  | @obeyed hdrawn command hcommand v hobey =>
      apply (hsturdy.obey htapers hobey).mono
      rintro ⟨hthin, helsewhere⟩
      refine ⟨hthin, ?_⟩
      rintro ⟨-, hsymbol, htrunk⟩
      apply helsewhere
      refine ⟨?_, htrunk⟩
      rcases hsymbol with rfl | rfl
      · exact .inl (Option.some.inj hcommand).symm
      · exact .inr (Option.some.inj hcommand).symm

/-! ## Lost segments -/

/-- Only the first move of a thin trunk loses its segment. -/
theorem Walk.Sturdy.isLost_eq_false (hsturdy : w.Sturdy c thin)
    {symbol : Char} (hstep : w.step c symbol = .ok w')
    (hfirm : ¬(thin ∧ (Encounter.mk symbol w w').isTrunkMove = true)) :
    (Encounter.mk symbol w w').isLost = false := by
  rw [← Bool.not_eq_true]
  intro hlost
  simp only [Encounter.isLost, Encounter.executes, Bool.and_eq_true,
    beq_iff_eq] at hlost
  obtain ⟨⟨hdrawn, hdraw⟩, hsize⟩ := hlost
  rcases Walk.segments_step hstep with ⟨-, -, -, hpushed⟩ | ⟨-, hthin⟩
  · rw [hpushed, Array.size_push] at hsize
    omega
  · apply hthin hdrawn hdraw
    apply hsturdy.broad
    rintro ⟨hallowed, htrunk⟩
    exact hfirm ⟨hallowed,
      Encounter.isTrunkMove_iff.mpr ⟨hdrawn, .inl hdraw, htrunk⟩⟩

theorem Walk.Sturdy.filter_isLost_eq_nil (htapers : c.Tapers)
    (hsturdy : w.Sturdy c False) (word : Word) :
    (Walk.encounters c word w).filter Encounter.isLost = [] := by
  induction word generalizing w with
  | nil => rfl
  | cons symbol word ih =>
      rw [Walk.encounters]
      cases hstep : w.step c symbol with
      | error stuck => rfl
      | ok v =>
          have hleft := hsturdy.isLost_eq_false hstep (by simp)
          have hkept := (hsturdy.step htapers hstep).mono And.left
          simp only [List.filter_cons, hleft]
          exact ih hkept

/-- What a walk loses is lost at the first move of the trunk. -/
theorem Walk.Sturdy.filter_isLost (htapers : c.Tapers)
    (hsturdy : w.Sturdy c thin) (word : Word) :
    (Walk.encounters c word w).filter Encounter.isLost =
      (((Walk.encounters c word w).filter Encounter.isTrunkMove).take
        1).filter Encounter.isLost := by
  induction word generalizing w with
  | nil => rfl
  | cons symbol word ih =>
      rw [Walk.encounters]
      cases hstep : w.step c symbol with
      | error stuck => rfl
      | ok v =>
          have hnext := hsturdy.step htapers hstep
          by_cases hmove : (Encounter.mk symbol w v).isTrunkMove = true
          · have hfirm := hnext.mono fun hthin => hthin.2 hmove
            have hrest := Walk.Sturdy.filter_isLost_eq_nil htapers hfirm word
            simp only [List.filter_cons, hmove, if_true, hrest,
              List.take_succ_cons, List.take_zero, List.filter_nil]
          · have hleft := hsturdy.isLost_eq_false hstep
              fun hthin => hmove hthin.2
            have hkept := hnext.mono And.left
            simp only [List.filter_cons, hmove, hleft]
            exact ih hkept

/-! ## Tapered segments -/

/-- Every segment is at least as wide as the floor and narrows towards its
end. -/
def Walk.Tapered (c : TurtleConfig Float) (w : Walk Float G) : Prop :=
  ∀ s ∈ w.segments, c.minWidth ≤ s.endRadius ∧ s.endRadius ≤ s.startRadius

theorem Walk.Tapered.step (htapers : c.Tapers) (hsturdy : w.Sturdy c thin)
    (htapered : w.Tapered c) {symbol : Char}
    (hstep : w.step c symbol = .ok w') : w'.Tapered c := by
  intro s hs
  rcases Walk.segments_step hstep with ⟨-, -, hwide, hpushed⟩ | ⟨hkept, -⟩
  · rw [hpushed] at hs
    rcases Array.mem_push.mp hs with hold | rfl
    · exact htapered s hold
    · have hfinite := hsturdy.finite
      have hnonneg := Machine.le_of_le_of_le Machine.isFinite_zero
        htapers.minWidth hfinite htapers.nonneg hwide
      have htaper := Machine.isFinite_mul_share hfinite Machine.isShare_taper
      have hnarrower :=
        Machine.mul_share_le hfinite hnonneg Machine.isShare_taper
      constructor
      · exact Machine.le_atLeast htapers.minWidth htaper
      · exact Machine.atLeast_le hwide hnarrower
  · rw [hkept] at hs
    exact htapered s hs

theorem Walk.Tapered.follow (htapers : c.Tapers) (hsturdy : w.Sturdy c thin)
    (htapered : w.Tapered c) {word : Word}
    (hfollow : w.follow c word = .ok w') : w'.Tapered c := by
  induction word generalizing w with
  | nil =>
      obtain rfl := Except.ok.inj hfollow
      exact htapered
  | cons symbol word ih =>
      obtain ⟨v, hstep, hrest⟩ := Walk.exists_step_of_follow_cons hfollow
      have hkept := (hsturdy.step htapers hstep).mono And.left
      exact ih hkept (htapered.step htapers hsturdy hstep) hrest

/-! ## Whole drawings -/

theorem Walk.Fresh.sturdy {source : G} (htapers : c.Tapers)
    (hfresh : w.Fresh c source) : w.Sturdy c (¬c.minWidth ≤ c.initialWidth) := by
  rw [Walk.Sturdy, hfresh.stack]
  apply Cursor.Sturdy.cons
  · exact hfresh.depth
  · rw [hfresh.width]
    exact htapers.initialWidth
  · rw [hfresh.width, and_iff_left hfresh.depth]
    exact Classical.em _
  · exact .nil

/-- Segments narrow towards their ends and never below the floor.  Every `F`
outside a skipped branch leaves one behind, except that a trunk which begins
too thin loses the segment of its first move.  Where nothing is skipped and the
trunk is wide enough, there are as many segments and leaves as the word asks
for. -/
theorem no_segment_lost_to_width_floor (c : TurtleConfig Float)
    (hfinite : c.FiniteWidths) (source : G) (word : Word) :
    (c.WellShaped → ∃ w, Walk.Draws c source word w) ∧
      ∀ w, Walk.Draws c source word w →
        let drawing := w.interpretation
        let course := Walk.course c source word
        let lost := course.filter Encounter.isLost
        (Walk.interpretFrom c source word).1 = .ok drawing ∧
          course.map Encounter.symbol = word ∧
          (∀ s ∈ drawing.segments, c.bounded.minWidth ≤ s.endRadius ∧
            s.endRadius ≤ s.startRadius) ∧
          course.countP (Encounter.executes 'F') =
            drawing.segments.size + lost.length ∧
          lost.length ≤ 1 ∧
          lost = ((course.filter Encounter.isTrunkMove).take 1).filter
            Encounter.isLost ∧
          (c.bounded.minWidth ≤ c.initialWidth →
            lost = [] ∧
              (c.bounded.branchProbability = 1.0 →
                drawing.segments.size = word.count 'F' ∧
                  drawing.leaves.size = word.count 'L')) := by
  have htapers := hfinite.tapers_bounded
  refine ⟨fun hshape => Walk.exists_draws hshape source word, ?_⟩
  intro w hdraws
  obtain ⟨start, hfresh, hfollow, hcourse⟩ := hdraws.exists_fresh
  have hsturdy := hfresh.sturdy htapers
  have htapered : w.Tapered c.bounded := by
    apply Walk.Tapered.follow htapers hsturdy _ hfollow
    intro s hs
    rw [hfresh.segments] at hs
    simp at hs
  have hsegments := Walk.size_segments_follow hfollow
  have hleaves := Walk.size_leaves_follow hfollow
  have hlost := hsturdy.filter_isLost htapers word
  rw [hfresh.segments, ← hcourse] at hsegments
  rw [hfresh.leaves, ← hcourse] at hleaves
  rw [← hcourse] at hlost
  simp only [Array.size_empty, zero_add] at hsegments hleaves
  refine ⟨by rw [hdraws.interpretFrom], ?_, htapered, ?_, ?_, hlost, ?_⟩
  · rw [hcourse]
    exact Walk.symbols_encounters hfollow
  · rw [← List.countP_eq_length_filter]
    exact hsegments.symm
  · rw [hlost]
    exact (List.length_filter_le _ _).trans (List.length_take_le _ _)
  · intro hwide
    have hfirm := hsturdy.mono fun hthin => hthin hwide
    have hnone := Walk.Sturdy.filter_isLost_eq_nil htapers hfirm word
    rw [← hcourse] at hnone
    refine ⟨hnone, ?_⟩
    intro hchance
    have hcertain : ¬c.bounded.branchProbability < 1.0 := by
      rw [hchance]
      decide +kernel
    have hall := Walk.countP_executes hcertain hfresh.skipDepth hfollow
    rw [← hcourse] at hall
    constructor
    · rw [hall, List.countP_eq_length_filter, hnone, List.length_nil,
        add_zero] at hsegments
      exact hsegments
    · rw [hall] at hleaves
      exact hleaves

theorem TurtleConfig.wellShaped_standard :
    (TurtleConfig.standard : TurtleConfig Float).WellShaped :=
  ⟨rfl, rfl, rfl⟩

theorem TurtleConfig.finiteWidths_standard :
    (TurtleConfig.standard : TurtleConfig Float).FiniteWidths := by
  constructor <;> decide +kernel

theorem no_segment_lost_to_width_floor_sample :
    (TurtleConfig.standard : TurtleConfig Float).FiniteWidths ∧
      ∃ w : Walk Float Pcg64,
        Walk.Draws .standard (Pcg64.ofEntropy 7) "F[+FL]F".toList w ∧
          w.interpretation.segments.size = 3 ∧
          w.interpretation.leaves.size = 1 := by
  have hfinite := TurtleConfig.finiteWidths_standard
  obtain ⟨hexists, hall⟩ := no_segment_lost_to_width_floor .standard hfinite
    (Pcg64.ofEntropy 7) "F[+FL]F".toList
  obtain ⟨w, hdraws⟩ := hexists TurtleConfig.wellShaped_standard
  obtain ⟨_, _, _, _, _, _, hwide⟩ := hall w hdraws
  obtain ⟨-, hcertain⟩ := hwide (by decide +kernel)
  obtain ⟨hsegments, hleaves⟩ := hcertain (by decide +kernel)
  exact ⟨hfinite, w, hdraws, hsegments, hleaves⟩

end TreeGrowth
