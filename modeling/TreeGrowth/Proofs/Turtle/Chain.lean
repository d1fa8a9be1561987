import TreeGrowth.Proofs.Bracket.Walk

/-!
# Chains of segments

A drawing joins every segment to the one that it has drawn just before, also
where that one lies in a branch that has ended.  So the segments of a drawing
are a single chain, whatever its brackets, its parameters and its dice.
-/

namespace TreeGrowth

variable {K G : Type}

/-- Every segment has the one before it for its parent, and the first has
none. -/
def Chained (segments : Array (Segment K)) : Prop :=
  ∀ (i : Nat) (hi : i < segments.size),
    segments[i].parent = if i = 0 then none else some ((i - 1 : Nat) : Int)

theorem Chained.push {segments : Array (Segment K)}
    (hchained : Chained segments) {segment : Segment K}
    (hparent : segment.parent = if segments.size = 0 then none
      else some ((segments.size - 1 : Nat) : Int)) :
    Chained (segments.push segment) := by
  intro i hi
  rw [Array.size_push] at hi
  by_cases hold : i < segments.size
  · rw [Array.getElem_push_lt hold]
    exact hchained i hold
  · obtain rfl : i = segments.size := by omega
    rw [Array.getElem_push_eq]
    exact hparent

/-! ## What a symbol leaves behind -/

/-- What the second walk has left behind since the first: nothing, or a single
segment that is joined to the last one of the first walk. -/
inductive Walk.Extends (w w' : Walk K G) : Prop
  | nothing (hsegments : w'.segments = w.segments)
  | segment (piece : Segment K) (hparent : piece.parent = w.lastSegment?)
      (hsegments : w'.segments = w.segments.push piece)

section Steps

variable [Trigonometric K] [RandomSource G K] {c : TurtleConfig K}
  {w w' : Walk K G}

theorem Walk.extends_forward {isDrawn : Bool}
    (hforward : w.forward c isDrawn = .ok w') : w.Extends w' := by
  obtain ⟨basis, rfl⟩ := Walk.exists_eq_of_forward hforward
  by_cases hleft : (isDrawn && decide (c.minWidth ≤ w.cursor.width)) = true
  · exact .segment (w.segment c (Walk.stepLength c w.source).1) rfl
      (if_pos hleft)
  · exact .nothing (if_neg hleft)

theorem Walk.segments_push (w : Walk K G) :
    (w.push c).segments = w.segments := by
  by_cases hskips : c.Skips w.source
  · rw [Walk.push_of_skips hskips]
    rfl
  · rw [Walk.push_of_not_skips hskips]

omit [Trigonometric K] [RandomSource G K] in
theorem Walk.segments_pop (w : Walk K G) : w.pop.segments = w.segments := by
  unfold Walk.pop
  split <;> rfl

omit [Trigonometric K] [RandomSource G K] in
theorem Walk.segments_skip (w : Walk K G) (symbol : Char) :
    (w.skip symbol).segments = w.segments := by
  obtain ⟨skipDepth, hskip⟩ := w.exists_skip_eq symbol
  rw [hskip]

theorem Walk.extends_obey {command : TurtleCommand}
    (hobey : w.obey c command = .ok w') : w.Extends w' := by
  cases command with
  | draw => exact Walk.extends_forward hobey
  | move => exact Walk.extends_forward hobey
  | push =>
      obtain rfl := Except.ok.inj hobey
      exact .nothing w.segments_push
  | pop =>
      obtain rfl := Except.ok.inj hobey
      exact .nothing w.segments_pop
  | yawLeft | yawRight | pitchUp | pitchDown | rollLeft | rollRight
  | turnAround | leaf =>
      obtain rfl := Except.ok.inj hobey
      exact .nothing rfl

theorem Walk.extends_step {symbol : Char} (hstep : w.step c symbol = .ok w') :
    w.Extends w' := by
  -- A step also counts its symbol, which leaves the segments alone.
  have hcounted : ∀ v : Walk K G, w.Extends v →
      w.Extends { v with symbols := v.symbols + 1 } := by
    rintro v (hsame | ⟨piece, hparent, hpushed⟩)
    · exact .nothing hsame
    · exact .segment piece hparent hpushed
  cases Walk.passes_of_step hstep with
  | skipped _ => exact hcounted _ (.nothing (w.segments_skip symbol))
  | ignored _ _ => exact hcounted w (.nothing rfl)
  | obeyed _ _ hobey => exact hcounted _ (Walk.extends_obey hobey)

end Steps

/-! ## Whole drawings -/

/-- The walk has left a chain behind, of at most `n` segments. -/
structure Walk.LeavesChain (n : Nat) (w : Walk K G) : Prop where
  chained : Chained w.segments
  size : w.segments.size ≤ n

variable {w w' : Walk K G} {n : Nat}

theorem Walk.LeavesChain.extend (hchain : w.LeavesChain n)
    (hextends : w.Extends w') : w'.LeavesChain (n + 1) := by
  obtain ⟨hchained, hsize⟩ := hchain
  cases hextends with
  | nothing hsegments =>
      constructor
      · rw [hsegments]
        exact hchained
      · rw [hsegments]
        exact Nat.le_succ_of_le hsize
  | segment piece hparent hsegments =>
      constructor
      · rw [hsegments]
        apply hchained.push
        rw [hparent, Walk.lastSegment?]
        simp only [Array.isEmpty_iff_size_eq_zero]
      · rw [hsegments, Array.size_push]
        exact Nat.succ_le_succ hsize

variable [Trigonometric K] [RandomSource G K] {c : TurtleConfig K}

theorem Walk.LeavesChain.follow (hchain : w.LeavesChain n) {word : Word}
    (hfollow : w.follow c word = .ok w') :
    w'.LeavesChain (n + word.length) := by
  induction word generalizing w n with
  | nil =>
      obtain rfl := Except.ok.inj hfollow
      exact hchain
  | cons symbol word ih =>
      obtain ⟨v, hnext, hlater⟩ := Walk.exists_step_of_follow_cons hfollow
      have hrest := ih (hchain.extend (Walk.extends_step hnext)) hlater
      rw [List.length_cons, Nat.add_comm word.length 1, ← Nat.add_assoc]
      exact hrest

theorem Walk.leavesChain_begin {source : G}
    (hbegin : Walk.begin c source = .ok w) : w.LeavesChain 0 := by
  unfold Walk.begin at hbegin
  cases hcursor : Cursor.ofConfig c with
  | error fault => simp [hcursor, Except.map] at hbegin
  | ok cursor =>
      rw [hcursor] at hbegin
      obtain rfl := Except.ok.inj hbegin
      have hempty : Chained (#[] : Array (Segment K)) := by
        intro i hi
        exact absurd hi (Nat.not_lt_zero i)
      split
      next => exact ⟨hempty, Nat.le_refl 0⟩
      next => exact ⟨hempty, Nat.le_refl 0⟩

/-- A drawing is a chain of no more segments than its word has symbols. -/
theorem Walk.Draws.leavesChain {source : G} {word : Word}
    (hdraws : Walk.Draws c source word w) : w.LeavesChain word.length := by
  obtain ⟨start, hbegin, hfollow⟩ := hdraws
  have hstart : (start.report (.started word.length)).LeavesChain 0 := by
    obtain ⟨hchained, hsize⟩ := Walk.leavesChain_begin hbegin
    exact ⟨hchained, hsize⟩
  simpa using hstart.follow hfollow

theorem Walk.exists_draws_of_interpretFrom {source : G} {word : Word}
    {drawing : Interpretation K}
    (hdrawing : (Walk.interpretFrom c source word).1 = .ok drawing) :
    ∃ w : Walk K G, Walk.Draws c source word w ∧
      w.interpretation = drawing := by
  simp only [Walk.interpretFrom] at hdrawing
  cases hbegin : Walk.begin c.bounded source with
  | error fault => simp [hbegin] at hdrawing
  | ok start =>
      simp only [hbegin] at hdrawing
      cases hfollow : (start.report (.started word.length)).follow c.bounded
          word with
      | error stuck => simp [hfollow] at hdrawing
      | ok w =>
          simp only [hfollow] at hdrawing
          exact ⟨w, ⟨start, hbegin, hfollow⟩, Except.ok.inj hdrawing⟩

theorem Walk.exists_draws_of_interpret {G : Type} [SeededSource G K]
    {entropy : Nat} {word : Word} {drawing : Interpretation K}
    (hdrawing : (Walk.interpret G entropy c word).1 = .ok drawing) :
    ∃ (source : G) (w : Walk K G), Walk.Draws c source word w ∧
      w.interpretation = drawing := by
  simp only [Walk.interpret] at hdrawing
  cases hsource : (SeededSource.ofSeed entropy c.seed :
      Except SeedError G) with
  | error fault => simp [hsource] at hdrawing
  | ok source =>
      simp only [hsource] at hdrawing
      refine ⟨source, Walk.exists_draws_of_interpretFrom ?_⟩
      cases hdrawn : (Walk.interpretFrom c source word).1 with
      | error fault => simp [hdrawn, Except.mapError] at hdrawing
      | ok drawn =>
          simp only [hdrawn, Except.mapError] at hdrawing
          rw [Except.ok.inj hdrawing]

end TreeGrowth
