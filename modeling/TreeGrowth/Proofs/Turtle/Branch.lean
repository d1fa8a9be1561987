import TreeGrowth.Proofs.Turtle.Encounter

/-!
# Branches as wholes

A branch whose brackets match is left the way it was entered: the cursor and
the open branches are those from before it, nothing is reported to be wrong,
and what had been drawn before is still in place.  Within it, every branch may
be drawn or skipped on its own.  A branch that is itself skipped costs a single
draw and leaves only its report behind.
-/

namespace TreeGrowth

variable {K G : Type} [Trigonometric K] [RandomSource G K]
  {c : TurtleConfig K} {w w' : Walk K G}

/-! ## Skipped branches -/

/-- Within a skipped branch, a word whose brackets match is passed over. -/
theorem Balanced.follow_of_skipped {word : Word} (hword : Balanced word)
    (hskipped : 0 < w.skipDepth) :
    w.follow c word = .ok { w with symbols := w.symbols + word.length } := by
  induction hword generalizing w with
  | nil => rfl
  | @symbol symbol word hopen hclose _ ih =>
      rw [Walk.follow_cons, Walk.step_of_skipped hskipped, Walk.skip,
        if_neg hopen, if_neg hclose]
      simp only [Except.bind]
      rw [ih (by exact hskipped), List.length_cons, Nat.add_right_comm,
        Nat.add_assoc]
  | @branch u v _ _ ihu ihv =>
      -- The skip depth is one more within the brackets, and comes back.
      rw [Walk.follow_cons, Walk.step_of_skipped hskipped, Walk.skip,
        if_pos rfl]
      simp only [Except.bind]
      rw [Walk.follow_append, ihu (Nat.succ_pos _)]
      simp only [Except.bind]
      rw [Walk.follow_cons, Walk.step_of_skipped (Nat.succ_pos _), Walk.skip,
        if_neg (by decide), if_pos rfl]
      simp only [Except.bind, Nat.add_sub_cancel]
      rw [ihv (by exact hskipped)]
      simp only [List.length_cons, List.length_append]
      congr 2
      omega

/-- A branch as it stands in a word. -/
def bracketed (inner : Word) : Word := '[' :: (inner ++ [']'])

/-- What is left of a skipped branch: its roll, its symbols and the report. -/
def Walk.skipBranch (c : TurtleConfig K) (length : Nat) (w : Walk K G) :
    Walk K G :=
  { w with
    source := (RandomSource.unit w.source).2
    symbols := w.symbols + length }.report
      (.skipped (RandomSource.unit w.source).1 c.branchProbability)

theorem Balanced.follow_bracketed_of_skips {inner : Word}
    (hinner : Balanced inner) (hdrawn : w.skipDepth = 0)
    (hskips : c.Skips w.source) :
    w.follow c (bracketed inner) =
      .ok (w.skipBranch c (bracketed inner).length) := by
  rw [bracketed, Walk.follow_cons, Walk.step_open hdrawn,
    Walk.push_of_skips hskips]
  simp only [Except.bind, Walk.report]
  rw [Walk.follow_append, hinner.follow_of_skipped Nat.one_pos]
  simp only [Except.bind]
  rw [Walk.follow_cons, Walk.step_of_skipped Nat.one_pos, Walk.skip,
    if_neg (by decide), if_pos rfl]
  have hlength : w.symbols + 1 + inner.length + 1 =
      w.symbols + ('[' :: (inner ++ [']'])).length := by
    simp only [List.length_cons, List.length_append, List.length_nil]
    omega
  simp only [Except.bind, TurtleConfig.afterRoll, if_pos hskips.1,
    Nat.sub_self, hlength, Walk.skipBranch, Walk.report, hdrawn]
  rfl

/-! ## Drawn branches -/

/-- The second walk is inside the same branches as the first, has noticed
nothing wrong since then, and has kept what was left behind. -/
structure Walk.Continues (w w' : Walk K G) : Prop where
  stack : w'.stack = w.stack
  skipDepth : w'.skipDepth = w.skipDepth
  unmatched : w'.unmatched = w.unmatched
  notices : ∃ later : List (TurtleNotice K),
    w'.notices.toList = w.notices.toList ++ later ∧
      ∀ symbol, .unmatched symbol ∉ later
  segments : w.segments.toList <+: w'.segments.toList
  leaves : w.leaves.toList <+: w'.leaves.toList

omit [Trigonometric K] [RandomSource G K] in
theorem Walk.Continues.refl (w : Walk K G) : w.Continues w where
  stack := rfl
  skipDepth := rfl
  unmatched := rfl
  notices := ⟨[], (List.append_nil _).symm, by simp⟩
  segments := List.prefix_rfl
  leaves := List.prefix_rfl

omit [Trigonometric K] [RandomSource G K] in
theorem Walk.Continues.trans {w₁ w₂ w₃ : Walk K G} (hfirst : w₁.Continues w₂)
    (hsecond : w₂.Continues w₃) : w₁.Continues w₃ := by
  obtain ⟨earlier, hearlier, hright⟩ := hfirst.notices
  obtain ⟨later, hlater, hright'⟩ := hsecond.notices
  constructor
  · exact hsecond.stack.trans hfirst.stack
  · exact hsecond.skipDepth.trans hfirst.skipDepth
  · exact hsecond.unmatched.trans hfirst.unmatched
  · refine ⟨earlier ++ later, ?_, ?_⟩
    · rw [hlater, hearlier, List.append_assoc]
    · intro symbol hmem
      rcases List.mem_append.mp hmem with hold | hnew
      · exact hright symbol hold
      · exact hright' symbol hnew
  · exact hfirst.segments.trans hsecond.segments
  · exact hfirst.leaves.trans hsecond.leaves

omit [Trigonometric K] [RandomSource G K] in
theorem Walk.Extends.keeps_segments (hextends : w.Extends w') :
    w.segments.toList <+: w'.segments.toList := by
  cases hextends with
  | nothing hsegments => rw [hsegments]
  | segment piece _ hsegments =>
      rw [hsegments, Array.toList_push]
      exact List.prefix_append _ _

theorem Walk.keeps_leaves_of_obey {command : TurtleCommand}
    (hobey : w.obey c command = .ok w') :
    w.leaves.toList <+: w'.leaves.toList := by
  by_cases hleaf : command = .leaf
  · subst hleaf
    obtain rfl := Except.ok.inj hobey
    simp only [Walk.placeLeaf, Array.toList_push]
    exact List.prefix_append _ _
  · rw [Walk.leaves_obey hleaf hobey]

/-- A symbol that is no bracket opens and closes nothing. -/
theorem Walk.continues_of_step {symbol : Char} (hopen : symbol ≠ '[')
    (hclose : symbol ≠ ']') (hdrawn : w.skipDepth = 0)
    (hstep : w.step c symbol = .ok w') : w.Continues w' := by
  have hsegments := (Walk.extends_step hstep).keeps_segments
  cases Walk.passes_of_step hstep with
  | skipped hskipped => exact absurd hdrawn hskipped.ne'
  | ignored _ _ => exact { Walk.Continues.refl w with }
  | @obeyed _ _ hcommand v hobey =>
      have hsame := Walk.sameBranch_of_symbol hopen hclose hcommand hobey
      have hleaves := Walk.keeps_leaves_of_obey hobey
      have hnotices : v.notices.toList = w.notices.toList ++ [] := by
        rw [hsame.notices, List.append_nil]
      exact {
        stack := hsame.stack
        skipDepth := hsame.skipDepth
        unmatched := hsame.unmatched
        notices := ⟨[], hnotices, by simp⟩
        segments := hsegments
        leaves := hleaves }

omit [Trigonometric K] in
theorem Walk.continues_skipBranch (c : TurtleConfig K) (length : Nat)
    (w : Walk K G) : w.Continues (w.skipBranch c length) where
  stack := rfl
  skipDepth := rfl
  unmatched := rfl
  notices :=
    ⟨[.skipped (RandomSource.unit w.source).1 c.branchProbability],
      Array.toList_push, by simp⟩
  segments := List.prefix_rfl
  leaves := List.prefix_rfl

/-- If the word within a branch only adds to a walk, then the branch does so as
well, and the walk is back where it was. -/
theorem Walk.continues_of_bracketed {inner : Word} (hinner : Balanced inner)
    (hadds : ∀ v v' : Walk K G, v.skipDepth = 0 → v.follow c inner = .ok v' →
      v.Continues v')
    (hdrawn : w.skipDepth = 0)
    (hfollow : w.follow c (bracketed inner) = .ok w') :
    w'.cursor = w.cursor ∧ w.Continues w' := by
  by_cases hskips : c.Skips w.source
  · rw [hinner.follow_bracketed_of_skips hdrawn hskips] at hfollow
    obtain rfl := Except.ok.inj hfollow
    exact ⟨rfl, w.continues_skipBranch c _⟩
  · rw [bracketed, Walk.follow_cons, Walk.step_open hdrawn,
      Walk.push_of_not_skips hskips] at hfollow
    simp only [Except.bind] at hfollow
    obtain ⟨middle, hwithin, hlast⟩ := Walk.exists_follow_of_append hfollow
    have hcontinues := hadds _ middle (by exact hdrawn) hwithin
    have hstack := hcontinues.stack
    have hdepth := hcontinues.skipDepth.trans hdrawn
    rw [Walk.follow_cons, Walk.step_close hdepth, Walk.pop, hstack] at hlast
    obtain rfl := Except.ok.inj hlast
    exact ⟨rfl, { hcontinues with
      stack := rfl
      skipDepth := hcontinues.skipDepth }⟩

theorem Balanced.continues {word : Word} (hword : Balanced word)
    (hdrawn : w.skipDepth = 0) (hfollow : w.follow c word = .ok w') :
    w.Continues w' := by
  induction hword generalizing w w' with
  | nil =>
      obtain rfl := Except.ok.inj hfollow
      exact Walk.Continues.refl w
  | symbol hopen hclose _ ih =>
      obtain ⟨v, hstep, hrest⟩ := Walk.exists_step_of_follow_cons hfollow
      have hfirst := Walk.continues_of_step hopen hclose hdrawn hstep
      exact hfirst.trans (ih (hfirst.skipDepth.trans hdrawn) hrest)
  | @branch u v hu _ ihu ihv =>
      have hsplit : '[' :: (u ++ ']' :: v) = bracketed u ++ v := by
        simp [bracketed]
      rw [hsplit] at hfollow
      obtain ⟨middle, hbranch, hrest⟩ := Walk.exists_follow_of_append hfollow
      have hfirst := (Walk.continues_of_bracketed hu (fun _ _ => ihu) hdrawn
        hbranch).2
      exact hfirst.trans (ihv (hfirst.skipDepth.trans hdrawn) hrest)

/-! ## Whole branches -/

/-- A branch whose brackets match is followed from any walk outside skipped
branches if the pull has a direction.  Then the walk is outside skipped
branches again, its cursor and its open branches are as before, nothing is
reported to be wrong, and what had been left behind is in place.  If the branch
was skipped, then nothing else has changed but for one draw, the count of the
symbols and the report of the roll. -/
theorem bracketed_restores_cursor (c : TurtleConfig K) (w : Walk K G)
    {inner : Word} (hinner : Balanced inner) (hdrawn : w.skipDepth = 0) :
    (c.WellShaped → ∃ w', w.follow c (bracketed inner) = .ok w') ∧
    (∀ w', w.follow c (bracketed inner) = .ok w' →
      w'.skipDepth = 0 ∧ w'.cursor = w.cursor ∧ w'.stack = w.stack ∧
        w'.unmatched = w.unmatched ∧
        (∃ later : List (TurtleNotice K),
          w'.notices.toList = w.notices.toList ++ later ∧
            ∀ symbol, .unmatched symbol ∉ later) ∧
        w.segments.toList <+: w'.segments.toList ∧
        w.leaves.toList <+: w'.leaves.toList) ∧
    (c.Skips w.source → w.follow c (bracketed inner) =
      .ok { w with
        source := (RandomSource.unit w.source).2
        symbols := w.symbols + (bracketed inner).length
        notices := w.notices.push
          (.skipped (RandomSource.unit w.source).1 c.branchProbability) }) := by
  refine ⟨fun hshape => Walk.exists_follow hshape w _, ?_, ?_⟩
  · intro w' hfollow
    obtain ⟨hcursor, hcontinues⟩ := Walk.continues_of_bracketed hinner
      (fun _ _ => hinner.continues) hdrawn hfollow
    exact ⟨hcontinues.skipDepth.trans hdrawn, hcursor, hcontinues.stack,
      hcontinues.unmatched, hcontinues.notices, hcontinues.segments,
      hcontinues.leaves⟩
  · exact hinner.follow_bracketed_of_skips hdrawn

/-- A walk within a branch, at a branch that may be skipped. -/
def Walk.branchSample (entropy : Nat) : Walk Float Pcg64 where
  cursor := { Cursor.standard with depth := 1 }
  stack := [Cursor.standard]
  maxDepth := 1
  source := Pcg64.ofEntropy entropy

theorem bracketed_restores_cursor_sample :
    let c : TurtleConfig Float :=
      { TurtleConfig.standard with branchProbability := 0.5 }
    let inner : Word := ['F', '[', 'L', ']']
    let v := Walk.branchSample 2
    let w := Walk.branchSample 1
    c.WellShaped ∧ Balanced inner ∧ v.skipDepth = 0 ∧ ¬c.Skips v.source ∧
      (∃ v', v.follow c (bracketed inner) = .ok v' ∧ v'.cursor = v.cursor ∧
        v'.stack = [Cursor.standard]) ∧
      w.skipDepth = 0 ∧ c.Skips w.source ∧
      w.follow c (bracketed inner) = .ok { w with
        source := (RandomSource.unit w.source).2
        symbols := 6
        notices := #[.skipped (RandomSource.unit w.source).1 0.5] } := by
  intro c inner v w
  have hshape : c.WellShaped := ⟨rfl, rfl, rfl⟩
  have hinner : Balanced inner :=
    .symbol (by decide) (by decide)
      (.branch (.symbol (by decide) (by decide) .nil) .nil)
  have hdrawn : ¬c.Skips v.source := by
    change ¬(_ ∧ _)
    decide +kernel
  have hskips : c.Skips w.source := by
    change _ ∧ _
    decide +kernel
  obtain ⟨hexists, hrestores, _⟩ := bracketed_restores_cursor c v hinner rfl
  obtain ⟨v', hfollow⟩ := hexists hshape
  obtain ⟨_, hcursor, hstack, _⟩ := hrestores v' hfollow
  have hskipped := (bracketed_restores_cursor c w hinner rfl).2.2 hskips
  exact ⟨hshape, hinner, rfl, hdrawn, ⟨v', hfollow, hcursor, hstack⟩, rfl,
    hskips, hskipped⟩

end TreeGrowth
