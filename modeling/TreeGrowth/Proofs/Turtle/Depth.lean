import TreeGrowth.Proofs.Bracket.Matching
import TreeGrowth.Proofs.Turtle.Encounter

/-!
# Depths and unmatched brackets of a drawing

The cursor is always as deep as branches are open, and the greatest depth is
the greatest of those that the drawing has come through.  Where no branch is
ever skipped, a drawing matches the brackets of its word the way a reader does:
the open branches are the opening brackets that match none so far, and every
closing bracket that matches none is reported by its position.
-/

namespace TreeGrowth

variable {K G : Type}

/-! ## Reports of unmatched brackets -/

/-- The notice is a warning, that a branch ended which had not begun. -/
def TurtleNotice.isWarning : TurtleNotice K → Bool
  | unmatched _ => true
  | _ => false

theorem TurtleNotice.severity_entry (notice : TurtleNotice Float) :
    notice.entry.severity = .warning ↔ notice.isWarning = true := by
  cases notice <;> simp [entry, isWarning]

variable [Trigonometric K] [RandomSource G K] {c : TurtleConfig K}
  {w w' : Walk K G}

/-! ## Depths -/

omit [Trigonometric K] [RandomSource G K] in
theorem Walk.SameBranch.nested (hsame : w.SameBranch w')
    (hnested : w.Nested) : w'.Nested := by
  constructor
  · rw [hsame.depth, hsame.stack, hnested.depth]
  · rw [hsame.stack, hnested.saved]

theorem Walk.Nested.step (hnested : w.Nested) {symbol : Char}
    (hstep : w.step c symbol = .ok w') : w'.Nested := by
  cases Walk.passes_of_step hstep with
  | skipped _ =>
      obtain ⟨skipDepth, hskip⟩ := w.exists_skip_eq symbol
      rw [hskip]
      exact { hnested with }
  | ignored _ _ => exact { hnested with }
  | @obeyed _ command _ v hobey =>
      have hobeyed : v.Nested := by
        by_cases hpush : command = .push
        · subst hpush
          obtain rfl := Except.ok.inj hobey
          exact hnested.push
        by_cases hpop : command = .pop
        · subst hpop
          obtain rfl := Except.ok.inj hobey
          exact hnested.pop
        · exact (Walk.obey_sameBranch hpush hpop hobey).nested hnested
      exact { hobeyed with }

theorem Walk.Nested.follow (hnested : w.Nested) {word : Word}
    (hfollow : w.follow c word = .ok w') : w'.Nested := by
  induction word generalizing w with
  | nil =>
      obtain rfl := Except.ok.inj hfollow
      exact hnested
  | cons symbol word ih =>
      obtain ⟨v, hstep, hrest⟩ := Walk.exists_step_of_follow_cons hfollow
      exact ih (hnested.step hstep) hrest

/-! ## The greatest depth -/

/-- The greatest depth of the second walk takes its own depth in. -/
def Walk.Deepens (w w' : Walk K G) : Prop :=
  w'.maxDepth = max w.maxDepth w'.cursor.depth

omit [Trigonometric K] [RandomSource G K] in
theorem Walk.deepens_of_le (hdepth : w'.cursor.depth ≤ w.cursor.depth)
    (hwithin : w.cursor.depth ≤ w.maxDepth)
    (hsame : w'.maxDepth = w.maxDepth) : w.Deepens w' := by
  rw [Walk.Deepens, hsame, max_eq_left (hdepth.trans hwithin)]

theorem Walk.deepens_push (hwithin : w.cursor.depth ≤ w.maxDepth) :
    w.Deepens (w.push c) := by
  by_cases hskips : c.Skips w.source
  · rw [Walk.push_of_skips hskips]
    exact Walk.deepens_of_le le_rfl hwithin rfl
  · rw [Walk.push_of_not_skips hskips]
    rfl

omit [Trigonometric K] [RandomSource G K] in
theorem Walk.deepens_pop (hnested : w.Nested)
    (hwithin : w.cursor.depth ≤ w.maxDepth) : w.Deepens w.pop := by
  have hdepth := hnested.pop.depth
  unfold Walk.pop at hdepth ⊢
  cases hstack : w.stack with
  | nil => exact Walk.deepens_of_le le_rfl hwithin rfl
  | cons cursor stack =>
      simp only [hstack] at hdepth
      have hcursor : cursor.depth ≤ w.cursor.depth := by
        rw [hdepth, hnested.depth, hstack, List.length_cons]
        exact Nat.le_succ _
      exact Walk.deepens_of_le hcursor hwithin rfl

theorem Walk.deepens_step (hnested : w.Nested)
    (hwithin : w.cursor.depth ≤ w.maxDepth) {symbol : Char}
    (hstep : w.step c symbol = .ok w') : w.Deepens w' := by
  cases Walk.passes_of_step hstep with
  | skipped _ =>
      obtain ⟨skipDepth, hskip⟩ := w.exists_skip_eq symbol
      rw [hskip]
      exact Walk.deepens_of_le le_rfl hwithin rfl
  | ignored _ _ => exact Walk.deepens_of_le le_rfl hwithin rfl
  | @obeyed _ command _ v hobey =>
      change w.Deepens v
      by_cases hpush : command = .push
      · subst hpush
        obtain rfl := Except.ok.inj hobey
        exact Walk.deepens_push hwithin
      by_cases hpop : command = .pop
      · subst hpop
        obtain rfl := Except.ok.inj hobey
        exact Walk.deepens_pop hnested hwithin
      · have hsame := Walk.obey_sameBranch hpush hpop hobey
        exact Walk.deepens_of_le hsame.depth.le hwithin hsame.maxDepth

/-- The depths that a walk comes through on its way along a word. -/
def Walk.depths (c : TurtleConfig K) (w : Walk K G) (word : Word) : Set Nat :=
  {depth | ∃ (u : Word) (v : Walk K G), u <+: word ∧
    w.follow c u = .ok v ∧ v.cursor.depth = depth}

theorem Walk.depths_concat {word : Word} {symbol : Char}
    (hfollow : w.follow c (word ++ [symbol]) = .ok w') :
    w.depths c (word ++ [symbol]) = w.depths c word ∪ {w'.cursor.depth} := by
  ext depth
  constructor
  · rintro ⟨u, v, hu, hv, rfl⟩
    rcases List.prefix_concat_iff.mp hu with rfl | hinitial
    · obtain rfl := Except.ok.inj (hfollow.symm.trans hv)
      exact .inr rfl
    · exact .inl ⟨u, v, hinitial, hv, rfl⟩
  · rintro (⟨u, v, hu, hv, rfl⟩ | rfl)
    · exact ⟨u, v, hu.trans (List.prefix_append _ _), hv, rfl⟩
    · exact ⟨_, w', List.prefix_rfl, hfollow, rfl⟩

theorem Walk.Nested.isGreatest_maxDepth (hnested : w.Nested)
    (hstart : w.maxDepth = w.cursor.depth) {word : Word}
    (hfollow : w.follow c word = .ok w') :
    IsGreatest (w.depths c word) w'.maxDepth := by
  induction word using List.reverseRecOn generalizing w' with
  | nil =>
      obtain rfl := Except.ok.inj hfollow
      constructor
      · exact ⟨[], w, List.prefix_rfl, rfl, hstart.symm⟩
      · rintro depth ⟨u, v, hu, hv, rfl⟩
        obtain rfl := List.prefix_nil.mp hu
        obtain rfl := Except.ok.inj hv
        exact hstart.ge
  | append_singleton word symbol ih =>
      obtain ⟨v, hfirst, hlast⟩ := Walk.exists_follow_of_append hfollow
      obtain ⟨v', hstep, hrest⟩ := Walk.exists_step_of_follow_cons hlast
      obtain rfl := Except.ok.inj hrest
      have hgreatest := ih hfirst
      have hwithin : v.cursor.depth ≤ v.maxDepth :=
        hgreatest.2 ⟨word, v, List.prefix_rfl, hfirst, rfl⟩
      have hdeepens := Walk.deepens_step (hnested.follow hfirst) hwithin hstep
      rw [Walk.depths_concat hfollow, hdeepens]
      exact hgreatest.union isGreatest_singleton

/-! ## Reading along -/

theorem Walk.symbols_obey {command : TurtleCommand}
    (hobey : w.obey c command = .ok w') : w'.symbols = w.symbols := by
  cases command with
  | draw | move =>
      obtain ⟨basis, rfl⟩ := Walk.exists_eq_of_forward hobey
      rfl
  | push =>
      obtain rfl := Except.ok.inj hobey
      by_cases hskips : c.Skips w.source
      · rw [Walk.push_of_skips hskips]
        rfl
      · rw [Walk.push_of_not_skips hskips]
  | pop =>
      obtain rfl := Except.ok.inj hobey
      unfold Walk.pop
      split <;> rfl
  | yawLeft | yawRight | pitchUp | pitchDown | rollLeft | rollRight
  | turnAround | leaf =>
      obtain rfl := Except.ok.inj hobey
      rfl

/-- The walk has come across the same brackets as a reader, and those that are
open are on the stack or skipped. -/
structure Walk.Reads (w : Walk K G) (b : Brackets) : Prop where
  symbols : w.symbols = b.position
  brackets : w.stack.length + w.skipDepth = b.opened.length
  unmatched : w.unmatched.toList = b.strays
  warnings : w.notices.toList.filter TurtleNotice.isWarning =
    b.strays.map .unmatched

variable {b : Brackets}

theorem Walk.Reads.step_open (hreads : w.Reads b)
    (hstep : w.step c '[' = .ok w') : w'.Reads (b.read '[') := by
  obtain ⟨hsymbols, hbrackets, hunmatched, hwarnings⟩ := hreads
  rw [Brackets.read_open]
  rcases Nat.eq_zero_or_pos w.skipDepth with hdrawn | hskipped
  · rw [Walk.step_open hdrawn] at hstep
    rw [hdrawn] at hbrackets
    by_cases hskips : c.Skips w.source
    · rw [Walk.push_of_skips hskips] at hstep
      obtain rfl := Except.ok.inj hstep
      refine ⟨congrArg (· + 1) hsymbols, congrArg (· + 1) hbrackets,
        hunmatched, ?_⟩
      simp [Walk.report, hwarnings, TurtleNotice.isWarning]
    · rw [Walk.push_of_not_skips hskips] at hstep
      obtain rfl := Except.ok.inj hstep
      refine ⟨congrArg (· + 1) hsymbols, ?_, hunmatched, hwarnings⟩
      simpa [hdrawn] using hbrackets
  · rw [Walk.step_of_skipped hskipped, Walk.skip, if_pos rfl] at hstep
    obtain rfl := Except.ok.inj hstep
    exact ⟨congrArg (· + 1) hsymbols, congrArg (· + 1) hbrackets, hunmatched,
      hwarnings⟩

theorem Walk.Reads.step_close (hreads : w.Reads b)
    (hstep : w.step c ']' = .ok w') : w'.Reads (b.read ']') := by
  obtain ⟨hsymbols, hbrackets, hunmatched, hwarnings⟩ := hreads
  rw [Brackets.read_close]
  rcases Nat.eq_zero_or_pos w.skipDepth with hdrawn | hskipped
  · rw [Walk.step_close hdrawn, Walk.pop] at hstep
    cases hstack : w.stack with
    | nil =>
        rw [hstack, hdrawn] at hbrackets
        have hopened : b.opened = [] :=
          List.length_eq_zero_iff.mp hbrackets.symm
        rw [hstack] at hstep
        obtain rfl := Except.ok.inj hstep
        rw [hopened, if_pos rfl]
        refine ⟨congrArg (· + 1) hsymbols, ?_, ?_, ?_⟩
        · simp [Walk.report, hdrawn]
        · simp [Walk.report, hunmatched, hsymbols]
        · simp [Walk.report, hwarnings, hsymbols, TurtleNotice.isWarning]
    | cons cursor stack =>
        rw [hstack, hdrawn] at hbrackets
        have hopened : b.opened ≠ [] :=
          List.ne_nil_of_length_eq_add_one hbrackets.symm
        rw [hstack] at hstep
        obtain rfl := Except.ok.inj hstep
        rw [if_neg hopened, List.append_nil]
        refine ⟨congrArg (· + 1) hsymbols, ?_, hunmatched, hwarnings⟩
        simp [hdrawn, ← hbrackets]
  · rw [Walk.step_of_skipped hskipped, Walk.skip, if_neg (by decide),
      if_pos rfl] at hstep
    have hopened : b.opened ≠ [] := by
      intro hnone
      rw [hnone, List.length_nil] at hbrackets
      omega
    obtain rfl := Except.ok.inj hstep
    rw [if_neg hopened, List.append_nil]
    refine ⟨congrArg (· + 1) hsymbols, ?_, hunmatched, hwarnings⟩
    rw [List.length_tail, ← hbrackets]
    exact (Nat.add_sub_assoc hskipped _).symm

theorem Walk.Reads.step (hreads : w.Reads b) {symbol : Char}
    (hstep : w.step c symbol = .ok w') : w'.Reads (b.read symbol) := by
  by_cases hopen : symbol = '['
  · subst hopen
    exact hreads.step_open hstep
  by_cases hclose : symbol = ']'
  · subst hclose
    exact hreads.step_close hstep
  rw [Brackets.read_of_ne hopen hclose]
  obtain ⟨hsymbols, hbrackets, hunmatched, hwarnings⟩ := hreads
  cases Walk.passes_of_step hstep with
  | skipped _ =>
      rw [Walk.skip, if_neg hopen, if_neg hclose]
      exact ⟨congrArg (· + 1) hsymbols, hbrackets, hunmatched, hwarnings⟩
  | ignored _ _ =>
      exact ⟨congrArg (· + 1) hsymbols, hbrackets, hunmatched, hwarnings⟩
  | @obeyed _ _ hcommand v hobey =>
      have hsame := Walk.sameBranch_of_symbol hopen hclose hcommand hobey
      have hcounted := (Walk.symbols_obey hobey).trans hsymbols
      constructor
      · exact congrArg (· + 1) hcounted
      · rw [hsame.stack, hsame.skipDepth, hbrackets]
      · rw [hsame.unmatched, hunmatched]
      · rw [hsame.notices, hwarnings]

/-- A walk comes across the brackets of a word as a reader does, whichever
branches are skipped. -/
theorem Walk.Reads.follow (hreads : w.Reads b) {word : Word}
    (hfollow : w.follow c word = .ok w') :
    w'.Reads (word.foldl Brackets.read b) := by
  induction word generalizing w b with
  | nil =>
      obtain rfl := Except.ok.inj hfollow
      exact hreads
  | cons symbol word ih =>
      obtain ⟨v, hstep, hrest⟩ := Walk.exists_step_of_follow_cons hfollow
      exact ih (hreads.step hstep) hrest

/-- The walk skips nothing and has come across the same brackets as a
reader. -/
structure Walk.Mirrors (w : Walk K G) (b : Brackets) : Prop where
  drawn : w.skipDepth = 0
  symbols : w.symbols = b.position
  stack : w.stack.length = b.opened.length
  unmatched : w.unmatched.toList = b.strays
  warnings : w.notices.toList.filter TurtleNotice.isWarning =
    b.strays.map .unmatched

omit [Trigonometric K] [RandomSource G K] in
theorem Walk.mirrors_iff :
    w.Mirrors b ↔ w.skipDepth = 0 ∧ w.Reads b := by
  constructor
  · rintro ⟨hdrawn, hsymbols, hstack, hunmatched, hwarnings⟩
    exact ⟨hdrawn, hsymbols, by rw [hdrawn, hstack, Nat.add_zero], hunmatched,
      hwarnings⟩
  · rintro ⟨hdrawn, hsymbols, hbrackets, hunmatched, hwarnings⟩
    rw [hdrawn, Nat.add_zero] at hbrackets
    exact ⟨hdrawn, hsymbols, hbrackets, hunmatched, hwarnings⟩

theorem Walk.Mirrors.follow (hmirrors : w.Mirrors b)
    (hcertain : ¬c.branchProbability < 1.0) {word : Word}
    (hfollow : w.follow c word = .ok w') :
    w'.Mirrors (word.foldl Brackets.read b) := by
  obtain ⟨hdrawn, hreads⟩ := Walk.mirrors_iff.mp hmirrors
  exact Walk.mirrors_iff.mpr
    ⟨Walk.skipDepth_follow hcertain hdrawn hfollow, hreads.follow hfollow⟩

omit [Trigonometric K] [RandomSource G K] in
theorem Walk.Tracks.reads (htracks : w.Tracks 0) (hsymbols : w.symbols = 0) :
    w.Reads {} := by
  constructor
  · exact hsymbols
  · exact htracks.brackets
  · rw [htracks.unmatched]
  · rw [List.map_nil, List.filter_eq_nil_iff]
    rintro notice hnotice hwarning
    cases notice with
    | unmatched symbol =>
        exact htracks.notices symbol (Array.mem_def.mpr hnotice)
    | _ => simp [TurtleNotice.isWarning] at hwarning

omit [Trigonometric K] [RandomSource G K] in
theorem Walk.Tracks.mirrors (htracks : w.Tracks 0) (hsymbols : w.symbols = 0) :
    w.Mirrors {} :=
  Walk.mirrors_iff.mpr ⟨htracks.zero.2.1, htracks.reads hsymbols⟩

theorem Walk.Mirrors.depths_eq (hmirrors : w.Mirrors {}) (hnested : w.Nested)
    (hcertain : ¬c.branchProbability < 1.0) {word : Word}
    (hfollow : w.follow c word = .ok w') :
    w.depths c word =
      {count | ∃ u, u <+: word ∧ (unmatchedOpenings u).length = count} := by
  have hcount : ∀ {u : Word} {v : Walk K G}, w.follow c u = .ok v →
      v.cursor.depth = (unmatchedOpenings u).length := by
    intro u v hv
    rw [(hnested.follow hv).depth, (hmirrors.follow hcertain hv).stack,
      ← reverse_opened_ofWord, List.length_reverse]
    rfl
  ext count
  constructor
  · rintro ⟨u, v, hu, hv, rfl⟩
    exact ⟨u, hu, (hcount hv).symm⟩
  · rintro ⟨u, ⟨rest, rfl⟩, rfl⟩
    obtain ⟨v, hv, _⟩ := Walk.exists_follow_of_append hfollow
    exact ⟨u, v, List.prefix_append _ _, hv, hcount hv⟩

/-! ## Whole drawings -/

/-- The walk to which a drawing of a word has come after a part of the word,
also if it gets stuck later. -/
def Walk.Reaches (c : TurtleConfig K) (source : G) (word u : Word)
    (w : Walk K G) : Prop :=
  u <+: word ∧ ∃ start : Walk K G, Walk.begin c.bounded source = .ok start ∧
    (start.report (.started word.length)).follow c.bounded u = .ok w

/-- A drawing begins with no branch open and at the least depth. -/
structure Walk.Grounded (w : Walk K G) : Prop where
  tracks : w.Tracks 0
  symbols : w.symbols = 0
  maxDepth : w.maxDepth = w.cursor.depth

theorem Walk.grounded_begin {source : G}
    (hbegin : Walk.begin c source = .ok w) (length : Nat) :
    (w.report (.started length)).Grounded := by
  have hfresh := Walk.fresh_begin hbegin
  constructor
  · exact (Walk.tracks_begin hbegin).report (by simp)
  · exact hfresh.symbols
  · exact hfresh.maxDepth.trans hfresh.depth.symm

/-- In every walk that a drawing comes to, the cursor is as deep as branches
are open, the saved cursors have the depths from zero on, and the greatest
depth is the greatest one so far.  If no branch is ever skipped, then the
warnings are about the closing brackets that match none, in order, the drawing
ends as deep as there are opening brackets that match none, and its greatest
depth is the greatest number of brackets that are open at once. -/
theorem drawing_accounts_for_brackets (c : TurtleConfig K) (source : G)
    (word : Word) :
    (∀ (u : Word) (w : Walk K G), Walk.Reaches c source word u w →
      w.cursor.depth = w.stack.length ∧
        w.stack.reverse.map (fun cursor => cursor.depth) =
          List.range w.stack.length ∧
        IsGreatest {depth | ∃ (v : Word) (x : Walk K G), v <+: u ∧
          Walk.Reaches c source word v x ∧ x.cursor.depth = depth}
          w.maxDepth) ∧
    (c.WellShaped → ∃ w, Walk.Draws c source word w) ∧
    (¬c.bounded.branchProbability < 1.0 →
      ∀ w, Walk.Draws c source word w →
        let drawing := w.interpretation
        let outcome := Walk.interpretFrom c source word
        outcome.1 = .ok drawing ∧
          drawing.unmatched.toList = unmatchedClosings word ∧
          outcome.2.toList.filter TurtleNotice.isWarning =
            (unmatchedClosings word).map .unmatched ∧
          drawing.final.depth = (unmatchedOpenings word).length ∧
          IsGreatest {count | ∃ u, u <+: word ∧
            (unmatchedOpenings u).length = count} drawing.maxDepth) := by
  refine ⟨?_, fun hshape => Walk.exists_draws hshape source word, ?_⟩
  · rintro u w ⟨hu, start, hbegin, hfollow⟩
    have hgrounded := Walk.grounded_begin hbegin word.length
    have hnested := hgrounded.tracks.nested
    obtain ⟨hdepth, hsaved⟩ := hnested.follow hfollow
    have hgreatest := hnested.isGreatest_maxDepth hgrounded.maxDepth hfollow
    have hdepths : {depth | ∃ (v : Word) (x : Walk K G), v <+: u ∧
        Walk.Reaches c source word v x ∧ x.cursor.depth = depth} =
          (start.report (.started word.length)).depths c.bounded u := by
      ext depth
      constructor
      · rintro ⟨v, x, hv, ⟨_, start', hbegin', hx⟩, rfl⟩
        obtain rfl := Except.ok.inj (hbegin.symm.trans hbegin')
        exact ⟨v, x, hv, hx, rfl⟩
      · rintro ⟨v, x, hv, hx, rfl⟩
        exact ⟨v, x, hv, ⟨hv.trans hu, start, hbegin, hx⟩, rfl⟩
    refine ⟨hdepth, ?_, hdepths ▸ hgreatest⟩
    rw [List.map_reverse, hsaved, List.reverse_reverse]
  · intro hcertain w hdraws drawing outcome
    have hinterpret : outcome = _ := hdraws.interpretFrom
    obtain ⟨start, hbegin, hfollow⟩ := hdraws
    have hgrounded := Walk.grounded_begin hbegin word.length
    have hnested := hgrounded.tracks.nested
    have hstart := hgrounded.tracks.mirrors hgrounded.symbols
    have hmirrors := hstart.follow hcertain hfollow
    have hgreatest := hnested.isGreatest_maxDepth hgrounded.maxDepth hfollow
    have hstrays : (word.foldl Brackets.read {}).strays =
        unmatchedClosings word := strays_ofWord word
    have hopened : (word.foldl Brackets.read {}).opened.length =
        (unmatchedOpenings word).length := by
      rw [← reverse_opened_ofWord, List.length_reverse]
      rfl
    have hwarnings := hmirrors.warnings
    rw [hstrays] at hwarnings
    refine ⟨by rw [hinterpret], ?_, ?_, ?_, ?_⟩
    · exact hmirrors.unmatched.trans hstrays
    · rw [hinterpret, Array.toList_push, List.filter_append, hwarnings]
      simp [TurtleNotice.isWarning]
    · rw [← hopened, ← hmirrors.stack]
      exact (hnested.follow hfollow).depth
    · rw [← hstart.depths_eq hnested hcertain hfollow]
      exact hgreatest

theorem drawing_accounts_for_brackets_sample :
    let word := "F]+[F[L]]f]][[L]F[".toList
    unmatchedClosings word = [1, 10, 11] ∧ unmatchedOpenings word = [12, 17] ∧
      ∃ w : Walk Float Pcg64,
        Walk.Reaches .standard (Pcg64.ofEntropy 7) word word w ∧
          w.stack.reverse.map (fun cursor => cursor.depth) = [0, 1] ∧
          w.interpretation.unmatched.toList = [1, 10, 11] ∧
          w.interpretation.final.depth = 2 := by
  intro word
  have hclosings : unmatchedClosings word = [1, 10, 11] := by decide +kernel
  have hopenings : unmatchedOpenings word = [12, 17] := by decide +kernel
  obtain ⟨hreached, hexists, hall⟩ := drawing_accounts_for_brackets
    (TurtleConfig.standard : TurtleConfig Float) (Pcg64.ofEntropy 7) word
  obtain ⟨w, hdraws⟩ := hexists ⟨rfl, rfl, rfl⟩
  have hreaches : Walk.Reaches .standard (Pcg64.ofEntropy 7) word word w :=
    ⟨List.prefix_rfl, hdraws⟩
  obtain ⟨hdepth, hsaved, _⟩ := hreached word w hreaches
  obtain ⟨_, hunmatched, _, hfinal, _⟩ := hall (by decide +kernel) w hdraws
  rw [hclosings] at hunmatched
  rw [hopenings] at hfinal
  have hstack : w.stack.length = 2 := hdepth.symm.trans hfinal
  rw [hstack] at hsaved
  exact ⟨hclosings, hopenings, w, hreaches, hsaved, hunmatched, hfinal⟩

end TreeGrowth
