import TreeGrowth.Proofs.Bracket.Balanced
import TreeGrowth.Proofs.Turtle.Step

/-!
# Brackets of a drawing

A drawing counts open brackets in two places: the stack holds one cursor for
each branch that is drawn, and the skip depth counts the brackets from a
skipped branch on.  Their sum follows the bracket counter of the word, whatever
the dice say, so a word that never closes more brackets than are open never
ends a branch that has not begun.
-/

namespace TreeGrowth

variable {K G : Type} [Trigonometric K] [RandomSource G K]

/-! ## Commands that leave the branch alone -/

/-- Two walks are inside the same branches and have noticed nothing wrong
since one another. -/
structure Walk.SameBranch (w w' : Walk K G) : Prop where
  stack : w'.stack = w.stack
  skipDepth : w'.skipDepth = w.skipDepth
  depth : w'.cursor.depth = w.cursor.depth
  maxDepth : w'.maxDepth = w.maxDepth
  unmatched : w'.unmatched = w.unmatched
  notices : w'.notices = w.notices

theorem Walk.forward_sameBranch {c : TurtleConfig K} {isDrawn : Bool}
    {w w' : Walk K G} (hforward : w.forward c isDrawn = .ok w') :
    w.SameBranch w' := by
  obtain ⟨basis, rfl⟩ := Walk.exists_eq_of_forward hforward
  constructor <;> rfl

theorem Walk.obey_sameBranch {c : TurtleConfig K} {w w' : Walk K G}
    {command : TurtleCommand} (hpush : command ≠ .push)
    (hpop : command ≠ .pop) (hobey : w.obey c command = .ok w') :
    w.SameBranch w' := by
  cases command with
  | draw => exact Walk.forward_sameBranch hobey
  | move => exact Walk.forward_sameBranch hobey
  | push => exact absurd rfl hpush
  | pop => exact absurd rfl hpop
  | yawLeft | yawRight | pitchUp | pitchDown | rollLeft | rollRight
  | turnAround | leaf =>
      obtain rfl := Except.ok.inj hobey
      constructor <;> rfl

theorem TurtleCommand.ofSymbol?_eq_push {c : Char} :
    TurtleCommand.ofSymbol? c = some .push ↔ c = '[' := by
  unfold TurtleCommand.ofSymbol?
  split <;> simp_all

theorem TurtleCommand.ofSymbol?_eq_pop {c : Char} :
    TurtleCommand.ofSymbol? c = some .pop ↔ c = ']' := by
  unfold TurtleCommand.ofSymbol?
  split <;> simp_all

/-- A symbol that is no bracket leaves the branch alone. -/
theorem Walk.sameBranch_of_symbol {c : TurtleConfig K} {w w' : Walk K G}
    {symbol : Char} {command : TurtleCommand} (hopen : symbol ≠ '[')
    (hclose : symbol ≠ ']')
    (hcommand : TurtleCommand.ofSymbol? symbol = some command)
    (hobey : w.obey c command = .ok w') : w.SameBranch w' := by
  apply Walk.obey_sameBranch _ _ hobey
  · rintro rfl
    exact hopen (TurtleCommand.ofSymbol?_eq_push.mp hcommand)
  · rintro rfl
    exact hclose (TurtleCommand.ofSymbol?_eq_pop.mp hcommand)

theorem bracketStep_of_ofSymbol? {c : Char}
    (hpush : TurtleCommand.ofSymbol? c ≠ some .push)
    (hpop : TurtleCommand.ofSymbol? c ≠ some .pop) (n : Nat) :
    bracketStep n c = some n := by
  rw [Ne, TurtleCommand.ofSymbol?_eq_push] at hpush
  rw [Ne, TurtleCommand.ofSymbol?_eq_pop] at hpop
  exact bracketStep_of_ne hpush hpop n

variable {c : TurtleConfig K} {w w' : Walk K G} {n m : Nat}

/-! ## Depths -/

/-- The cursor is as deep as branches are open, and the cursors on the stack
are in the order of their depths. -/
structure Walk.Nested (w : Walk K G) : Prop where
  depth : w.cursor.depth = w.stack.length
  saved : w.stack.map (fun cursor => cursor.depth) =
    (List.range w.stack.length).reverse

theorem Walk.Nested.push (hnested : w.Nested) : (w.push c).Nested := by
  obtain ⟨hdepth, hsaved⟩ := hnested
  by_cases hskips : c.Skips w.source
  · rw [Walk.push_of_skips hskips]
    exact ⟨hdepth, hsaved⟩
  · rw [Walk.push_of_not_skips hskips]
    constructor
    · change w.cursor.depth + 1 = w.stack.length + 1
      rw [hdepth]
    · change w.cursor.depth :: w.stack.map (fun cursor => cursor.depth) =
        (List.range (w.stack.length + 1)).reverse
      rw [List.range_succ, List.reverse_append, hdepth, hsaved]
      rfl

omit [Trigonometric K] [RandomSource G K] in
theorem Walk.Nested.pop (hnested : w.Nested) : w.pop.Nested := by
  obtain ⟨hdepth, hsaved⟩ := hnested
  unfold Walk.pop
  cases hstack : w.stack with
  | nil =>
      rw [hstack] at hdepth
      exact ⟨hdepth, rfl⟩
  | cons cursor stack =>
      rw [hstack] at hsaved
      simp only [List.length_cons, List.map_cons, List.range_succ,
        List.reverse_append, List.reverse_singleton, List.singleton_append,
        List.cons.injEq] at hsaved
      exact ⟨hsaved.1, hsaved.2⟩

/-! ## Counting open brackets -/

/-- The walk has `n` brackets open, each on the stack or skipped, with the
cursors on the stack in the order of their depths, and has never ended a branch
that had not begun. -/
structure Walk.Tracks (w : Walk K G) (n : Nat) : Prop where
  brackets : w.stack.length + w.skipDepth = n
  depth : w.cursor.depth = w.stack.length
  saved : w.stack.map (fun cursor => cursor.depth) =
    (List.range w.stack.length).reverse
  unmatched : w.unmatched = #[]
  notices : ∀ symbol, TurtleNotice.unmatched symbol ∉ w.notices

omit [Trigonometric K] [RandomSource G K] in
theorem Walk.SameBranch.tracks (hsame : w.SameBranch w')
    (htracks : w.Tracks n) : w'.Tracks n := by
  obtain ⟨hbrackets, hdepth, hsaved, hunmatched, hnotices⟩ := htracks
  constructor
  · rw [hsame.stack, hsame.skipDepth, hbrackets]
  · rw [hsame.depth, hsame.stack, hdepth]
  · rw [hsame.stack, hsaved]
  · rw [hsame.unmatched, hunmatched]
  · rw [hsame.notices]
    exact hnotices

omit [Trigonometric K] [RandomSource G K] in
theorem Walk.Tracks.nested (htracks : w.Tracks n) : w.Nested :=
  ⟨htracks.depth, htracks.saved⟩

theorem Walk.Tracks.push (htracks : w.Tracks n) (hdrawn : w.skipDepth = 0) :
    (w.push c).Tracks (n + 1) := by
  obtain ⟨hdepth, hsaved⟩ := htracks.nested.push (c := c)
  obtain ⟨hbrackets, _, _, hunmatched, hnotices⟩ := htracks
  by_cases hskips : c.Skips w.source
  · -- The branch is skipped, and the skip depth counts its bracket.
    rw [Walk.push_of_skips hskips] at hdepth hsaved ⊢
    refine ⟨?_, hdepth, hsaved, ?_, ?_⟩
    · change w.stack.length + 1 = n + 1
      omega
    · exact hunmatched
    · intro symbol hmem
      rcases Array.mem_push.mp hmem with hold | hnew
      · exact hnotices symbol hold
      · simp at hnew
  · -- The branch is drawn, and the stack keeps the cursor at its bracket.
    rw [Walk.push_of_not_skips hskips] at hdepth hsaved ⊢
    refine ⟨?_, hdepth, hsaved, hunmatched, hnotices⟩
    change w.stack.length + 1 + w.skipDepth = n + 1
    omega

omit [Trigonometric K] [RandomSource G K] in
theorem Walk.Tracks.pop (htracks : w.Tracks (n + 1))
    (hdrawn : w.skipDepth = 0) : w.pop.Tracks n := by
  obtain ⟨hdepth, hsaved⟩ := htracks.nested.pop
  obtain ⟨hbrackets, _, _, hunmatched, hnotices⟩ := htracks
  unfold Walk.pop at hdepth hsaved ⊢
  cases hstack : w.stack with
  | nil =>
      rw [hstack, hdrawn] at hbrackets
      simp at hbrackets
  | cons cursor stack =>
      rw [hstack] at hbrackets
      simp only [hstack] at hdepth hsaved
      refine ⟨?_, hdepth, hsaved, hunmatched, hnotices⟩
      change stack.length + w.skipDepth = n
      rw [List.length_cons] at hbrackets
      omega

omit [Trigonometric K] [RandomSource G K] in
theorem Walk.Tracks.skip (htracks : w.Tracks n) (hskipped : 0 < w.skipDepth)
    {symbol : Char} (hstep : bracketStep n symbol = some m) :
    (w.skip symbol).Tracks m := by
  obtain ⟨hbrackets, hdepth, hsaved, hunmatched, hnotices⟩ := htracks
  unfold bracketStep at hstep
  unfold Walk.skip
  split
  next hopen =>
    rw [if_pos hopen] at hstep
    obtain rfl := Option.some.inj hstep
    exact ⟨by rw [← hbrackets]; rfl, hdepth, hsaved, hunmatched, hnotices⟩
  next hopen =>
    rw [if_neg hopen] at hstep
    split
    next hclose =>
      rw [if_pos hclose, if_neg (by omega)] at hstep
      obtain rfl := Option.some.inj hstep
      refine ⟨?_, hdepth, hsaved, hunmatched, hnotices⟩
      change w.stack.length + (w.skipDepth - 1) = n - 1
      omega
    next hclose =>
      rw [if_neg hclose] at hstep
      obtain rfl := Option.some.inj hstep
      exact ⟨hbrackets, hdepth, hsaved, hunmatched, hnotices⟩

theorem Walk.Tracks.obey (htracks : w.Tracks n) (hdrawn : w.skipDepth = 0)
    {symbol : Char} {command : TurtleCommand}
    (hcommand : TurtleCommand.ofSymbol? symbol = some command)
    (hstep : bracketStep n symbol = some m)
    (hobey : w.obey c command = .ok w') : w'.Tracks m := by
  by_cases hpush : command = .push
  · subst hpush
    obtain rfl := TurtleCommand.ofSymbol?_eq_push.mp hcommand
    obtain rfl := Option.some.inj hstep
    obtain rfl := Except.ok.inj hobey
    exact htracks.push hdrawn
  by_cases hpop : command = .pop
  · subst hpop
    obtain rfl := TurtleCommand.ofSymbol?_eq_pop.mp hcommand
    obtain rfl := Except.ok.inj hobey
    cases n with
    | zero => simp [bracketStep] at hstep
    | succ n =>
        obtain rfl : n = m := by simpa [bracketStep] using hstep
        exact htracks.pop hdrawn
  · have hunchanged : bracketStep n symbol = some n :=
      bracketStep_of_ofSymbol? (by simpa [hcommand] using hpush)
        (by simpa [hcommand] using hpop) n
    rw [hunchanged] at hstep
    obtain rfl := Option.some.inj hstep
    exact (Walk.obey_sameBranch hpush hpop hobey).tracks htracks

theorem Walk.Tracks.step (htracks : w.Tracks n) {symbol : Char}
    (hstep : bracketStep n symbol = some m)
    (hnext : w.step c symbol = .ok w') : w'.Tracks m := by
  have hcounted : ∀ {v : Walk K G}, v.Tracks m →
      ({ v with symbols := v.symbols + 1 } : Walk K G).Tracks m :=
    fun hv => ⟨hv.brackets, hv.depth, hv.saved, hv.unmatched, hv.notices⟩
  cases Walk.passes_of_step hnext with
  | skipped hskipped => exact hcounted (htracks.skip hskipped hstep)
  | ignored hdrawn hnone =>
      have hunchanged : bracketStep n symbol = some n :=
        bracketStep_of_ofSymbol? (by simp [hnone]) (by simp [hnone]) n
      rw [hunchanged] at hstep
      obtain rfl := Option.some.inj hstep
      exact hcounted htracks
  | obeyed hdrawn hcommand hobey =>
      exact hcounted (htracks.obey hdrawn hcommand hstep hobey)

theorem Walk.Tracks.follow (htracks : w.Tracks n) {word : Word}
    (hword : openAfter? n word = some m)
    (hfollow : w.follow c word = .ok w') : w'.Tracks m := by
  -- The counter of the rest of the word begins where the step has left the
  -- number of open brackets.
  induction word generalizing w n with
  | nil =>
      obtain rfl := Except.ok.inj hfollow
      obtain rfl := Option.some.inj hword
      exact htracks
  | cons symbol word ih =>
      rw [openAfter?_cons] at hword
      obtain ⟨j, hstep, hrest⟩ := Option.bind_eq_some_iff.mp hword
      obtain ⟨v, hnext, hlater⟩ := Walk.exists_step_of_follow_cons hfollow
      exact ih (htracks.step hstep hnext) hrest hlater

/-! ## Drawings that get stuck -/

theorem Walk.forward_error {isDrawn : Bool} {stuck : StuckWalk K G}
    (hstuck : w.forward c isDrawn = .error stuck) : stuck.walk = w := by
  unfold Walk.forward at hstuck
  cases hbend : Cursor.bend c w.cursor.basis with
  | error fault =>
      simp only [hbend] at hstuck
      obtain rfl := Except.error.inj hstuck
      rfl
  | ok basis => simp [hbend] at hstuck

theorem Walk.obey_error {command : TurtleCommand} {stuck : StuckWalk K G}
    (hstuck : w.obey c command = .error stuck) : stuck.walk = w := by
  cases command with
  | draw => exact Walk.forward_error hstuck
  | move => exact Walk.forward_error hstuck
  | _ => simp [Walk.obey] at hstuck

theorem Walk.step_error {symbol : Char} {stuck : StuckWalk K G}
    (hstuck : w.step c symbol = .error stuck) : stuck.walk = w := by
  unfold Walk.step at hstuck
  by_cases hskipped : 0 < w.skipDepth
  · simp [if_pos hskipped, Except.map] at hstuck
  · simp only [if_neg hskipped] at hstuck
    cases hcommand : TurtleCommand.ofSymbol? symbol with
    | none => simp [hcommand, Except.map] at hstuck
    | some command =>
        simp only [hcommand] at hstuck
        cases hobey : w.obey c command with
        | ok v => simp [hobey, Except.map] at hstuck
        | error stuck' =>
            rw [hobey] at hstuck
            obtain rfl := Except.error.inj hstuck
            exact Walk.obey_error hobey

theorem Walk.follow_error {word : Word} {stuck : StuckWalk K G}
    (hstuck : w.follow c word = .error stuck) :
    ∃ u, u <+: word ∧ w.follow c u = .ok stuck.walk := by
  induction word generalizing w with
  | nil => exact absurd hstuck (by simp [Walk.follow, pure, Except.pure])
  | cons symbol word ih =>
      rw [Walk.follow, List.foldlM_cons] at hstuck
      cases hnext : w.step c symbol with
      | error stuck' =>
          rw [hnext] at hstuck
          obtain rfl := Except.error.inj hstuck
          refine ⟨[], List.nil_prefix, ?_⟩
          rw [Walk.step_error hnext]
          rfl
      | ok v =>
          rw [hnext] at hstuck
          obtain ⟨u, hu, hfollow⟩ := ih hstuck
          refine ⟨symbol :: u, List.cons_prefix_cons.mpr ⟨rfl, hu⟩, ?_⟩
          rw [Walk.follow, List.foldlM_cons, hnext]
          exact hfollow

/-! ## Drawings that do not get stuck -/

omit [RandomSource G K] in
/-- All vectors of the parameters have three coordinates. -/
structure TurtleConfig.WellShaped (c : TurtleConfig K) : Prop where
  initialForward : c.initialForward.length = 3
  initialPosition : c.initialPosition.length = 3
  tropismDirection : c.tropismDirection.length = 3

omit [Trigonometric K] in
theorem Vec3.exists_ofList {coordinates : List K}
    (hlength : coordinates.length = 3) :
    ∃ v, Vec3.ofList coordinates = .ok v := by
  obtain ⟨x, y, z, rfl⟩ := List.length_eq_three.mp hlength
  exact ⟨_, rfl⟩

theorem Walk.exists_forward (hshape : c.WellShaped) (isDrawn : Bool)
    (w : Walk K G) : ∃ w', w.forward c isDrawn = .ok w' := by
  obtain ⟨direction, hdirection⟩ :=
    Vec3.exists_ofList hshape.tropismDirection
  have hbend : ∃ basis, Cursor.bend c w.cursor.basis = .ok basis := by
    unfold Cursor.bend
    split
    next => exact ⟨_, rfl⟩
    next =>
      rw [hdirection]
      exact ⟨_, rfl⟩
  obtain ⟨basis, hbasis⟩ := hbend
  simp only [Walk.forward, hbasis]
  exact ⟨_, rfl⟩

theorem Walk.exists_step (hshape : c.WellShaped) (w : Walk K G)
    (symbol : Char) : ∃ w', w.step c symbol = .ok w' := by
  unfold Walk.step
  split
  next => exact ⟨_, rfl⟩
  next =>
    split
    next command _ =>
      have hobey : ∃ v, w.obey c command = .ok v := by
        cases command with
        | draw => exact Walk.exists_forward hshape true w
        | move => exact Walk.exists_forward hshape false w
        | _ => exact ⟨_, rfl⟩
      obtain ⟨v, hv⟩ := hobey
      rw [hv]
      exact ⟨_, rfl⟩
    next => exact ⟨_, rfl⟩

theorem Walk.exists_follow (hshape : c.WellShaped) (w : Walk K G)
    (word : Word) : ∃ w', w.follow c word = .ok w' := by
  induction word generalizing w with
  | nil => exact ⟨w, rfl⟩
  | cons symbol word ih =>
      obtain ⟨v, hv⟩ := Walk.exists_step hshape w symbol
      obtain ⟨w', hw'⟩ := ih v
      refine ⟨w', ?_⟩
      rw [Walk.follow, List.foldlM_cons, hv]
      exact hw'

/-! ## Whole drawings -/

/-- The walk in which a drawing of a word ends. -/
def Walk.Draws (c : TurtleConfig K) (source : G) (word : Word)
    (w : Walk K G) : Prop :=
  ∃ start : Walk K G, Walk.begin c.bounded source = .ok start ∧
    (start.report (.started word.length)).follow c.bounded word = .ok w

theorem Cursor.depth_ofConfig {cursor : Cursor K}
    (hcursor : Cursor.ofConfig c = .ok cursor) : cursor.depth = 0 := by
  obtain ⟨position, basis, rfl⟩ := Cursor.exists_eq_of_ofConfig hcursor
  rfl

theorem Walk.tracks_begin {source : G}
    (hbegin : Walk.begin c source = .ok w) : w.Tracks 0 := by
  unfold Walk.begin at hbegin
  cases hcursor : Cursor.ofConfig c with
  | error fault => simp [hcursor, Except.map] at hbegin
  | ok cursor =>
      have hdepth := Cursor.depth_ofConfig hcursor
      rw [hcursor] at hbegin
      obtain rfl := Except.ok.inj hbegin
      split
      next => exact ⟨rfl, hdepth, rfl, rfl, by simp [Walk.report, Walk.turned]⟩
      next => exact ⟨rfl, hdepth, rfl, rfl, by simp⟩

omit [Trigonometric K] [RandomSource G K] in
theorem Walk.Tracks.report (htracks : w.Tracks n) {notice : TurtleNotice K}
    (hnotice : ∀ symbol, notice ≠ .unmatched symbol) :
    (w.report notice).Tracks n := by
  refine ⟨htracks.brackets, htracks.depth, htracks.saved,
    htracks.unmatched, ?_⟩
  intro symbol hmem
  rcases Array.mem_push.mp hmem with hold | hnew
  · exact htracks.notices symbol hold
  · exact hnotice symbol hnew.symm

theorem Walk.Draws.tracks {source : G} {word : Word}
    (hdraws : Walk.Draws c source word w)
    (hword : openAfter? 0 word = some n) : w.Tracks n := by
  obtain ⟨start, hbegin, hfollow⟩ := hdraws
  exact ((Walk.tracks_begin hbegin).report (by simp)).follow hword hfollow

theorem Walk.Draws.interpretFrom {source : G} {word : Word}
    (hdraws : Walk.Draws c source word w) :
    Walk.interpretFrom c source word =
      (.ok w.interpretation, w.notices.push
        (.completed w.segments.size w.leaves.size w.maxDepth)) := by
  obtain ⟨start, hbegin, hfollow⟩ := hdraws
  simp only [Walk.interpretFrom, hbegin, hfollow]

theorem Walk.exists_draws (hshape : c.WellShaped) (source : G) (word : Word) :
    ∃ w, Walk.Draws c source word w := by
  have hbounded : c.bounded.WellShaped :=
    ⟨hshape.initialForward, hshape.initialPosition, hshape.tropismDirection⟩
  obtain ⟨forward, hforward⟩ := Vec3.exists_ofList hbounded.initialForward
  obtain ⟨position, hposition⟩ := Vec3.exists_ofList hbounded.initialPosition
  have hbegin : ∃ start : Walk K G,
      Walk.begin c.bounded source = .ok start := by
    unfold Walk.begin Cursor.ofConfig
    rw [hforward, hposition]
    exact ⟨_, rfl⟩
  obtain ⟨start, hstart⟩ := hbegin
  obtain ⟨w, hw⟩ := Walk.exists_follow hbounded
    (start.report (.started word.length)) word
  exact ⟨w, start, hstart, hw⟩

/-- A word that closes no bracket that is not open ends no branch that has not
begun, also where its drawing gets stuck. -/
theorem Walk.unmatched_notMem_notices {word : Word}
    (hword : openAfter? 0 word = some n) (c : TurtleConfig K) (source : G)
    (symbol : Nat) :
    .unmatched symbol ∉ (Walk.interpretFrom c source word).2 := by
  simp only [Walk.interpretFrom]
  cases hbegin : Walk.begin c.bounded source with
  | error fault => simp
  | ok start =>
      have hstart : (start.report (.started word.length)).Tracks 0 :=
        (Walk.tracks_begin hbegin).report (by simp)
      cases hfollow : (start.report (.started word.length)).follow c.bounded
          word with
      | error stuck =>
          obtain ⟨u, hu, hstuck⟩ := Walk.follow_error hfollow
          obtain ⟨j, hj⟩ := exists_openAfter?_of_prefix hu hword
          have htracks := hstart.follow hj hstuck
          simp only [hfollow]
          exact htracks.notices symbol
      | ok w =>
          have htracks := hstart.follow hword hfollow
          have hdone : (w.report (.completed w.segments.size w.leaves.size
              w.maxDepth)).Tracks n := htracks.report (by simp)
          simp only [hfollow]
          exact hdone.notices symbol

/-! ## Drawings of generated words -/

/-- The engine has a start word whose brackets match, and rules that neither
rewrite brackets nor write unmatched ones. -/
structure Engine.KeepsBrackets {H : Type} (e : Engine H) : Prop where
  start : Balanced e.start
  rules : ∀ r ∈ e.rules, r.KeepsBrackets

omit [Trigonometric K] [RandomSource G K] in
theorem Walk.Tracks.zero (htracks : w.Tracks 0) :
    w.stack = [] ∧ w.skipDepth = 0 ∧ w.cursor.depth = 0 := by
  have hbrackets := htracks.brackets
  have hstack : w.stack = [] := List.length_eq_zero_iff.mp (by omega)
  have hdepth : w.cursor.depth = 0 := by
    rw [htracks.depth, hstack]
    rfl
  exact ⟨hstack, by omega, hdepth⟩

/-- However a run is observed, cancelled or cut short, a drawing of its word
never ends a branch that has not begun, whatever its parameters and its dice.
It ends on the trunk, with no branch open or skipped, unless the last pass of
the run was cut at the limit. -/
theorem generated_word_ends_no_unopened_branch {H σ : Type}
    [SeededSource H Float] (requested : Int) (observer : Observer H σ)
    (run : Run H σ) (hkeeps : run.engine.KeepsBrackets) {result : RunResult}
    (hresult : (run.generate requested observer).1 = .ok result)
    (c : TurtleConfig K) (source : G) :
    (∀ symbol,
        .unmatched symbol ∉ (Walk.interpretFrom c source result.word).2) ∧
      (c.WellShaped → ∃ w, Walk.Draws c source result.word w) ∧
      ∀ w, Walk.Draws c source result.word w →
        (Walk.interpretFrom c source result.word).1 = .ok w.interpretation ∧
          w.interpretation.unmatched = #[] ∧
          (¬run.WasCut requested result →
            w.stack = [] ∧ w.skipDepth = 0 ∧
              w.interpretation.final.depth = 0) := by
  obtain ⟨⟨n, hopen⟩, hclosed⟩ := run.openAfter?_result observer requested
    hkeeps.start hkeeps.rules hresult
  refine ⟨Walk.unmatched_notMem_notices hopen c source, ?_, ?_⟩
  · intro hshape
    exact Walk.exists_draws hshape source result.word
  · intro w hdraws
    have hinterpret := hdraws.interpretFrom
    refine ⟨by rw [hinterpret], (hdraws.tracks hopen).unmatched, ?_⟩
    intro huncut
    exact (hdraws.tracks (hclosed huncut)).zero

def Engine.branchingSample : Engine Pcg64 :=
  { Engine.sample with
    start := ['[', 'A', ']']
    rules := [.ofWords [] ['A'] [] ['A', '[', 'B', ']'] 1.0] }

theorem Engine.branchingSample_keepsBrackets :
    Engine.branchingSample.KeepsBrackets where
  start := by
    have hnil := Balanced.nil
    exact (hnil.symbol (c := 'A') (by decide) (by decide)).branch hnil
  rules := by
    intro r hr
    obtain rfl := List.mem_singleton.mp hr
    have hnil := Balanced.nil
    exact {
      successor := ((hnil.symbol (c := 'B') (by decide) (by decide)).branch
        hnil).symbol (by decide) (by decide)
      not_open := by decide
      not_close := by decide }

theorem generated_word_ends_no_unopened_branch_sample :
    let run : Run Pcg64 Unit :=
      { engine := Engine.branchingSample, cancelled := false, memory := () }
    ∃ result, (run.generate 2 .idle).1 = .ok result ∧
      result.word = "[A[B][B]]".toList ∧
      ∀ w : Walk Float Pcg64,
        Walk.Draws .standard (Pcg64.ofEntropy 7) result.word w →
          w.interpretation.unmatched = #[] ∧ w.stack = [] := by
  intro run
  have hword : ((run.generate 2 .idle).1.map fun result =>
      (result.word, result.statistics.passes)).toOption =
        some ("[A[B][B]]".toList, 2) := by decide +kernel
  cases hresult : (run.generate 2 .idle).1 with
  | error fault =>
      rw [hresult] at hword
      simp [Except.map, Except.toOption] at hword
  | ok result =>
      rw [hresult] at hword
      obtain ⟨hlast, hpasses⟩ :=
        Prod.mk.inj (Option.some.inj hword)
      have huncut : ¬run.WasCut 2 result := by
        rintro ⟨source, hsource, hcut⟩
        obtain rfl := Except.ok.inj hsource
        change (RunPlan.stage _ _ result.statistics.passes).truncated =
          true at hcut
        rw [hpasses] at hcut
        revert hcut
        decide +kernel
      refine ⟨result, rfl, hlast, ?_⟩
      intro w hdraws
      obtain ⟨_, _, hdrawn⟩ := generated_word_ends_no_unopened_branch 2 .idle
        run Engine.branchingSample_keepsBrackets hresult .standard
        (Pcg64.ofEntropy 7)
      obtain ⟨_, hunmatched, hclosed⟩ := hdrawn w hdraws
      exact ⟨hunmatched, (hclosed huncut).1⟩

end TreeGrowth
