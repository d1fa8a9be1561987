import TreeGrowth.Proofs.Numeric.Machine
import TreeGrowth.Proofs.Turtle.Depth

/-!
# Drawings without branches

A branch is skipped if its roll lies above the chance of a branch.  Where that
chance is zero, a drawing is therefore bare of branches unless one of its rolls
is exactly zero, which a source that draws from zero on can hand out.  A bare
drawing opens no branch and leaves nothing behind inside brackets; a drawing
that is not bare still matches all brackets of its word.
-/

namespace TreeGrowth

variable {K G : Type}

/-- What the source would hand out at the symbol. -/
def Encounter.roll [RandomSource G K] (encounter : Encounter K G) : K :=
  (RandomSource.unit encounter.before.source).1

variable [Trigonometric K] [RandomSource G K] {c : TurtleConfig K}
  {w w' : Walk K G}

/-! ## Where the encounters of a walk are -/

/-- The walk that comes to a symbol has followed the word up to it. -/
theorem Walk.follow_take_of_encounter {word : Word} {i : Nat}
    {encounter : Encounter K G}
    (hi : (Walk.encounters c word w)[i]? = some encounter) :
    w.follow c (word.take i) = .ok encounter.before ∧
      encounter.before.step c encounter.symbol = .ok encounter.after ∧
        w.follow c (word.take (i + 1)) = .ok encounter.after := by
  induction word generalizing w i with
  | nil => simp [Walk.encounters] at hi
  | cons symbol word ih =>
      cases hstep : w.step c symbol with
      | error stuck => simp [Walk.encounters, hstep] at hi
      | ok v =>
          rw [Walk.encounters_cons word hstep] at hi
          cases i with
          | zero =>
              obtain rfl := Option.some.inj hi
              refine ⟨rfl, hstep, ?_⟩
              rw [List.take_succ_cons, Walk.follow_cons, hstep]
              rfl
          | succ i =>
              obtain ⟨hbefore, hencounter, hafter⟩ := ih hi
              refine ⟨?_, hencounter, ?_⟩
              · rw [List.take_succ_cons, Walk.follow_cons, hstep]
                exact hbefore
              · rw [List.take_succ_cons, Walk.follow_cons, hstep]
                exact hafter

/-! ## Walks that open no branch -/

theorem Walk.maxDepth_step_eq_zero_iff {symbol : Char}
    (hstep : w.step c symbol = .ok w') :
    w'.maxDepth = 0 ↔ w.maxDepth = 0 ∧
      ((Encounter.mk symbol w w').executes '[' = true →
        c.Skips w.source) := by
  rw [Encounter.executes_iff]
  by_cases hopen : w.skipDepth = 0 ∧ symbol = '['
  · obtain ⟨hdrawn, rfl⟩ := hopen
    rw [Walk.step_open hdrawn] at hstep
    obtain rfl := Except.ok.inj hstep
    by_cases hskips : c.Skips w.source
    · rw [Walk.push_of_skips hskips]
      simp [Walk.report, hskips]
    · rw [Walk.push_of_not_skips hskips]
      simp [hskips, hdrawn]
  · have hkept : w'.maxDepth = w.maxDepth := by
      cases Walk.passes_of_step hstep with
      | skipped _ =>
          obtain ⟨skipDepth, hskip⟩ := w.exists_skip_eq symbol
          rw [hskip]
      | ignored _ _ => rfl
      | @obeyed hdrawn command hcommand v hobey =>
          change v.maxDepth = w.maxDepth
          by_cases hpush : command = .push
          · subst hpush
            have hsymbol := TurtleCommand.ofSymbol?_eq_push.mp hcommand
            exact absurd ⟨hdrawn, hsymbol⟩ hopen
          by_cases hpop : command = .pop
          · subst hpop
            obtain rfl := Except.ok.inj hobey
            unfold Walk.pop
            split <;> rfl
          · exact (Walk.obey_sameBranch hpush hpop hobey).maxDepth
    simp [hkept, hopen]

/-- A walk opens no branch if it skips every branch that it comes to. -/
theorem Walk.maxDepth_follow_eq_zero_iff {word : Word}
    (hfollow : w.follow c word = .ok w') :
    w'.maxDepth = 0 ↔ w.maxDepth = 0 ∧
      ∀ encounter ∈ Walk.encounters c word w,
        encounter.executes '[' = true → c.Skips encounter.before.source := by
  induction word generalizing w with
  | nil =>
      obtain rfl := Except.ok.inj hfollow
      simp [Walk.encounters]
  | cons symbol word ih =>
      obtain ⟨v, hstep, hrest⟩ := Walk.exists_step_of_follow_cons hfollow
      rw [ih hrest, Walk.maxDepth_step_eq_zero_iff hstep,
        Walk.encounters_cons word hstep, List.forall_mem_cons, and_assoc]

theorem Walk.Nested.stack_eq_nil (hnested : w.Nested)
    (hstart : w.maxDepth = w.cursor.depth) {u word : Word} {v : Walk K G}
    (hfollow : w.follow c word = .ok w') (hbare : w'.maxDepth = 0)
    (hu : u <+: word) (hv : w.follow c u = .ok v) : v.stack = [] := by
  have hgreatest := hnested.isGreatest_maxDepth hstart hfollow
  have hdepth : v.cursor.depth ≤ w'.maxDepth := hgreatest.2 ⟨u, v, hu, hv, rfl⟩
  rw [(hnested.follow hv).depth, hbare] at hdepth
  exact List.length_eq_zero_iff.mp (Nat.le_zero.mp hdepth)

/-- Inside brackets a walk without an open branch passes everything over. -/
theorem Walk.Reads.passes_over {b : Brackets} (hreads : w.Reads b)
    (hinside : b.opened ≠ []) (hstack : w.stack = []) {symbol : Char}
    (hstep : w.step c symbol = .ok w') :
    w'.segments = w.segments ∧ w'.leaves = w.leaves := by
  have hskipped : 0 < w.skipDepth := by
    have hopen := List.length_pos_of_ne_nil hinside
    rwa [← hreads.brackets, hstack, List.length_nil, Nat.zero_add] at hopen
  rw [Walk.step_of_skipped hskipped] at hstep
  obtain rfl := Except.ok.inj hstep
  exact ⟨w.segments_skip symbol, w.leaves_skip symbol⟩

/-! ## Drawings without a chance of branches -/

theorem TurtleConfig.skips_bounded_iff {c : TurtleConfig Float}
    {G : Type} [RandomSource G Float] (hchance : c.branchProbability ≤ 0.0)
    (source : G) :
    c.bounded.Skips source ↔ 0.0 < (RandomSource.unit source).1 := by
  have hzero : Machine.IsZero c.bounded.branchProbability :=
    Machine.isZero_clamp hchance
  have huncertain : c.bounded.branchProbability < 1.0 :=
    (hzero.lt_iff 1.0).mpr (by decide +kernel)
  rw [TurtleConfig.Skips, and_iff_right huncertain, hzero.lt_iff]

theorem Walk.Draws.maxDepth_eq_zero_iff {G : Type} [RandomSource G Float]
    {c : TurtleConfig Float} {w : Walk Float G} {source : G} {word : Word}
    (hchance : c.branchProbability ≤ 0.0)
    (hdraws : Walk.Draws c source word w) :
    w.maxDepth = 0 ↔ ∀ encounter ∈ Walk.course c source word,
      encounter.executes '[' = true → 0.0 < encounter.roll := by
  obtain ⟨start, hfresh, hfollow, hcourse⟩ := hdraws.exists_fresh
  rw [Walk.maxDepth_follow_eq_zero_iff hfollow,
    and_iff_right hfresh.maxDepth, hcourse]
  simp only [TurtleConfig.skips_bounded_iff hchance]
  rfl

/-- Where branches have no chance, a drawing is bare of branches if none of the
rolls for them is exactly zero, and only then.  In a bare drawing no branch is
ever open, and no symbol inside brackets leaves a segment or a leaf behind.
Bare or not, the drawing warns about exactly the closing brackets that match
none. -/
theorem no_branch_without_chance {G : Type} [RandomSource G Float]
    (c : TurtleConfig Float) (hchance : c.branchProbability ≤ 0.0)
    (source : G) (word : Word) :
    (c.WellShaped → ∃ w, Walk.Draws c source word w) ∧
      ∀ w, Walk.Draws c source word w →
        let course := Walk.course c source word
        let outcome := Walk.interpretFrom c source word
        course.map Encounter.symbol = word ∧
          outcome.1 = .ok w.interpretation ∧
          w.interpretation.unmatched.toList = unmatchedClosings word ∧
          outcome.2.toList.filter TurtleNotice.isWarning =
            (unmatchedClosings word).map .unmatched ∧
          (w.interpretation.maxDepth = 0 ↔
            ∀ encounter ∈ course, encounter.executes '[' = true →
              0.0 < encounter.roll) ∧
          (w.interpretation.maxDepth = 0 →
            ∀ (i : Nat) (encounter : Encounter Float G),
              course[i]? = some encounter →
                encounter.before.stack = [] ∧ encounter.after.stack = [] ∧
                  (unmatchedOpenings (word.take i) ≠ [] →
                    encounter.after.segments = encounter.before.segments ∧
                      encounter.after.leaves = encounter.before.leaves)) := by
  refine ⟨fun hshape => Walk.exists_draws hshape source word, ?_⟩
  intro w hdraws course outcome
  have hinterpret : outcome = _ := hdraws.interpretFrom
  have hiff := hdraws.maxDepth_eq_zero_iff hchance
  obtain ⟨start, hbegin, hfollow⟩ := hdraws
  have hcourse : course = Walk.encounters c.bounded word
      (start.report (.started word.length)) := by
    simp only [course, Walk.course, hbegin]
  have hgrounded := Walk.grounded_begin hbegin word.length
  have hnested := hgrounded.tracks.nested
  have hstart := hgrounded.tracks.reads hgrounded.symbols
  have hreads := hstart.follow hfollow
  have hstrays : (word.foldl Brackets.read {}).strays =
      unmatchedClosings word := strays_ofWord word
  have hwarnings := hreads.warnings
  rw [hstrays] at hwarnings
  refine ⟨?_, by rw [hinterpret], hreads.unmatched.trans hstrays, ?_, hiff,
    ?_⟩
  · rw [hcourse, Walk.symbols_encounters hfollow]
  · rw [hinterpret, Array.toList_push, List.filter_append, hwarnings]
    simp [TurtleNotice.isWarning]
  · intro hbare i encounter hi
    rw [hcourse] at hi
    obtain ⟨hbefore, hstep, hafter⟩ := Walk.follow_take_of_encounter hi
    have hstack := hnested.stack_eq_nil hgrounded.maxDepth hfollow hbare
      (List.take_prefix _ _) hbefore
    refine ⟨hstack, ?_, fun hinside => ?_⟩
    · exact hnested.stack_eq_nil hgrounded.maxDepth hfollow hbare
        (List.take_prefix _ _) hafter
    · rw [← reverse_opened_ofWord, Ne, List.reverse_eq_nil_iff] at hinside
      exact (hstart.follow hbefore).passes_over hinside hstack hstep

/-- The standard drawing, with no chance of branches. -/
def TurtleConfig.branchless : TurtleConfig Float :=
  { TurtleConfig.standard with branchProbability := 0.0 }

theorem no_branch_without_chance_sample :
    let word := "F[+F[L]]]F[L".toList
    TurtleConfig.branchless.branchProbability ≤ 0.0 ∧
      ∃ w, Walk.Draws .branchless (Pcg64.ofEntropy 7) word w ∧
        w.interpretation.unmatched.toList = [8] ∧
        w.interpretation.maxDepth = 0 := by
  intro word
  have hchance : TurtleConfig.branchless.branchProbability ≤ 0.0 := by
    decide +kernel
  obtain ⟨hexists, hall⟩ := no_branch_without_chance .branchless hchance
    (Pcg64.ofEntropy 7) word
  obtain ⟨w, hdraws⟩ := hexists ⟨rfl, rfl, rfl⟩
  obtain ⟨_, _, hunmatched, _, hbare, _⟩ := hall w hdraws
  have hclosings : unmatchedClosings word = [8] := by decide +kernel
  have hrolls : ∀ encounter ∈
      Walk.course .branchless (Pcg64.ofEntropy 7) word,
        encounter.executes '[' = true → 0.0 < encounter.roll := by
    decide +kernel
  exact ⟨hchance, w, hdraws, hunmatched.trans hclosings, hbare.mpr hrolls⟩

/-- A roll can be exactly zero, and then the branch is drawn. -/
theorem not_every_drawing_without_chance_bare :
    ¬∀ (c : TurtleConfig Float) (entropy : Nat) (word : Word),
      c.branchProbability = 0.0 →
        ∀ w, Walk.Draws c (Pcg64.ofEntropy entropy) word w →
          w.interpretation.maxDepth = 0 := by
  intro hbare
  let seed := 83137646622097627193772704024227437077
  let word := "[FL]".toList
  have hchance : TurtleConfig.branchless.branchProbability ≤ 0.0 := by
    decide +kernel
  have hrolls : ¬∀ encounter ∈
      Walk.course .branchless (Pcg64.ofEntropy seed) word,
        encounter.executes '[' = true → 0.0 < encounter.roll := by
    decide +kernel
  have hshape : TurtleConfig.branchless.WellShaped := ⟨rfl, rfl, rfl⟩
  obtain ⟨w, hdraws⟩ := Walk.exists_draws hshape (Pcg64.ofEntropy seed) word
  exact hrolls ((hdraws.maxDepth_eq_zero_iff hchance).mp
    (hbare .branchless seed word rfl w hdraws))

end TreeGrowth
