import TreeGrowth.Proofs.Turtle.Chain

/-!
# The symbols of a drawing one by one

A drawing comes to the symbols of its word one after the other.  Each of these
encounters keeps the walk before and after the symbol, so what the symbols of a
word have done, and which of them did nothing, can be counted afterwards.
-/

namespace TreeGrowth

/-- A symbol that a walk comes to. -/
structure Encounter (K G : Type) where
  symbol : Char
  before : Walk K G
  after : Walk K G

namespace Encounter

variable {K G : Type}

/-- The symbol is this one and lies outside skipped branches. -/
def executes (symbol : Char) (encounter : Encounter K G) : Bool :=
  encounter.before.skipDepth == 0 && encounter.symbol == symbol

theorem executes_iff {encounter : Encounter K G} {symbol : Char} :
    encounter.executes symbol = true ↔
      encounter.before.skipDepth = 0 ∧ encounter.symbol = symbol := by
  simp [executes]

/-- A move of the trunk, outside all branches, drawn or not. -/
def isTrunkMove (encounter : Encounter K G) : Bool :=
  (encounter.executes 'F' || encounter.executes 'f') &&
    encounter.before.cursor.depth == 0

theorem isTrunkMove_iff {encounter : Encounter K G} :
    encounter.isTrunkMove = true ↔
      encounter.before.skipDepth = 0 ∧
        (encounter.symbol = 'F' ∨ encounter.symbol = 'f') ∧
          encounter.before.cursor.depth = 0 := by
  simp only [isTrunkMove, Bool.and_eq_true, Bool.or_eq_true, executes_iff,
    beq_iff_eq, ← and_or_left, and_assoc]

/-- A segment is asked for, and none is left behind. -/
def isLost (encounter : Encounter K G) : Bool :=
  encounter.executes 'F' &&
    encounter.after.segments.size == encounter.before.segments.size

end Encounter

variable {K G : Type} [Trigonometric K] [RandomSource G K]
  {c : TurtleConfig K} {w w' : Walk K G}

/-! ## What a symbol leaves behind -/

theorem TurtleCommand.ofSymbol?_eq_draw {symbol : Char} :
    TurtleCommand.ofSymbol? symbol = some .draw ↔ symbol = 'F' := by
  unfold TurtleCommand.ofSymbol?
  split <;> simp_all

theorem TurtleCommand.ofSymbol?_eq_leaf {symbol : Char} :
    TurtleCommand.ofSymbol? symbol = some .leaf ↔ symbol = 'L' := by
  unfold TurtleCommand.ofSymbol?
  split <;> simp_all

theorem Walk.segments_obey {command : TurtleCommand}
    (hdraw : command ≠ .draw) (hobey : w.obey c command = .ok w') :
    w'.segments = w.segments := by
  cases command with
  | draw => exact absurd rfl hdraw
  | move =>
      obtain ⟨basis, rfl⟩ := Walk.exists_eq_of_forward hobey
      rfl
  | push =>
      obtain rfl := Except.ok.inj hobey
      exact w.segments_push
  | pop =>
      obtain rfl := Except.ok.inj hobey
      exact w.segments_pop
  | yawLeft | yawRight | pitchUp | pitchDown | rollLeft | rollRight
  | turnAround | leaf =>
      obtain rfl := Except.ok.inj hobey
      rfl

theorem Walk.leaves_obey {command : TurtleCommand}
    (hleaf : command ≠ .leaf) (hobey : w.obey c command = .ok w') :
    w'.leaves = w.leaves := by
  cases command with
  | leaf => exact absurd rfl hleaf
  | draw | move =>
      obtain ⟨basis, rfl⟩ := Walk.exists_eq_of_forward hobey
      rfl
  | push =>
      obtain rfl := Except.ok.inj hobey
      by_cases hskips : c.Skips w.source
      · rw [Walk.push_of_skips hskips]
        rfl
      · rw [Walk.push_of_not_skips hskips]
  | pop =>
      obtain rfl := Except.ok.inj hobey
      unfold Walk.pop
      split <;> rfl
  | yawLeft | yawRight | pitchUp | pitchDown | rollLeft | rollRight
  | turnAround =>
      obtain rfl := Except.ok.inj hobey
      rfl

omit [Trigonometric K] [RandomSource G K] in
theorem Walk.leaves_skip (w : Walk K G) (symbol : Char) :
    (w.skip symbol).leaves = w.leaves := by
  obtain ⟨skipDepth, hskip⟩ := w.exists_skip_eq symbol
  rw [hskip]

/-- A symbol leaves a segment behind if it is an executed `F` and the cursor is
wide enough, and otherwise none. -/
theorem Walk.segments_step {symbol : Char} (hstep : w.step c symbol = .ok w') :
    (w.skipDepth = 0 ∧ symbol = 'F' ∧ c.minWidth ≤ w.cursor.width ∧
      w'.segments = w.segments.push
        (w.segment c (Walk.stepLength c w.source).1)) ∨
    (w'.segments = w.segments ∧
      (w.skipDepth = 0 → symbol = 'F' → ¬c.minWidth ≤ w.cursor.width)) := by
  cases Walk.passes_of_step hstep with
  | skipped hskipped =>
      right
      exact ⟨w.segments_skip symbol, fun hdrawn => absurd hdrawn hskipped.ne'⟩
  | ignored hdrawn hnone =>
      right
      refine ⟨rfl, ?_⟩
      rintro - rfl
      simp [TurtleCommand.ofSymbol?] at hnone
  | @obeyed hdrawn command hcommand v hobey =>
      by_cases hdraw : command = .draw
      · subst hdraw
        obtain rfl := TurtleCommand.ofSymbol?_eq_draw.mp hcommand
        obtain ⟨basis, rfl⟩ := Walk.exists_eq_of_forward hobey
        by_cases hwide : c.minWidth ≤ w.cursor.width
        · left
          simp [hdrawn, hwide]
        · right
          simp [hwide]
      · right
        have hkept := Walk.segments_obey hdraw hobey
        refine ⟨hkept, ?_⟩
        rintro - rfl
        exact absurd (Option.some.inj hcommand).symm hdraw

/-- Exactly the executed `L` place a leaf each. -/
theorem Walk.size_leaves_step {symbol : Char}
    (hstep : w.step c symbol = .ok w') :
    w'.leaves.size =
      w.leaves.size + if w.skipDepth = 0 ∧ symbol = 'L' then 1 else 0 := by
  cases Walk.passes_of_step hstep with
  | skipped hskipped =>
      rw [if_neg (fun hleaf => hskipped.ne' hleaf.1)]
      exact congrArg Array.size (w.leaves_skip symbol)
  | ignored hdrawn hnone =>
      have hother : symbol ≠ 'L' := by
        rintro rfl
        simp [TurtleCommand.ofSymbol?] at hnone
      rw [if_neg (fun hleaf => hother hleaf.2)]
      rfl
  | @obeyed hdrawn command hcommand v hobey =>
      by_cases hleaf : command = .leaf
      · subst hleaf
        rw [if_pos ⟨hdrawn, TurtleCommand.ofSymbol?_eq_leaf.mp hcommand⟩]
        obtain rfl := Except.ok.inj hobey
        exact Array.size_push _
      · have hother : symbol ≠ 'L' := by
          rintro rfl
          exact hleaf (Option.some.inj hcommand).symm
        rw [if_neg (fun hleaf => hother hleaf.2)]
        have hkept := Walk.leaves_obey hleaf hobey
        exact congrArg Array.size hkept

/-- A symbol leaves at most one segment or leaf behind. -/
theorem Walk.size_parts_step_le {symbol : Char}
    (hstep : w.step c symbol = .ok w') :
    w'.segments.size + w'.leaves.size ≤
      w.segments.size + w.leaves.size + 1 := by
  have hleaves := Walk.size_leaves_step hstep
  rcases Walk.segments_step hstep with ⟨_, rfl, _, hpushed⟩ | ⟨hkept, _⟩
  · rw [if_neg (by simp)] at hleaves
    rw [hpushed, Array.size_push]
    omega
  · rw [hkept]
    split at hleaves <;> omega

/-- All leaves of the walk are as large as its parameters ask for. -/
def Walk.LeavesSized (c : TurtleConfig K) (w : Walk K G) : Prop :=
  ∀ leaf ∈ w.leaves, leaf.size = c.leafSize

theorem Walk.LeavesSized.step (hsized : w.LeavesSized c) {symbol : Char}
    (hstep : w.step c symbol = .ok w') : w'.LeavesSized c := by
  cases Walk.passes_of_step hstep with
  | skipped _ =>
      intro leaf hleaf
      exact hsized leaf (w.leaves_skip symbol ▸ hleaf)
  | ignored _ _ => exact hsized
  | @obeyed _ command _ v hobey =>
      change v.LeavesSized c
      by_cases hplaced : command = .leaf
      · subst hplaced
        obtain rfl := Except.ok.inj hobey
        intro leaf hleaf
        rcases Array.mem_push.mp hleaf with hold | rfl
        · exact hsized leaf hold
        · rfl
      · intro leaf hleaf
        rw [Walk.leaves_obey hplaced hobey] at hleaf
        exact hsized leaf hleaf

/-! ## All symbols of a word -/

/-- The encounters of a walk with the symbols of a word, up to the first that
cannot be dealt with. -/
def Walk.encounters (c : TurtleConfig K) :
    Word → Walk K G → List (Encounter K G)
  | [], _ => []
  | symbol :: word, w =>
      match w.step c symbol with
      | .error _ => []
      | .ok after =>
          { symbol, before := w, after } :: Walk.encounters c word after

theorem Walk.encounters_cons {symbol : Char} (word : Word)
    (hstep : w.step c symbol = .ok w') :
    Walk.encounters c (symbol :: word) w =
      { symbol, before := w, after := w' } :: Walk.encounters c word w' := by
  rw [Walk.encounters, hstep]

/-- A walk that is not stuck encounters every symbol of its word. -/
theorem Walk.symbols_encounters {word : Word}
    (hfollow : w.follow c word = .ok w') :
    (Walk.encounters c word w).map Encounter.symbol = word := by
  induction word generalizing w with
  | nil => rfl
  | cons symbol word ih =>
      obtain ⟨v, hstep, hrest⟩ := Walk.exists_step_of_follow_cons hfollow
      rw [Walk.encounters_cons word hstep, List.map_cons, ih hrest]

/-- Every executed `F` leaves a segment behind or is lost. -/
theorem Walk.size_segments_step {symbol : Char}
    (hstep : w.step c symbol = .ok w') :
    let encounter : Encounter K G := { symbol, before := w, after := w' }
    w'.segments.size + encounter.isLost.toNat =
      w.segments.size + (encounter.executes 'F').toNat := by
  intro encounter
  have hexecutes : encounter.executes 'F' = true ↔
      w.skipDepth = 0 ∧ symbol = 'F' := Encounter.executes_iff
  rcases Walk.segments_step hstep with
    ⟨hdrawn, hdraw, -, hpushed⟩ | ⟨hkept, -⟩
  · have hgrown : w'.segments.size = w.segments.size + 1 := by
      rw [hpushed, Array.size_push]
    have hleft : encounter.isLost = false := by
      simp [encounter, Encounter.isLost, hgrown]
    rw [hleft, hexecutes.mpr ⟨hdrawn, hdraw⟩, hgrown]
    rfl
  · have hlost : encounter.isLost = encounter.executes 'F' := by
      simp [encounter, Encounter.isLost, hkept]
    rw [hkept, hlost]

theorem Walk.size_segments_follow {word : Word}
    (hfollow : w.follow c word = .ok w') :
    w'.segments.size + (Walk.encounters c word w).countP Encounter.isLost =
      w.segments.size +
        (Walk.encounters c word w).countP (Encounter.executes 'F') := by
  induction word generalizing w with
  | nil =>
      obtain rfl := Except.ok.inj hfollow
      rfl
  | cons symbol word ih =>
      obtain ⟨v, hstep, hrest⟩ := Walk.exists_step_of_follow_cons hfollow
      have hfirst := Walk.size_segments_step hstep
      have hlater := ih hrest
      rw [Walk.encounters_cons word hstep, List.countP_cons, List.countP_cons]
      simp only [Bool.toNat, Bool.cond_eq_ite] at hfirst
      omega

theorem Walk.size_leaves_follow {word : Word}
    (hfollow : w.follow c word = .ok w') :
    w'.leaves.size = w.leaves.size +
      (Walk.encounters c word w).countP (Encounter.executes 'L') := by
  induction word generalizing w with
  | nil =>
      obtain rfl := Except.ok.inj hfollow
      rfl
  | cons symbol word ih =>
      obtain ⟨v, hstep, hrest⟩ := Walk.exists_step_of_follow_cons hfollow
      have hexecutes : (Encounter.mk symbol w v).executes 'L' = true ↔
          w.skipDepth = 0 ∧ symbol = 'L' := Encounter.executes_iff
      rw [Walk.encounters_cons word hstep, List.countP_cons, ih hrest,
        Walk.size_leaves_step hstep, if_congr hexecutes rfl rfl]
      omega

/-! ## Drawings that skip nothing -/

theorem Walk.skipDepth_step (hcertain : ¬c.branchProbability < 1.0)
    (hdrawn : w.skipDepth = 0) {symbol : Char}
    (hstep : w.step c symbol = .ok w') : w'.skipDepth = 0 := by
  cases Walk.passes_of_step hstep with
  | skipped hskipped => exact absurd hdrawn hskipped.ne'
  | ignored _ _ => exact hdrawn
  | @obeyed _ command _ v hobey =>
      change v.skipDepth = 0
      by_cases hpush : command = .push
      · subst hpush
        obtain rfl := Except.ok.inj hobey
        rw [Walk.push_of_not_skips fun hskips => hcertain hskips.1]
        exact hdrawn
      by_cases hpop : command = .pop
      · subst hpop
        obtain rfl := Except.ok.inj hobey
        unfold Walk.pop
        split <;> exact hdrawn
      · rw [(Walk.obey_sameBranch hpush hpop hobey).skipDepth, hdrawn]

theorem Walk.skipDepth_follow (hcertain : ¬c.branchProbability < 1.0)
    (hdrawn : w.skipDepth = 0) {word : Word}
    (hfollow : w.follow c word = .ok w') : w'.skipDepth = 0 := by
  induction word generalizing w with
  | nil =>
      obtain rfl := Except.ok.inj hfollow
      exact hdrawn
  | cons symbol word ih =>
      obtain ⟨v, hstep, hrest⟩ := Walk.exists_step_of_follow_cons hfollow
      exact ih (Walk.skipDepth_step hcertain hdrawn hstep) hrest

theorem Walk.skipDepth_encounters (hcertain : ¬c.branchProbability < 1.0)
    (hdrawn : w.skipDepth = 0) (word : Word) :
    ∀ encounter ∈ Walk.encounters c word w, encounter.before.skipDepth = 0 := by
  induction word generalizing w with
  | nil => simp [Walk.encounters]
  | cons symbol word ih =>
      rw [Walk.encounters]
      cases hstep : w.step c symbol with
      | error stuck => simp
      | ok v =>
          rw [List.forall_mem_cons]
          exact ⟨hdrawn, ih (Walk.skipDepth_step hcertain hdrawn hstep)⟩

/-- Where no branch is ever skipped, all symbols of the word are executed. -/
theorem Walk.countP_executes (hcertain : ¬c.branchProbability < 1.0)
    (hdrawn : w.skipDepth = 0) {word : Word}
    (hfollow : w.follow c word = .ok w') (symbol : Char) :
    (Walk.encounters c word w).countP (Encounter.executes symbol) =
      word.count symbol := by
  have hsymbols := Walk.symbols_encounters hfollow
  have hall := Walk.skipDepth_encounters hcertain hdrawn word
  nth_rewrite 2 [← hsymbols]
  rw [List.count, List.countP_map]
  apply List.countP_congr
  intro encounter hencounter
  simp [Encounter.executes, hall encounter hencounter]

/-! ## Whole drawings -/

/-- The encounters of a whole drawing. -/
def Walk.course (c : TurtleConfig K) (source : G) (word : Word) :
    List (Encounter K G) :=
  match Walk.begin c.bounded source with
  | .error _ => []
  | .ok start =>
      Walk.encounters c.bounded word (start.report (.started word.length))

/-- A drawing begins on the trunk with nothing counted and nothing left behind,
as wide as its parameters ask for; only a random roll has used the source. -/
structure Walk.Fresh (c : TurtleConfig K) (source : G) (w : Walk K G) :
    Prop where
  stack : w.stack = []
  depth : w.cursor.depth = 0
  width : w.cursor.width = c.initialWidth
  skipDepth : w.skipDepth = 0
  maxDepth : w.maxDepth = 0
  symbols : w.symbols = 0
  unmatched : w.unmatched = #[]
  segments : w.segments = #[]
  leaves : w.leaves = #[]
  source : w.source =
    if 0.0 < c.initialRoll then (RandomSource.unit source).2 else source

theorem Walk.fresh_begin {source : G}
    (hbegin : Walk.begin c source = .ok w) : w.Fresh c source := by
  unfold Walk.begin at hbegin
  cases hcursor : Cursor.ofConfig c with
  | error fault => simp [hcursor, Except.map] at hbegin
  | ok cursor =>
      obtain ⟨position, basis, rfl⟩ := Cursor.exists_eq_of_ofConfig hcursor
      rw [hcursor] at hbegin
      obtain rfl := Except.ok.inj hbegin
      split
      next hroll =>
        exact ⟨rfl, rfl, rfl, rfl, rfl, rfl, rfl, rfl, rfl,
          (if_pos hroll).symm⟩
      next hroll =>
        exact ⟨rfl, rfl, rfl, rfl, rfl, rfl, rfl, rfl, rfl,
          (if_neg hroll).symm⟩

/-- The course of a drawing is the course of a walk that begins afresh. -/
theorem Walk.Draws.exists_fresh {source : G} {word : Word}
    (hdraws : Walk.Draws c source word w) :
    ∃ start : Walk K G, start.Fresh c.bounded source ∧
      start.follow c.bounded word = .ok w ∧
      Walk.course c source word = Walk.encounters c.bounded word start := by
  obtain ⟨start, hbegin, hfollow⟩ := hdraws
  have hfresh := Walk.fresh_begin hbegin
  refine ⟨start.report (.started word.length), { hfresh with }, hfollow, ?_⟩
  rw [Walk.course, hbegin]

theorem Walk.size_parts_follow_le {word : Word}
    (hfollow : w.follow c word = .ok w') :
    w'.segments.size + w'.leaves.size ≤
      w.segments.size + w.leaves.size + word.length := by
  induction word generalizing w with
  | nil =>
      obtain rfl := Except.ok.inj hfollow
      exact Nat.le_refl _
  | cons symbol word ih =>
      obtain ⟨v, hstep, hrest⟩ := Walk.exists_step_of_follow_cons hfollow
      have hfirst := Walk.size_parts_step_le hstep
      have hlater := ih hrest
      rw [List.length_cons]
      omega

/-- A drawing has no more segments and leaves than its word has symbols. -/
theorem Walk.Draws.size_parts_le {source : G} {word : Word}
    (hdraws : Walk.Draws c source word w) :
    w.segments.size + w.leaves.size ≤ word.length := by
  obtain ⟨start, hfresh, hfollow, _⟩ := hdraws.exists_fresh
  have hsize := Walk.size_parts_follow_le hfollow
  simpa [hfresh.segments, hfresh.leaves] using hsize

theorem Walk.LeavesSized.follow {word : Word} (hsized : w.LeavesSized c)
    (hfollow : w.follow c word = .ok w') : w'.LeavesSized c := by
  induction word generalizing w with
  | nil =>
      obtain rfl := Except.ok.inj hfollow
      exact hsized
  | cons symbol word ih =>
      obtain ⟨v, hstep, hrest⟩ := Walk.exists_step_of_follow_cons hfollow
      exact ih (hsized.step hstep) hrest

theorem Walk.Draws.leavesSized {source : G} {word : Word}
    (hdraws : Walk.Draws c source word w) : w.LeavesSized c := by
  obtain ⟨start, hfresh, hfollow, _⟩ := hdraws.exists_fresh
  have hstart : start.LeavesSized c.bounded := by
    intro leaf hleaf
    simp [hfresh.leaves] at hleaf
  exact hstart.follow hfollow

end TreeGrowth
