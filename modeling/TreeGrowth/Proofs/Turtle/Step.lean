import TreeGrowth.Turtle.Walk
import Mathlib

/-!
# One symbol of a drawing

What a walk does at a symbol, said once for all laws of drawings: whether it
passes the symbol over, what a move changes, and on what a branch depends.
-/

namespace TreeGrowth

variable {K G : Type} [Trigonometric K] [RandomSource G K]
  {c : TurtleConfig K} {w w' : Walk K G}

/-! ## Three ways to deal with a symbol -/

/-- The three ways to deal with a symbol: to pass it over, to find no meaning
in it, or to obey it. -/
inductive Walk.Passes (c : TurtleConfig K) (w : Walk K G) (symbol : Char) :
    Walk K G → Prop
  | skipped (hskipped : 0 < w.skipDepth) :
      Passes c w symbol
        { w.skip symbol with symbols := (w.skip symbol).symbols + 1 }
  | ignored (hdrawn : w.skipDepth = 0)
      (hnone : TurtleCommand.ofSymbol? symbol = none) :
      Passes c w symbol { w with symbols := w.symbols + 1 }
  | obeyed (hdrawn : w.skipDepth = 0) {command : TurtleCommand}
      (hcommand : TurtleCommand.ofSymbol? symbol = some command)
      {v : Walk K G} (hobey : w.obey c command = .ok v) :
      Passes c w symbol { v with symbols := v.symbols + 1 }

theorem Walk.passes_of_step {symbol : Char}
    (hstep : w.step c symbol = .ok w') : Walk.Passes c w symbol w' := by
  unfold Walk.step at hstep
  by_cases hskipped : 0 < w.skipDepth
  · simp only [if_pos hskipped] at hstep
    obtain rfl := Except.ok.inj hstep
    exact .skipped hskipped
  · have hdrawn : w.skipDepth = 0 := Nat.eq_zero_of_not_pos hskipped
    simp only [if_neg hskipped] at hstep
    cases hcommand : TurtleCommand.ofSymbol? symbol with
    | none =>
        simp only [hcommand] at hstep
        obtain rfl := Except.ok.inj hstep
        exact .ignored hdrawn hcommand
    | some command =>
        simp only [hcommand] at hstep
        cases hobey : w.obey c command with
        | error stuck => simp [hobey, Except.map] at hstep
        | ok v =>
            rw [hobey] at hstep
            obtain rfl := Except.ok.inj hstep
            exact .obeyed hdrawn hcommand hobey

/-! ## Moves and branches -/

/-- A move changes the place, the direction and the width of the cursor, and
leaves a segment behind if it is drawn and the cursor is wide enough. -/
theorem Walk.exists_eq_of_forward {isDrawn : Bool}
    (hforward : w.forward c isDrawn = .ok w') :
    ∃ basis, w' =
      let piece := w.segment c (Walk.stepLength c w.source).1
      { w with
        cursor :=
          { w.cursor with
            position := piece.endPosition, basis, width := piece.endRadius }
        segments :=
          if isDrawn && decide (c.minWidth ≤ w.cursor.width) then
            w.segments.push piece
          else w.segments
        source := (Walk.stepLength c w.source).2 } := by
  unfold Walk.forward at hforward
  cases hbend : Cursor.bend c w.cursor.basis with
  | error fault => simp [hbend] at hforward
  | ok basis =>
      simp only [hbend] at hforward
      exact ⟨basis, (Except.ok.inj hforward).symm⟩

/-- A branch is skipped if its chance is below one and below the roll. -/
def TurtleConfig.Skips (c : TurtleConfig K) (source : G) : Prop :=
  c.branchProbability < 1.0 ∧
    c.branchProbability < (RandomSource.unit source).1

/-- The source after the roll for a branch, which a certain branch does not
need. -/
def TurtleConfig.afterRoll (c : TurtleConfig K) (source : G) : G :=
  if c.branchProbability < 1.0 then (RandomSource.unit source).2 else source

theorem Walk.push_of_skips (hskips : c.Skips w.source) :
    w.push c =
      ({ w with skipDepth := 1, source := c.afterRoll w.source } :
        Walk K G).report
          (.skipped (RandomSource.unit w.source).1 c.branchProbability) := by
  obtain ⟨hchance, hroll⟩ := hskips
  simp only [Walk.push, TurtleConfig.afterRoll, if_pos hchance, if_pos hroll]

theorem Walk.push_of_not_skips (hbegins : ¬c.Skips w.source) :
    w.push c =
      { w with
        cursor :=
          { w.cursor with
            depth := w.cursor.depth + 1
            width := Scalar.atLeast c.minWidth
              (w.cursor.width * c.widthFalloff) }
        stack := w.cursor :: w.stack
        maxDepth := max w.maxDepth (w.cursor.depth + 1)
        source := c.afterRoll w.source } := by
  by_cases hchance : c.branchProbability < 1.0
  · have hroll : ¬c.branchProbability < (RandomSource.unit w.source).1 :=
      fun hroll => hbegins ⟨hchance, hroll⟩
    simp only [Walk.push, TurtleConfig.afterRoll, if_pos hchance, if_neg hroll]
  · simp only [Walk.push, TurtleConfig.afterRoll, if_neg hchance]

omit [Trigonometric K] [RandomSource G K] in
/-- A symbol that is passed over changes at most the skip depth. -/
theorem Walk.exists_skip_eq (w : Walk K G) (symbol : Char) :
    ∃ skipDepth, w.skip symbol = { w with skipDepth } := by
  unfold Walk.skip
  split
  next => exact ⟨_, rfl⟩
  next =>
    split
    next => exact ⟨_, rfl⟩
    next => exact ⟨_, rfl⟩

/-! ## Brackets -/

theorem Walk.step_of_skipped (hskipped : 0 < w.skipDepth) (symbol : Char) :
    w.step c symbol =
      .ok { w.skip symbol with symbols := (w.skip symbol).symbols + 1 } := by
  rw [Walk.step, if_pos hskipped]
  rfl

theorem Walk.step_open (hdrawn : w.skipDepth = 0) :
    w.step c '[' =
      .ok { w.push c with symbols := (w.push c).symbols + 1 } := by
  rw [Walk.step, if_neg (by omega)]
  rfl

theorem Walk.step_close (hdrawn : w.skipDepth = 0) :
    w.step c ']' = .ok { w.pop with symbols := w.pop.symbols + 1 } := by
  rw [Walk.step, if_neg (by omega)]
  rfl

/-! ## First steps -/

/-- A walk along a word begins with a step, after which the rest is a walk
again. -/
theorem Walk.exists_step_of_follow_cons {symbol : Char} {word : Word}
    (hfollow : w.follow c (symbol :: word) = .ok w') :
    ∃ v, w.step c symbol = .ok v ∧ v.follow c word = .ok w' := by
  rw [Walk.follow, List.foldlM_cons] at hfollow
  cases hnext : w.step c symbol with
  | error stuck =>
      rw [hnext] at hfollow
      exact absurd hfollow (by simp [bind, Except.bind])
  | ok v =>
      rw [hnext] at hfollow
      exact ⟨v, rfl, hfollow⟩

/-! ## Walks along joined words -/

theorem Walk.follow_append (c : TurtleConfig K) (u v : Word) (w : Walk K G) :
    w.follow c (u ++ v) =
      (w.follow c u).bind fun w => w.follow c v := by
  simp only [Walk.follow, List.foldlM_append]
  rfl

theorem Walk.follow_cons (c : TurtleConfig K) (symbol : Char) (word : Word)
    (w : Walk K G) :
    w.follow c (symbol :: word) =
      (w.step c symbol).bind fun w => w.follow c word := by
  simp only [Walk.follow, List.foldlM_cons]
  rfl

theorem Walk.exists_follow_of_append {u v : Word}
    (hfollow : w.follow c (u ++ v) = .ok w') :
    ∃ middle, w.follow c u = .ok middle ∧ middle.follow c v = .ok w' := by
  rw [Walk.follow_append] at hfollow
  cases hfirst : w.follow c u with
  | error stuck =>
      rw [hfirst] at hfollow
      exact absurd hfollow (by simp [Except.bind])
  | ok middle =>
      rw [hfirst] at hfollow
      exact ⟨middle, rfl, hfollow⟩

/-! ## The first cursor -/

omit [RandomSource G K] in
/-- A drawing begins on the trunk, as wide as its parameters ask for. -/
theorem Cursor.exists_eq_of_ofConfig {cursor : Cursor K}
    (hcursor : Cursor.ofConfig c = .ok cursor) :
    ∃ position basis, cursor =
      { position, basis, width := c.initialWidth, depth := 0 } := by
  unfold Cursor.ofConfig at hcursor
  cases hforward : Vec3.ofList c.initialForward with
  | error fault => simp [hforward, bind, Except.bind] at hcursor
  | ok forward =>
      cases hposition : Vec3.ofList c.initialPosition with
      | error fault =>
          simp [hforward, hposition, bind, Except.bind] at hcursor
      | ok position =>
          rw [hforward, hposition] at hcursor
          exact ⟨_, _, (Except.ok.inj hcursor).symm⟩

end TreeGrowth
