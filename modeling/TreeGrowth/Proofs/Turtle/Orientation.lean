import TreeGrowth.Proofs.Space.Orthonormal
import TreeGrowth.Proofs.Turtle.Depth

/-!
# The orientation of a drawing

Over the real numbers every cursor of a walk, the current one and those that
wait for their branches to end, has a right-handed orthonormal basis.  A turn,
a jittered one too, and the pull of tropism restore a basis whose forward
direction they have only rotated; brackets hand whole cursors on.
-/

namespace TreeGrowth

variable {G : Type} [RandomSource G ℝ] {c : TurtleConfig ℝ}
  {w w' : Walk ℝ G}

omit [RandomSource G ℝ] in
/-- All cursors of the walk have orthonormal bases. -/
def Walk.Oriented (w : Walk ℝ G) : Prop :=
  ∀ cursor ∈ w.cursor :: w.stack, cursor.basis.IsOrthonormal

/-! ## One symbol -/

/-- Yielding to a pull is a rotation or nothing, also where the pull has no
direction or lies along the way. -/
theorem Cursor.isOrthonormal_bend {b b' : Basis ℝ} (hb : b.IsOrthonormal)
    (hbend : Cursor.bend c b = .ok b') : b'.IsOrthonormal := by
  unfold Cursor.bend at hbend
  split at hbend
  next =>
    obtain rfl := Except.ok.inj hbend
    exact hb
  next =>
    cases hdirection : Vec3.ofList c.tropismDirection with
    | error fault => simp [hdirection, Except.map] at hbend
    | ok direction =>
        rw [hdirection] at hbend
        obtain rfl := Except.ok.inj hbend
        simp only
        split_ifs
        · exact hb
        · exact hb
        · exact hb.rotate _ _
        · exact hb

namespace Walk.Oriented

omit [RandomSource G ℝ] in
/-- A walk whose current cursor alone has changed its basis. -/
theorem of_basis (horiented : w.Oriented) (hstack : w'.stack = w.stack)
    (hbasis : w'.cursor.basis.IsOrthonormal) : w'.Oriented := by
  intro cursor hcursor
  rw [hstack] at hcursor
  rcases List.mem_cons.mp hcursor with rfl | hsaved
  · exact hbasis
  · exact horiented cursor (List.mem_cons_of_mem _ hsaved)

omit [RandomSource G ℝ] in
theorem basis (horiented : w.Oriented) : w.cursor.basis.IsOrthonormal :=
  horiented w.cursor List.mem_cons_self

theorem forward {isDrawn : Bool} (horiented : w.Oriented)
    (hforward : w.forward c isDrawn = .ok w') : w'.Oriented := by
  unfold Walk.forward at hforward
  cases hbend : Cursor.bend c w.cursor.basis with
  | error fault => simp [hbend] at hforward
  | ok basis =>
      simp only [hbend] at hforward
      obtain rfl := Except.ok.inj hforward
      exact horiented.of_basis rfl
        (Cursor.isOrthonormal_bend horiented.basis hbend)

theorem push (horiented : w.Oriented) : (w.push c).Oriented := by
  by_cases hskips : c.Skips w.source
  · rw [Walk.push_of_skips hskips]
    exact horiented
  · rw [Walk.push_of_not_skips hskips]
    intro cursor hcursor
    rcases List.mem_cons.mp hcursor with rfl | hsaved
    · exact horiented.basis
    · exact horiented cursor hsaved

omit [RandomSource G ℝ] in
theorem pop (horiented : w.Oriented) : w.pop.Oriented := by
  unfold Walk.pop
  split
  next cursor stack hstack =>
    intro saved hsaved
    apply horiented
    rw [hstack]
    exact List.mem_cons_of_mem _ hsaved
  next => exact horiented

omit [RandomSource G ℝ] in
theorem skip (horiented : w.Oriented) (symbol : Char) :
    (w.skip symbol).Oriented := by
  obtain ⟨skipDepth, hskip⟩ := w.exists_skip_eq symbol
  rw [hskip]
  exact horiented

theorem obey {command : TurtleCommand} (horiented : w.Oriented)
    (hobey : w.obey c command = .ok w') : w'.Oriented := by
  cases command with
  | draw | move => exact horiented.forward hobey
  | yawLeft | yawRight | turnAround =>
      obtain rfl := Except.ok.inj hobey
      exact horiented.of_basis rfl (horiented.basis.yaw _)
  | pitchUp | pitchDown =>
      obtain rfl := Except.ok.inj hobey
      exact horiented.of_basis rfl (horiented.basis.pitch _)
  | rollLeft | rollRight =>
      obtain rfl := Except.ok.inj hobey
      exact horiented.of_basis rfl (horiented.basis.roll _)
  | push =>
      obtain rfl := Except.ok.inj hobey
      exact horiented.push
  | pop =>
      obtain rfl := Except.ok.inj hobey
      exact horiented.pop
  | leaf =>
      obtain rfl := Except.ok.inj hobey
      exact horiented

theorem step {symbol : Char} (horiented : w.Oriented)
    (hstep : w.step c symbol = .ok w') : w'.Oriented := by
  cases Walk.passes_of_step hstep with
  | skipped hskipped => exact horiented.skip symbol
  | ignored hdrawn hnone => exact horiented
  | @obeyed hdrawn command hcommand v hobey =>
      have hobeyed : v.Oriented := horiented.obey hobey
      exact hobeyed

/-! ## Whole words -/

theorem follow {word : Word} (horiented : w.Oriented)
    (hfollow : w.follow c word = .ok w') : w'.Oriented := by
  induction word generalizing w with
  | nil =>
      obtain rfl := Except.ok.inj hfollow
      exact horiented
  | cons symbol word ih =>
      obtain ⟨v, hstep, hrest⟩ := Walk.exists_step_of_follow_cons hfollow
      exact ih (horiented.step hstep) hrest

end Walk.Oriented

/-! ## Whole drawings -/

omit [RandomSource G ℝ] in
theorem Cursor.isOrthonormal_ofConfig {cursor : Cursor ℝ}
    (hcursor : Cursor.ofConfig c = .ok cursor) :
    cursor.basis.IsOrthonormal := by
  unfold Cursor.ofConfig at hcursor
  cases hforward : Vec3.ofList c.initialForward with
  | error fault => simp [hforward, bind, Except.bind] at hcursor
  | ok forward =>
      cases hposition : Vec3.ofList c.initialPosition with
      | error fault =>
          simp [hforward, hposition, bind, Except.bind] at hcursor
      | ok position =>
          rw [hforward, hposition] at hcursor
          obtain rfl := Except.ok.inj hcursor
          exact Basis.isOrthonormal_ofForward forward

/-- A drawing begins with the basis of the direction that its parameters ask
for, rolled by chance. -/
theorem Walk.oriented_begin {source : G}
    (hbegin : Walk.begin c source = .ok w) : w.Oriented := by
  unfold Walk.begin at hbegin
  cases hcursor : Cursor.ofConfig c with
  | error fault => simp [hcursor, Except.map] at hbegin
  | ok cursor =>
      have hbasis := Cursor.isOrthonormal_ofConfig hcursor
      rw [hcursor] at hbegin
      obtain rfl := Except.ok.inj hbegin
      split
      next => exact List.forall_mem_singleton.mpr (hbasis.roll _)
      next => exact List.forall_mem_singleton.mpr hbasis

theorem Walk.Reaches.oriented {source : G} {word u : Word}
    (hreaches : Walk.Reaches c source word u w) : w.Oriented := by
  obtain ⟨_, start, hbegin, hfollow⟩ := hreaches
  have hbegun : start.Oriented := Walk.oriented_begin hbegin
  have hstart : (start.report (.started word.length)).Oriented := hbegun
  exact hstart.follow hfollow

/-- In every walk that a drawing comes to, the cursor and all cursors on the
stack have right-handed orthonormal bases, whatever the parameters and the dice:
the first direction may be zero or vertical, the pull may have no direction, and
no angle matters.  With vectors of three coordinates a drawing comes to every
part of its word and ends with such a basis. -/
theorem bases_stay_orthonormal (c : TurtleConfig ℝ) (source : G)
    (word : Word) :
    (∀ (u : Word) (w : Walk ℝ G), Walk.Reaches c source word u w →
      ∀ cursor ∈ w.cursor :: w.stack, cursor.basis.IsOrthonormal) ∧
    (c.WellShaped →
      (∀ u, u <+: word → ∃ w, Walk.Reaches c source word u w) ∧
        ∃ drawing, (Walk.interpretFrom c source word).1 = .ok drawing ∧
          drawing.final.basis.IsOrthonormal) := by
  refine ⟨fun u w hreaches => hreaches.oriented, fun hshape => ?_⟩
  obtain ⟨w, hdraws⟩ := Walk.exists_draws hshape source word
  constructor
  · rintro u ⟨rest, rfl⟩
    obtain ⟨start, hbegin, hfollow⟩ := hdraws
    obtain ⟨v, hv, _⟩ := Walk.exists_follow_of_append hfollow
    exact ⟨v, List.prefix_append _ _, start, hbegin, hv⟩
  · have hreaches : Walk.Reaches c source word word w :=
      ⟨List.prefix_rfl, hdraws⟩
    exact ⟨w.interpretation, by rw [hdraws.interpretFrom],
      hreaches.oriented.basis⟩

/-- A real number is a source that draws itself again and again. -/
noncomputable instance : RandomSource ℝ ℝ where
  unit u := (u, u)
  index count u := (⌊u * count⌋₊, u)

/-- A drawing without a first direction, pulled fully towards nowhere. -/
noncomputable def TurtleConfig.aimless : TurtleConfig ℝ :=
  { TurtleConfig.standard with
    initialForward := [0, 0, 0]
    tropismStrength := 1
    tropismDirection := [0, 0, 0]
    branchProbability := 1 / 2
    turnVariation := (-10, 10) }

theorem bases_stay_orthonormal_sample :
    let word := "F+[&F/[-L]|F".toList
    TurtleConfig.aimless.WellShaped ∧
      ∃ w : Walk ℝ ℝ, Walk.Reaches .aimless (1 / 3) word word w ∧
        w.cursor.basis.up = w.cursor.basis.forward.cross w.cursor.basis.left ∧
        w.cursor.basis.forward.norm = 1 := by
  intro word
  have hshape : TurtleConfig.aimless.WellShaped := ⟨rfl, rfl, rfl⟩
  obtain ⟨horiented, hreached⟩ :=
    bases_stay_orthonormal .aimless (1 / 3 : ℝ) word
  obtain ⟨w, hreaches⟩ := (hreached hshape).1 word List.prefix_rfl
  have hbasis := horiented word w hreaches w.cursor List.mem_cons_self
  exact ⟨hshape, w, hreaches, hbasis.up_eq, hbasis.forward_norm⟩

end TreeGrowth
