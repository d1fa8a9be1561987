import TreeGrowth.Proofs.Random.Bounded
import TreeGrowth.Random.Pcg64

/-!
# Draws of the generator

The generator has fewer states than it is allowed redraws, so if it ever comes
to a word that is accepted, it does so before they run out: a bounded number of
redraws chooses the same index as an unbounded one would.
-/

namespace TreeGrowth

attribute [ext] Pcg64

namespace Pcg64

/-- The next word of 32 bits as a number. -/
def number32 (g : Pcg64) : Nat × Pcg64 :=
  (g.word32.1.toNat, g.word32.2)

theorem number32_lt (g : Pcg64) : g.number32.1 < 2 ^ 32 :=
  g.word32.1.isLt

/-- No draw changes how the generator moves. -/
theorem increment_number32 (g : Pcg64) :
    g.number32.2.increment = g.increment := by
  obtain ⟨state, increment, spare⟩ := g
  cases spare <;> rfl

theorem increment_iterate (g : Pcg64) (draws : Nat) :
    ((fun g : Pcg64 => g.number32.2)^[draws] g).increment = g.increment := by
  induction draws generalizing g with
  | zero => rfl
  | succ draws ih =>
      rw [Function.iterate_succ_apply, ih, increment_number32]

/-- What of a generator is changed by its draws. -/
def movingPart (g : Pcg64) : Fin (2 ^ 128) × Option (Fin (2 ^ 32)) :=
  (g.state.toFin, g.spare.map BitVec.toFin)

theorem eq_of_movingPart {g h : Pcg64} (hmoving : g.movingPart = h.movingPart)
    (hfixed : g.increment = h.increment) : g = h := by
  obtain ⟨hstate, hspare⟩ := Prod.mk.inj hmoving
  exact Pcg64.ext (BitVec.toFin_injective hstate) hfixed
    (Option.map_injective BitVec.toFin_injective hspare)

variable {count m : Nat} {g : Pcg64}

theorem le_redrawLimit_of_first
    (hfirst : FirstAccepted 32 count number32 g m) : m ≤ redrawLimit := by
  have hcode : ∀ i j : Nat,
      movingPart ((fun g => g.number32.2)^[i] g) =
          movingPart ((fun g => g.number32.2)^[j] g) →
        (fun g => g.number32.2)^[i] g = (fun g => g.number32.2)^[j] g := by
    intro i j hsame
    apply eq_of_movingPart hsame
    rw [increment_iterate, increment_iterate]
  have hstates : m < Fintype.card (Fin (2 ^ 128) × Option (Fin (2 ^ 32))) :=
    first_lt_card (p := fun g => accepts 32 count (number32 g).1 = true) hcode
      (fun j hj => Bool.eq_false_iff.mp (hfirst.rejected j hj)) hfirst.accepted
  rw [Fintype.card_prod, Fintype.card_option, Fintype.card_fin,
    Fintype.card_fin] at hstates
  exact hstates.le.trans (by norm_num [redrawLimit])

theorem index_eq_drawBelow (hseveral : 1 < count) (hle : count ≤ 2 ^ 32)
    (g : Pcg64) :
    RandomSource.index count g =
      drawBelow 32 count number32 redrawLimit g := by
  change index count g = _
  have hnarrow : count ≤ Nat.pow 2 32 := hle
  rw [index, if_neg (Nat.not_le.mpr hseveral), if_pos hnarrow]
  rfl

theorem index_lt (hseveral : 1 < count) (hle : count ≤ 2 ^ 32) (g : Pcg64) :
    (RandomSource.index count g).1 < count := by
  rw [index_eq_drawBelow hseveral hle]
  exact drawBelow_lt number32_lt (by omega) redrawLimit g

/-- If a word is accepted at all, the first such word decides. -/
theorem index_eq_of_first (hseveral : 1 < count) (hle : count ≤ 2 ^ 32)
    (hfirst : FirstAccepted 32 count number32 g m) :
    RandomSource.index count g =
      (spread 32 count (drawAfter number32 m g).1,
        (drawAfter number32 m g).2) := by
  rw [index_eq_drawBelow hseveral hle]
  exact hfirst.drawBelow_eq (le_redrawLimit_of_first hfirst)

/-- The whole numbers from zero up to one that is included are the indices below
the next one. -/
theorem integerBetween_zero (hseveral : 1 < count) (hle : count ≤ 2 ^ 32)
    (g : Pcg64) :
    g.integerBetween 0 (count - 1) =
      .ok (((RandomSource.index count g).1 : Int),
        (RandomSource.index count g).2) := by
  have hcount : ((count : Int) - 1 - 0 + 1).toNat = count := by omega
  have hbound : ¬((Nat.pow 2 63 : Nat) : Int) < (count : Int) - 1 + 1 := by
    have hpower : Nat.pow 2 63 = 2 ^ 63 := rfl
    omega
  rw [integerBetween, if_neg (by decide), if_neg hbound, if_neg (by omega),
    hcount]
  simp only [Int.zero_add]
  rfl

end Pcg64

end TreeGrowth
