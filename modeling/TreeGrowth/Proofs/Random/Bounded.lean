import Mathlib
import TreeGrowth.Random.Bounded

/-!
# Words that are accepted

The words that are accepted for one number of a range follow one another, and
for each number there are as many of them as the size of the range goes into the
number of all words.  Words are drawn until one is accepted, so the number that
is chosen is that of the first accepted word, as long as there are redraws for
all the words before it.
-/

namespace TreeGrowth

variable {G : Type} {bits count word i : Nat}

/-! ## The words for a number -/

/-- Without the words that are thrown away, all numbers of the range have the
same share of the words. -/
theorem rejectionThreshold_add (hle : count ≤ 2 ^ bits) :
    rejectionThreshold bits count + count * (2 ^ bits / count) = 2 ^ bits := by
  have hmod : rejectionThreshold bits count = 2 ^ bits % count :=
    (Nat.mod_eq_sub_mod hle).symm
  rw [hmod, Nat.mod_add_div]

/-- A word is accepted for a number if its product with the size of the range
lies in the interval of that number, behind the threshold. -/
theorem accepted_iff_product :
    accepts bits count word = true ∧ spread bits count word = i ↔
      i * 2 ^ bits + rejectionThreshold bits count ≤ word * count ∧
        word * count < (i + 1) * 2 ^ bits := by
  have hsplit := Nat.div_add_mod' (word * count) (2 ^ bits)
  have hrest := Nat.mod_lt (word * count) (Nat.two_pow_pos bits)
  have haccepts : accepts bits count word = true ↔
      rejectionThreshold bits count ≤ word * count % 2 ^ bits :=
    decide_eq_true_iff
  have hspread : spread bits count word = word * count / 2 ^ bits := rfl
  rw [haccepts, hspread]
  constructor
  · rintro ⟨haccepted, rfl⟩
    rw [Nat.succ_mul]
    omega
  · rintro ⟨hle, hlt⟩
    have hquotient : word * count / 2 ^ bits = i :=
      Nat.div_eq_of_lt_le (by omega) hlt
    rw [hquotient] at hsplit
    exact ⟨by omega, hquotient⟩

/-- The first word that is accepted for a number. -/
def firstWord (bits count i : Nat) : Nat :=
  (i * 2 ^ bits + rejectionThreshold bits count) ⌈/⌉ count

theorem add_mul_ceilDiv (hpos : 0 < count) (a q : Nat) :
    (a + count * q) ⌈/⌉ count = a ⌈/⌉ count + q := by
  have hnumerator : a + count * q + count - 1 = a + count - 1 + count * q := by
    omega
  rw [Nat.ceilDiv_eq_add_pred_div, Nat.ceilDiv_eq_add_pred_div, hnumerator,
    Nat.add_mul_div_left _ _ hpos]

/-- The words that are accepted for a number follow one another. -/
theorem accepted_iff_mem_Ico (hpos : 0 < count) (hle : count ≤ 2 ^ bits) :
    accepts bits count word = true ∧ spread bits count word = i ↔
      word ∈ Finset.Ico (firstWord bits count i)
        (firstWord bits count i + 2 ^ bits / count) := by
  have hshare := rejectionThreshold_add hle
  have hend : (i + 1) * 2 ^ bits =
      i * 2 ^ bits + rejectionThreshold bits count +
        count * (2 ^ bits / count) := by
    rw [Nat.succ_mul]
    omega
  rw [accepted_iff_product, Finset.mem_Ico, firstWord, ← add_mul_ceilDiv hpos,
    ← hend, ceilDiv_le_iff_le_mul hpos, ← not_le, ← not_le,
    ceilDiv_le_iff_le_mul hpos, Nat.mul_comm word]

/-- Every number of the range has the same number of words. -/
theorem card_accepted (hle : count ≤ 2 ^ bits) (hi : i < count) :
    ((Finset.range (2 ^ bits)).filter fun word =>
      accepts bits count word = true ∧ spread bits count word = i).card =
        2 ^ bits / count := by
  have hpos : 0 < count := Nat.zero_lt_of_lt hi
  have hwords : (Finset.range (2 ^ bits)).filter (fun word =>
      accepts bits count word = true ∧ spread bits count word = i) =
        Finset.Ico (firstWord bits count i)
          (firstWord bits count i + 2 ^ bits / count) := by
    ext word
    rw [Finset.mem_filter, Finset.mem_range, accepted_iff_mem_Ico hpos hle,
      and_iff_right_iff_imp, ← accepted_iff_mem_Ico hpos hle,
      accepted_iff_product]
    rintro ⟨-, hlt⟩
    have hall : word * count < 2 ^ bits * count := by
      rw [Nat.mul_comm (2 ^ bits)]
      exact hlt.trans_le (Nat.mul_le_mul_right _ hi)
    exact Nat.lt_of_mul_lt_mul_right hall
  rw [hwords, Nat.card_Ico, Nat.add_sub_cancel_left]

theorem spread_lt (hword : word < 2 ^ bits) (hpos : 0 < count) :
    spread bits count word < count := by
  apply Nat.div_lt_of_lt_mul
  exact Nat.mul_lt_mul_of_pos_right hword hpos

/-! ## The first accepted word -/

variable {next : G → Nat × G}

/-- The draw that comes after a number of others. -/
def drawAfter (next : G → Nat × G) (others : Nat) (source : G) : Nat × G :=
  next ((fun source => (next source).2)^[others] source)

/-- The words before are thrown away, and the word that comes after them is
accepted. -/
structure FirstAccepted (bits count : Nat) (next : G → Nat × G) (source : G)
    (others : Nat) : Prop where
  rejected : ∀ j < others,
    accepts bits count (drawAfter next j source).1 = false
  accepted : accepts bits count (drawAfter next others source).1 = true

theorem drawBelow_succ (bits count : Nat) (next : G → Nat × G) (redraws : Nat)
    (source : G) :
    drawBelow bits count next (redraws + 1) source =
      if accepts bits count (next source).1 then
        (spread bits count (next source).1, (next source).2)
      else drawBelow bits count next redraws (next source).2 := rfl

/-- Whatever the redraws, a number of the range is chosen. -/
theorem drawBelow_lt (hnext : ∀ source, (next source).1 < 2 ^ bits)
    (hpos : 0 < count) (redraws : Nat) (source : G) :
    (drawBelow bits count next redraws source).1 < count := by
  induction redraws generalizing source with
  | zero => exact spread_lt (hnext source) hpos
  | succ redraws ih =>
      rw [drawBelow_succ]
      split
      next => exact spread_lt (hnext source) hpos
      next => exact ih _

/-- The first accepted word decides, and no word after it is drawn. -/
theorem FirstAccepted.drawBelow_eq {source : G} {m redraws : Nat}
    (hfirst : FirstAccepted bits count next source m) (henough : m ≤ redraws) :
    drawBelow bits count next redraws source =
      (spread bits count (drawAfter next m source).1,
        (drawAfter next m source).2) := by
  induction m generalizing redraws source with
  | zero =>
      cases redraws with
      | zero => rfl
      | succ redraws => exact if_pos hfirst.accepted
  | succ m ih =>
      obtain ⟨redraws, rfl⟩ := Nat.exists_eq_add_of_le' henough
      have hrejected : ¬accepts bits count (next source).1 = true :=
        Bool.eq_false_iff.mp (hfirst.rejected 0 (Nat.zero_lt_succ m))
      have hrest : FirstAccepted bits count next (next source).2 m :=
        ⟨fun j hj => hfirst.rejected (j + 1) (Nat.succ_lt_succ hj),
          hfirst.accepted⟩
      rw [← Nat.add_assoc, drawBelow_succ, if_neg hrejected]
      exact ih hrest (Nat.le_add_left m redraws)

/-- What a source with finitely many states comes to at all, it comes to before
it has gone through as many states as there are. -/
theorem first_lt_card {S : Type} [Fintype S] {f : G → G} {code : G → S}
    {source : G}
    (hcode : ∀ i j, code (f^[i] source) = code (f^[j] source) →
      f^[i] source = f^[j] source)
    {p : G → Prop} {m : Nat} (hbefore : ∀ j < m, ¬p (f^[j] source))
    (hp : p (f^[m] source)) : m < Fintype.card S := by
  by_contra hmany
  have hcard : Fintype.card S < Fintype.card (Fin (m + 1)) := by
    rw [Fintype.card_fin]
    omega
  obtain ⟨i, j, hne, hsame⟩ := Fintype.exists_ne_map_eq_of_card_lt
    (fun i : Fin (m + 1) => code (f^[i] source)) hcard
  -- Leaving out the draws between two equal states leads to the same state.
  have hearlier : ∀ i j, i < j → j ≤ m →
      code (f^[i] source) ≠ code (f^[j] source) := by
    intro i j hij hj hsame
    apply hbefore (m - j + i) (by omega)
    have hshort : f^[m - j + i] source = f^[m] source := by
      rw [Function.iterate_add_apply, hcode i j hsame,
        ← Function.iterate_add_apply, Nat.sub_add_cancel hj]
    rwa [hshort]
  rcases lt_or_gt_of_ne hne with hlt | hgt
  · exact hearlier i j hlt (Nat.le_of_lt_succ j.isLt) hsame
  · exact hearlier j i hgt (Nat.le_of_lt_succ i.isLt) hsame.symm

end TreeGrowth
