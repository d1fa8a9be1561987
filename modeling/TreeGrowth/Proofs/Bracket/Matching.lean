import TreeGrowth.Proofs.Bracket.Balanced

/-!
# Matching brackets

Two brackets of a word match if the text between them is balanced.  In a word
that is not balanced, some brackets match none: a word is read from left to
right into balanced pieces, with the unmatched closing brackets first and the
unmatched opening ones after them.  Such a reading needs a stack of the
positions of the brackets that are open, and it finds exactly the brackets that
match none.
-/

namespace TreeGrowth

/-! ## Brackets that match -/

theorem Balanced.append {u v : Word} (hu : Balanced u) (hv : Balanced v) :
    Balanced (u ++ v) := by
  induction hu with
  | nil => exact hv
  | symbol hopen hclose _ ih => exact .symbol hopen hclose ih
  | @branch u v' hu' _ _ ih =>
      rw [List.cons_append, List.append_assoc, List.cons_append]
      exact .branch hu' ih

/-- The brackets that a reader has come across. -/
structure Brackets where
  /-- The position that is read next. -/
  position : Nat := 0
  /-- The positions of the brackets that are open, innermost first. -/
  opened : List Nat := []
  /-- The positions of the closing brackets that have closed nothing. -/
  strays : List Nat := []
  deriving Repr, DecidableEq

def Brackets.read (b : Brackets) (c : Char) : Brackets where
  position := b.position + 1
  opened :=
    if c = '[' then b.position :: b.opened
    else if c = ']' then b.opened.tail
    else b.opened
  strays :=
    b.strays ++ if c = ']' ∧ b.opened = [] then [b.position] else []

def Brackets.ofWord (word : Word) : Brackets := word.foldl Brackets.read {}

theorem Brackets.ofWord_concat (word : Word) (c : Char) :
    Brackets.ofWord (word ++ [c]) = (Brackets.ofWord word).read c := by
  simp [Brackets.ofWord]

theorem Brackets.read_open (b : Brackets) :
    b.read '[' =
      { b with
        position := b.position + 1
        opened := b.position :: b.opened } := by
  simp [Brackets.read]

theorem Brackets.read_close (b : Brackets) :
    b.read ']' =
      { b with
        position := b.position + 1
        opened := b.opened.tail
        strays := b.strays ++ if b.opened = [] then [b.position] else [] } := by
  simp [Brackets.read]

theorem Brackets.read_of_ne {c : Char} (hopen : c ≠ '[') (hclose : c ≠ ']')
    (b : Brackets) : b.read c = { b with position := b.position + 1 } := by
  simp [Brackets.read, hopen, hclose]

@[simp] theorem Brackets.position_ofWord (word : Word) :
    (Brackets.ofWord word).position = word.length := by
  induction word using List.reverseRecOn with
  | nil => rfl
  | append_singleton word c ih =>
      rw [Brackets.ofWord_concat, Brackets.read, ih, List.length_append,
        List.length_singleton]

/-! ## Pieces of a word -/

/-- A word in balanced pieces, with the positions of the brackets between
them. -/
inductive Reading : Word → List Nat → List Nat → Prop
  | balanced {w : Word} (hw : Balanced w) : Reading w [] []
  | stray {u v : Word} {strays : List Nat} (hu : Reading u strays [])
      (hv : Balanced v) : Reading (u ++ ']' :: v) (strays ++ [u.length]) []
  | opened {u v : Word} {strays opened : List Nat}
      (hu : Reading u strays opened) (hv : Balanced v) :
      Reading (u ++ '[' :: v) strays (u.length :: opened)

theorem Reading.append {u v : Word} {strays opened : List Nat}
    (hu : Reading u strays opened) (hv : Balanced v) :
    Reading (u ++ v) strays opened := by
  cases hu with
  | balanced hw => exact .balanced (hw.append hv)
  | stray hu hw =>
      rw [List.append_assoc, List.cons_append]
      exact .stray hu (hw.append hv)
  | opened hu hw =>
      rw [List.append_assoc, List.cons_append]
      exact .opened hu (hw.append hv)

/-- The text from the innermost open bracket on is balanced. -/
theorem Reading.exists_innermost {w : Word} {strays opened : List Nat}
    {p : Nat} (hw : Reading w strays (p :: opened)) :
    ∃ u v, w = u ++ '[' :: v ∧ p = u.length ∧ Balanced v ∧
      Reading u strays opened := by
  generalize hopened : p :: opened = all at hw
  cases hw with
  | balanced _ => simp at hopened
  | stray _ _ => simp at hopened
  | @opened u v _ _ hu hv =>
      obtain ⟨rfl, rfl⟩ := List.cons.inj hopened
      exact ⟨u, v, rfl, rfl, hv, hu⟩

theorem Reading.balanced_of_nil {w : Word} {strays : List Nat}
    (hw : Reading w strays []) (hstrays : strays = []) : Balanced w := by
  cases hw with
  | balanced hw => exact hw
  | stray _ _ => simp at hstrays

theorem Reading.read {u : Word} {b : Brackets}
    (hu : Reading u b.strays b.opened) (hposition : b.position = u.length)
    (c : Char) : Reading (u ++ [c]) (b.read c).strays (b.read c).opened := by
  by_cases hopen : c = '['
  · subst hopen
    rw [Brackets.read_open, hposition]
    exact .opened hu .nil
  by_cases hclose : c = ']'
  · subst hclose
    cases hopened : b.opened with
    | nil =>
        rw [hopened] at hu
        rw [Brackets.read_close, hposition, hopened, if_pos rfl]
        exact .stray hu .nil
    | cons p opened =>
        rw [hopened] at hu
        -- The bracket closes the innermost open one, and the two go into the
        -- piece before that.
        obtain ⟨u, v, rfl, _, hv, hu⟩ := hu.exists_innermost
        rw [Brackets.read_close, hopened, if_neg (List.cons_ne_nil _ _),
          List.append_nil, List.append_assoc, List.cons_append]
        exact hu.append (.branch hv .nil)
  · rw [Brackets.read_of_ne hopen hclose]
    exact hu.append (.symbol hopen hclose .nil)

theorem reading_ofWord (word : Word) :
    Reading word (Brackets.ofWord word).strays
      (Brackets.ofWord word).opened := by
  induction word using List.reverseRecOn with
  | nil => exact .balanced .nil
  | append_singleton word c ih =>
      rw [Brackets.ofWord_concat]
      exact ih.read (Brackets.position_ofWord word) c

/-- A balanced piece is read without a trace. -/
theorem Balanced.foldl_read {w : Word} (hw : Balanced w) (b : Brackets) :
    w.foldl Brackets.read b =
      { b with position := b.position + w.length } := by
  induction hw generalizing b with
  | nil => rfl
  | @symbol c w hopen hclose _ ih =>
      rw [List.foldl_cons, Brackets.read_of_ne hopen hclose, ih,
        List.length_cons, Nat.add_right_comm, Nat.add_assoc]
  | @branch u v _ _ ihu ihv =>
      have hlength : b.position + 1 + u.length + 1 + v.length =
          b.position + ('[' :: (u ++ ']' :: v)).length := by
        simp only [List.length_cons, List.length_append]
        omega
      rw [List.foldl_cons, List.foldl_append, ihu, List.foldl_cons, ihv,
        ← hlength, Brackets.read_open, Brackets.read_close]
      simp

theorem balanced_iff_ofWord {w : Word} :
    Balanced w ↔
      (Brackets.ofWord w).strays = [] ∧ (Brackets.ofWord w).opened = [] := by
  constructor
  · intro hw
    rw [Brackets.ofWord, hw.foldl_read]
    exact ⟨rfl, rfl⟩
  · rintro ⟨hstrays, hopened⟩
    have hreading := reading_ofWord w
    rw [hopened] at hreading
    exact hreading.balanced_of_nil hstrays

instance (w : Word) : Decidable (Balanced w) :=
  decidable_of_iff _ balanced_iff_ofWord.symm

/-! ## Brackets that match none -/

/-- An opening bracket and the closing bracket that matches it. -/
def BracketPair (word : Word) (i j : Nat) : Prop :=
  i < j ∧ word[i]? = some '[' ∧ word[j]? = some ']' ∧
    Balanced ((word.take j).drop (i + 1))

instance (word : Word) (i j : Nat) : Decidable (BracketPair word i j) :=
  inferInstanceAs (Decidable (_ ∧ _ ∧ _ ∧ _))

/-- The positions of the closing brackets that no opening bracket matches, in
order. -/
def unmatchedClosings (word : Word) : List Nat :=
  (List.range word.length).filter fun j =>
    decide (word[j]? = some ']' ∧ ¬∃ i < j, BracketPair word i j)

/-- The positions of the opening brackets that no closing bracket matches, in
order. -/
def unmatchedOpenings (word : Word) : List Nat :=
  (List.range word.length).filter fun i =>
    decide (word[i]? = some '[' ∧ ¬∃ j < word.length, BracketPair word i j)

/-- A bracket is the innermost open one if the text after it is balanced. -/
theorem head?_opened_ofWord_iff {word : Word} {i : Nat} :
    (Brackets.ofWord word).opened.head? = some i ↔
      word[i]? = some '[' ∧ Balanced (word.drop (i + 1)) := by
  constructor
  · intro hhead
    obtain ⟨opened, hopened⟩ := List.head?_eq_some_iff.mp hhead
    have hreading := reading_ofWord word
    rw [hopened] at hreading
    obtain ⟨u, v, rfl, rfl, hv, _⟩ := hreading.exists_innermost
    simp [hv]
  · rintro ⟨hopen, hrest⟩
    obtain ⟨hi, hsymbol⟩ := List.getElem?_eq_some_iff.mp hopen
    have hword : word.take i ++ '[' :: word.drop (i + 1) = word := by
      rw [← hsymbol, ← List.drop_eq_getElem_cons hi, List.take_append_drop]
    have hposition : (Brackets.ofWord (word.take i)).position = i := by
      rw [Brackets.position_ofWord, List.length_take_of_le hi.le]
    rw [← hword, Brackets.ofWord, List.foldl_append, List.foldl_cons,
      hrest.foldl_read]
    change some (Brackets.ofWord (word.take i)).position = some i
    rw [hposition]

theorem bracketPair_concat_iff {word : Word} {c : Char} {i j : Nat} :
    BracketPair (word ++ [c]) i j ↔
      BracketPair word i j ∨ (j = word.length ∧ c = ']' ∧
        (Brackets.ofWord word).opened.head? = some i) := by
  unfold BracketPair
  rcases Nat.lt_trichotomy j word.length with hj | rfl | hj
  · -- Both brackets stand within the word.
    rw [List.getElem?_append_left hj, List.take_append_of_le_length hj.le]
    constructor
    · rintro ⟨hij, hopen, hrest⟩
      rw [List.getElem?_append_left (hij.trans hj)] at hopen
      exact .inl ⟨hij, hopen, hrest⟩
    · rintro (⟨hij, hopen, hrest⟩ | ⟨rfl, _⟩)
      · rw [← List.getElem?_append_left (hij.trans hj)] at hopen
        exact ⟨hij, hopen, hrest⟩
      · exact absurd hj (Nat.lt_irrefl _)
  · -- The new symbol closes what is open.
    rw [head?_opened_ofWord_iff, List.getElem?_concat_length,
      List.take_left, List.getElem?_eq_none le_rfl]
    constructor
    · rintro ⟨hi, hopen, hclose, hrest⟩
      rw [List.getElem?_append_left hi] at hopen
      exact .inr ⟨rfl, Option.some.inj hclose, hopen, hrest⟩
    · rintro (⟨_, _, hclose, _⟩ | ⟨_, rfl, hopen, hrest⟩)
      · simp at hclose
      · have hi := (List.getElem?_eq_some_iff.mp hopen).1
        rw [← List.getElem?_append_left hi] at hopen
        exact ⟨hi, hopen, rfl, hrest⟩
  · have hlength : (word ++ [c]).length ≤ j := by simpa using hj
    rw [List.getElem?_eq_none hlength, List.getElem?_eq_none hj.le]
    simp [hj.ne']

theorem BracketPair.lt_length {word : Word} {i j : Nat}
    (hpair : BracketPair word i j) : j < word.length :=
  (List.getElem?_eq_some_iff.mp hpair.2.2.1).1

theorem exists_opening_iff {word : Word} {j : Nat} :
    (∃ i < j, BracketPair word i j) ↔ ∃ i, BracketPair word i j :=
  ⟨fun ⟨i, _, hpair⟩ => ⟨i, hpair⟩, fun ⟨i, hpair⟩ => ⟨i, hpair.1, hpair⟩⟩

theorem exists_closing_iff {word : Word} {i : Nat} :
    (∃ j < word.length, BracketPair word i j) ↔
      ∃ j, BracketPair word i j :=
  ⟨fun ⟨j, _, hpair⟩ => ⟨j, hpair⟩,
    fun ⟨j, hpair⟩ => ⟨j, hpair.lt_length, hpair⟩⟩

/-- The brackets that close nothing are exactly those that match none. -/
theorem strays_ofWord (word : Word) :
    (Brackets.ofWord word).strays = unmatchedClosings word := by
  induction word using List.reverseRecOn with
  | nil => rfl
  | append_singleton word c ih =>
      have hbefore : ∀ j ∈ List.range word.length,
          ((word ++ [c])[j]? = some ']' ∧
              ¬∃ i < j, BracketPair (word ++ [c]) i j) ↔
            word[j]? = some ']' ∧ ¬∃ i < j, BracketPair word i j := by
        intro j hj
        rw [List.mem_range] at hj
        simp only [List.getElem?_append_left hj, bracketPair_concat_iff, hj.ne,
          false_and, or_false]
      have hlast : ((word ++ [c])[word.length]? = some ']' ∧
          ¬∃ i < word.length, BracketPair (word ++ [c]) i word.length) ↔
            c = ']' ∧ (Brackets.ofWord word).opened = [] := by
        have hnone : ∀ i, ¬BracketPair word i word.length :=
          fun i hpair => Nat.lt_irrefl _ hpair.lt_length
        rw [exists_opening_iff, List.getElem?_concat_length,
          Option.some.injEq]
        simp only [bracketPair_concat_iff, hnone, false_or, true_and]
        cases (Brackets.ofWord word).opened <;> simp
      rw [Brackets.ofWord_concat, unmatchedClosings, List.length_append,
        List.length_singleton, List.range_succ, List.filter_append,
        List.filter_congr fun j hj => decide_eq_decide.mpr (hbefore j hj),
        List.filter_singleton]
      simp only [Brackets.read, ih, hlast, Brackets.position_ofWord,
        Bool.cond_decide]
      rfl

/-- The brackets that are open at the end are exactly the opening ones that
match none. -/
theorem reverse_opened_ofWord (word : Word) :
    (Brackets.ofWord word).opened.reverse = unmatchedOpenings word := by
  induction word using List.reverseRecOn with
  | nil => rfl
  | append_singleton word c ih =>
      have hdistinct : (Brackets.ofWord word).opened.Nodup := by
        rw [← List.nodup_reverse, ih]
        exact List.nodup_range.filter _
      have hbefore : ∀ i ∈ List.range word.length,
          ((word ++ [c])[i]? = some '[' ∧
              ¬∃ j < (word ++ [c]).length, BracketPair (word ++ [c]) i j) ↔
            ¬(c = ']' ∧ (Brackets.ofWord word).opened.head? = some i) ∧
              word[i]? = some '[' ∧
                ¬∃ j < word.length, BracketPair word i j := by
        intro i hi
        rw [List.mem_range] at hi
        rw [exists_closing_iff, exists_closing_iff,
          List.getElem?_append_left hi]
        simp only [bracketPair_concat_iff, exists_or, exists_eq_left, not_or]
        exact ⟨fun ⟨hopen, hkept, hnew⟩ => ⟨hnew, hopen, hkept⟩,
          fun ⟨hnew, hopen, hkept⟩ => ⟨hopen, hkept, hnew⟩⟩
      have hlast : ((word ++ [c])[word.length]? = some '[' ∧
          ¬∃ j < (word ++ [c]).length,
            BracketPair (word ++ [c]) word.length j) ↔ c = '[' := by
        have hnone : ∀ j, ¬BracketPair (word ++ [c]) word.length j := by
          intro j hpair
          have hj := hpair.lt_length
          rw [List.length_append, List.length_singleton] at hj
          exact absurd hpair.1 (by omega)
        rw [List.getElem?_concat_length, Option.some.injEq]
        simp [hnone]
      have hrange : List.range (word ++ [c]).length =
          List.range word.length ++ [word.length] := by
        rw [List.length_append, List.length_singleton, List.range_succ]
      have hfilter : unmatchedOpenings (word ++ [c]) =
          (Brackets.ofWord word).opened.reverse.filter (fun i =>
              decide ¬(c = ']' ∧
                (Brackets.ofWord word).opened.head? = some i)) ++
            if c = '[' then [word.length] else [] := by
        rw [unmatchedOpenings, hrange, List.filter_append,
          List.filter_singleton, ih, unmatchedOpenings, List.filter_filter]
        congr 1
        · apply List.filter_congr
          intro i hi
          rw [← Bool.decide_and, decide_eq_decide]
          exact hbefore i hi
        · simp only [hlast, Bool.cond_decide]
      rw [hfilter, Brackets.ofWord_concat, Brackets.read, List.filter_reverse,
        Brackets.position_ofWord]
      by_cases hopen : c = '['
      · subst hopen
        simp
      by_cases hclose : c = ']'
      · subst hclose
        cases hopened : (Brackets.ofWord word).opened with
        | nil => simp
        | cons p opened =>
            rw [hopened, List.nodup_cons] at hdistinct
            have hkept : opened = opened.filter fun i => !decide (p = i) := by
              symm
              apply List.filter_eq_self.mpr
              intro i hi
              have hne : p ≠ i := fun heq => hdistinct.1 (heq ▸ hi)
              simpa using hne
            simpa using hkept
      · simp [hopen, hclose]

end TreeGrowth
