import TreeGrowth.Grammar.RuleText
import TreeGrowth.Proofs.Decimal.Numeral

/-!
# The marks of a rule text

Reading a rule splits its text at the first occurrence of a mark and cuts a
weight in parentheses off its end.  Each of these is tied here to the
concatenation that it undoes.  No mark is blank, so stripping a text does not
move its marks; and no number holds a bracket or the head of an arrow, so the
parenthesis of a weight never reaches back across one.
-/

namespace TreeGrowth.Rule

open Text

/-! ## Splitting at a mark -/

theorem positionFrom?_eq_map (mark text : List Char) (position : Nat) :
    positionFrom? mark position text =
      (positionFrom? mark 0 text).map (position + ·) := by
  induction text generalizing position with
  | nil => rfl
  | cons c rest ih =>
      rw [positionFrom?, positionFrom?]
      split
      next => simp
      next =>
        rw [ih (position + 1), ih (0 + 1), Option.map_map]
        congr 1
        funext i
        simp only [Function.comp_apply]
        omega

theorem splitAtFirst?_cons (mark : List Char) (c : Char) (rest : List Char) :
    splitAtFirst? mark (c :: rest) =
      if mark.isPrefixOf (c :: rest) then
        some ([], (c :: rest).drop mark.length)
      else
        (splitAtFirst? mark rest).map fun parts =>
          (c :: parts.1, parts.2) := by
  rw [splitAtFirst?, positionFrom?]
  split
  next => simp
  next =>
    rw [positionFrom?_eq_map, splitAtFirst?, Option.map_map, Option.map_map]
    congr 1
    funext i
    have htake : 0 + 1 + i = i + 1 := by omega
    have hdrop : i + 1 + mark.length = (i + mark.length) + 1 := by omega
    simp [htake, hdrop]

theorem eq_append_of_splitAtFirst? {mark text before after : List Char}
    (hsplit : splitAtFirst? mark text = some (before, after)) :
    text = before ++ mark ++ after := by
  induction text generalizing before after with
  | nil => simp [splitAtFirst?, positionFrom?] at hsplit
  | cons c rest ih =>
      rw [splitAtFirst?_cons] at hsplit
      split at hsplit
      next hmark =>
        obtain ⟨rfl, rfl⟩ := Prod.mk.inj (Option.some.inj hsplit)
        obtain ⟨tail, htail⟩ := List.isPrefixOf_iff_prefix.mp hmark
        rw [← htail]
        simp
      next =>
        obtain ⟨parts, hparts, heq⟩ := Option.map_eq_some_iff.mp hsplit
        obtain ⟨rfl, rfl⟩ := Prod.mk.inj heq
        rw [ih hparts]
        simp

/-- A mark is found where it is written if it does not occur earlier and
cannot overlap itself. -/
theorem splitAtFirst?_append {first : Char} {mark before : List Char}
    (after : List Char) (hmark : first ∉ mark)
    (hbefore : ¬first :: mark <:+: before) :
    splitAtFirst? (first :: mark) (before ++ first :: mark ++ after) =
      some (before, after) := by
  induction before with
  | nil => simp [splitAtFirst?_cons]
  | cons c rest ih =>
      have hrest : ¬first :: mark <:+: rest :=
        fun hoccurs => hbefore (List.infix_cons hoccurs)
      rw [List.cons_append, List.cons_append, splitAtFirst?_cons, ih hrest,
        if_neg]
      · rfl
      · rw [List.isPrefixOf_iff_prefix, List.append_assoc]
        intro hprefix
        obtain ⟨rfl, hmarkPrefix⟩ := List.cons_prefix_cons.mp hprefix
        rcases List.prefix_or_prefix_of_prefix hmarkPrefix
          (List.prefix_append rest _) with hwithin | hacross
        · exact hbefore (List.prefix_cons_inj first |>.mpr hwithin).isInfix
        · -- The mark would reach into its own next occurrence.
          obtain ⟨overlap, rfl⟩ := hacross
          rw [List.prefix_append_right_inj] at hmarkPrefix
          cases overlap with
          | nil => exact hbefore (by simp)
          | cons d overlap =>
              obtain ⟨rfl, _⟩ := List.cons_prefix_cons.mp hmarkPrefix
              simp at hmark

theorem splitAtFirst?_singleton_append {mark : Char} {before : List Char}
    (after : List Char) (hbefore : mark ∉ before) :
    splitAtFirst? [mark] (before ++ mark :: after) = some (before, after) := by
  have hoccurs : ¬[mark] <:+: before :=
    fun h => hbefore (h.subset (by simp))
  simpa using splitAtFirst?_append after List.not_mem_nil hoccurs

theorem splitAtFirst?_singleton_eq_none {mark : Char} {text : List Char}
    (htext : mark ∉ text) : splitAtFirst? [mark] text = none := by
  induction text with
  | nil => rfl
  | cons c rest ih =>
      obtain ⟨hc, hrest⟩ : mark ≠ c ∧ mark ∉ rest := by
        simpa using htext
      simp [splitAtFirst?_cons, ih hrest, hc]

theorem splitAtFirst?_singleton_cases (mark : Char) (text : List Char) :
    (mark ∉ text ∧ splitAtFirst? [mark] text = none) ∨
      ∃ before after, mark ∉ before ∧ text = before ++ mark :: after ∧
        splitAtFirst? [mark] text = some (before, after) := by
  by_cases hmem : mark ∈ text
  · obtain ⟨before, after, rfl, hbefore⟩ := List.eq_append_cons_of_mem hmem
    exact .inr ⟨before, after, hbefore, rfl,
      splitAtFirst?_singleton_append after hbefore⟩
  · exact .inl ⟨hmem, splitAtFirst?_singleton_eq_none hmem⟩

theorem splitAtFirst?_trim {mark : Char} (hmark : isBlank mark = false)
    (text : List Char) :
    splitAtFirst? [mark] (trim text) =
      (splitAtFirst? [mark] text).map fun parts =>
        (trimStart parts.1, trimEnd parts.2) := by
  rcases splitAtFirst?_singleton_cases mark text with
    ⟨hnone, hsplit⟩ | ⟨before, after, hbefore, rfl, hsplit⟩
  · have htrim : mark ∉ trim text :=
      fun hmem => hnone ((trim_sublist text).mem hmem)
    rw [hsplit, splitAtFirst?_singleton_eq_none htrim]
    rfl
  · have hstart : mark ∉ trimStart before :=
      fun hmem => hbefore ((List.dropWhile_sublist isBlank).mem hmem)
    rw [trim_append_cons _ _ hmark, hsplit,
      splitAtFirst?_singleton_append _ hstart]
    rfl

/-! ## A parenthesis at the end -/

def Unbracketed (text : List Char) : Prop := '(' ∉ text ∧ ')' ∉ text

theorem splitParenthesized?_append {before inner : List Char}
    (hinner : Unbracketed inner) :
    splitParenthesized? (before ++ '(' :: inner ++ [')']) =
      some (before, inner) := by
  have hreverse : (before ++ '(' :: inner ++ [')']).reverse =
      ')' :: (inner.reverse ++ '(' :: before.reverse) := by
    simp
  have hkept : ∀ c ∈ inner.reverse, (c ≠ '(' && c ≠ ')') = true := by
    intro c hc
    rw [List.mem_reverse] at hc
    have hopen : c ≠ '(' := fun h => hinner.1 (h ▸ hc)
    have hclose : c ≠ ')' := fun h => hinner.2 (h ▸ hc)
    simp [hopen, hclose]
  unfold splitParenthesized?
  simp only [hreverse]
  rw [List.takeWhile_append_of_pos hkept, List.dropWhile_append_of_pos hkept]
  simp

theorem splitParenthesized?_eq_some_iff {text before inner : List Char} :
    splitParenthesized? text = some (before, inner) ↔
      text = before ++ '(' :: inner ++ [')'] ∧ Unbracketed inner := by
  constructor
  · intro hsplit
    unfold splitParenthesized? at hsplit
    split at hsplit
    next rest hrest =>
      simp only at hsplit
      have hwhole := List.takeWhile_append_dropWhile
        (p := fun c => c ≠ '(' && c ≠ ')') (l := rest)
      have hkept : ∀ c ∈ rest.takeWhile (fun c => c ≠ '(' && c ≠ ')'),
          c ≠ '(' ∧ c ≠ ')' := by
        intro c hc
        simpa using List.mem_takeWhile_imp hc
      generalize rest.takeWhile (fun c => c ≠ '(' && c ≠ ')') = front
        at hsplit hwhole hkept
      split at hsplit
      next tail htail =>
        obtain ⟨rfl, rfl⟩ := Prod.mk.inj (Option.some.inj hsplit)
        refine ⟨?_, ?_, ?_⟩
        · rw [← List.reverse_reverse text, hrest, ← hwhole, htail]
          simp
        · intro hmem
          exact (hkept _ (List.mem_reverse.mp hmem)).1 rfl
        · intro hmem
          exact (hkept _ (List.mem_reverse.mp hmem)).2 rfl
      next => simp at hsplit
    next => simp at hsplit
  · rintro ⟨rfl, hinner⟩
    exact splitParenthesized?_append hinner

/-- The text ends in parentheses around a number, which may be padded. -/
def EndsInNumber (text : List Char) : Prop :=
  ∃ before inner, text = before ++ '(' :: inner ++ [')'] ∧
    Unbracketed inner ∧ (Decimal.readDecimal? (trim inner)).isSome

theorem unbracketed_of_readDecimal? {text : List Char} {x : Float}
    (hread : Decimal.readDecimal? text = some x) : Unbracketed text := by
  constructor
  · intro hopen
    exact absurd (Decimal.isNumeral_of_mem hread hopen (by decide) (by decide))
      (by decide)
  · intro hclose
    exact absurd
      (Decimal.isNumeral_of_mem hread hclose (by decide) (by decide))
      (by decide)

/-- A character that is no bracket, and that stands neither in a number nor in
the padding around one. -/
def StandsApart (c : Char) : Prop :=
  c ≠ '(' ∧ c ≠ ')' ∧ isBlank c = false ∧
    Decimal.isPlainBlank (Decimal.plainChar c) = false ∧
    Decimal.isNumeral (Decimal.plainChar c) = false

theorem standsApart_of_mem {c : Char} (hc : c ∈ ['>', '→']) :
    StandsApart c := by
  simp only [List.mem_cons, List.not_mem_nil, or_false] at hc
  unfold StandsApart
  rcases hc with rfl | rfl <;> decide +kernel

theorem StandsApart.notMem_of_readDecimal?_trim {c : Char}
    (hc : StandsApart c) {text : List Char} {x : Float}
    (hread : Decimal.readDecimal? (trim text) = some x) : c ∉ text := by
  obtain ⟨_, _, hblank, hplain, hnumeral⟩ := hc
  obtain ⟨before, after, hbefore, hafter, htext⟩ := exists_trim text
  rw [htext]
  simp only [List.mem_append, not_or]
  refine ⟨⟨hbefore.notMem hblank, ?_⟩, hafter.notMem hblank⟩
  intro hmem
  rw [Decimal.isNumeral_plainChar hread hmem hplain] at hnumeral
  exact Bool.noConfusion hnumeral

theorem unbracketed_of_allBlank {blanks : List Char}
    (hblanks : AllBlank blanks) : Unbracketed blanks :=
  ⟨hblanks.notMem (by decide), hblanks.notMem (by decide)⟩

theorem Unbracketed.append {first rest : List Char}
    (hfirst : Unbracketed first) (hrest : Unbracketed rest) :
    Unbracketed (first ++ rest) := by
  simp [Unbracketed, hfirst.1, hfirst.2, hrest.1, hrest.2]

theorem splitWeight_append (before : List Char) {inner : List Char}
    {x : Float} (hinner : Unbracketed inner)
    (hread : Decimal.readDecimal? (trim inner) = some x) :
    splitWeight (before ++ '(' :: inner ++ [')']) = (trimEnd before, x) := by
  unfold splitWeight
  rw [splitParenthesized?_append hinner]
  simp [hread]

theorem splitWeight_eq_self {text : List Char} (htext : ¬EndsInNumber text) :
    splitWeight text = (text, 1.0) := by
  unfold splitWeight
  cases hsplit : splitParenthesized? text with
  | none => rfl
  | some parts =>
      obtain ⟨before, inner⟩ := parts
      obtain ⟨hwhole, hinner⟩ := splitParenthesized?_eq_some_iff.mp hsplit
      cases hread : Decimal.readDecimal? (trim inner) with
      | none => simp [hread]
      | some x =>
          exact absurd ⟨before, inner, hwhole, hinner, by simp [hread]⟩ htext

theorem splitWeight_cases (text : List Char) :
    (¬EndsInNumber text ∧ splitWeight text = (text, 1.0)) ∨
      ∃ before inner x, text = before ++ '(' :: inner ++ [')'] ∧
        Unbracketed inner ∧ Decimal.readDecimal? (trim inner) = some x ∧
        splitWeight text = (trimEnd before, x) := by
  by_cases htext : EndsInNumber text
  · obtain ⟨before, inner, rfl, hinner, hsome⟩ := htext
    obtain ⟨x, hread⟩ := Option.isSome_iff_exists.mp hsome
    exact .inr ⟨before, inner, x, rfl, hinner, hread,
      splitWeight_append before hinner hread⟩
  · exact .inl ⟨htext, splitWeight_eq_self htext⟩

theorem exists_of_append_eq_append_cons {c : Char}
    {before text front back : List Char} (hc : c ∉ before)
    (heq : before ++ text = front ++ c :: back) :
    ∃ rest, front = before ++ rest ∧ text = rest ++ c :: back := by
  rcases List.append_eq_append_iff.mp heq with
    ⟨rest, hfront, htext⟩ | ⟨rest, hbefore, hback⟩
  · exact ⟨rest, hfront, htext⟩
  · cases rest with
    | nil => exact ⟨[], by simpa using hbefore.symm, by simpa using hback.symm⟩
    | cons d rest =>
        obtain ⟨rfl, _⟩ := List.cons.inj hback
        exact absurd (hbefore ▸ by simp) hc

theorem exists_of_append_cons_eq_append {c : Char}
    {before text front back : List Char} (hc : c ∉ back)
    (heq : before ++ c :: text = front ++ back) :
    ∃ rest, front = before ++ c :: rest ∧ text = rest ++ back := by
  rcases List.append_eq_append_iff.mp heq with
    ⟨rest, hfront, htext⟩ | ⟨rest, _, hback⟩
  · cases rest with
    | nil =>
        obtain rfl : c :: text = back := htext
        exact absurd List.mem_cons_self hc
    | cons d rest =>
        obtain ⟨rfl, hrest⟩ := List.cons.inj htext
        exact ⟨rest, hfront, hrest⟩
  · exact absurd (hback ▸ by simp) hc

theorem endsInNumber_append_blanks {blanks : List Char} (text : List Char)
    (hblanks : AllBlank blanks) :
    EndsInNumber (blanks ++ text) ↔ EndsInNumber text := by
  constructor
  · rintro ⟨front, inner, heq, hinner, hread⟩
    rw [List.append_assoc, List.cons_append] at heq
    obtain ⟨rest, _, htext⟩ :=
      exists_of_append_eq_append_cons (hblanks.notMem (by decide)) heq
    exact ⟨rest, inner, by simpa using htext, hinner, hread⟩
  · rintro ⟨front, inner, rfl, hinner, hread⟩
    exact ⟨blanks ++ front, inner, by simp, hinner, hread⟩

/-- The parenthesis of a weight does not reach back across a character that
stands apart, such as the head of an arrow. -/
theorem StandsApart.splitWeight_append_cons {c : Char} (hc : StandsApart c)
    (before text : List Char) :
    splitWeight (before ++ c :: text) =
      (before ++ c :: (splitWeight text).1, (splitWeight text).2) := by
  rcases splitWeight_cases (before ++ c :: text) with
    ⟨hnone, hwhole⟩ | ⟨front, inner, x, heq, hinner, hread, hsplit⟩
  · have htext : ¬EndsInNumber text := by
      rintro ⟨front, inner, rfl, hinner, hread⟩
      exact hnone ⟨before ++ c :: front, inner, by simp, hinner, hread⟩
    rw [hwhole, splitWeight_eq_self htext]
  · have hapart : c ∉ '(' :: inner ++ [')'] := by
      simpa using
        ⟨hc.1, hc.notMem_of_readDecimal?_trim hread, hc.2.1⟩
    rw [List.append_assoc] at heq
    obtain ⟨rest, rfl, rfl⟩ := exists_of_append_cons_eq_append hapart heq
    have hrest := splitWeight_append rest hinner hread
    rw [List.append_assoc] at hrest
    rw [hsplit, hrest, trimEnd_append_cons _ _ hc.2.2.1]

theorem StandsApart.splitWeight_trim_append_cons {c : Char}
    (hc : StandsApart c) (before text : List Char) :
    splitWeight (trim (before ++ c :: text)) =
      (trimStart before ++ c :: (splitWeight (trimEnd text)).1,
        (splitWeight (trimEnd text)).2) := by
  rw [trim_append_cons before text hc.2.2.1, hc.splitWeight_append_cons]

theorem prefix_of_splitWeight (text : List Char) :
    (splitWeight text).1 <+: text := by
  rcases splitWeight_cases text with
    ⟨_, hwhole⟩ | ⟨before, inner, x, rfl, _, _, hsplit⟩
  · rw [hwhole]
  · rw [hsplit, List.append_assoc]
    exact (List.rdropWhile_prefix isBlank before).trans
      (List.prefix_append _ _)

end TreeGrowth.Rule
