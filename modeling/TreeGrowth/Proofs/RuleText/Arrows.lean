import TreeGrowth.Proofs.RuleText.Spelling

/-!
# The two arrows

A rule may be written with either of two arrows.  The arrow of two characters
is sought first and anywhere in the text, so an arrow of one character is found
only where no arrow of two follows it, and not behind another of its own kind.
Where it is found it is as good as the other: the two sides are read alike.
Where it is not, the text is taken apart at another place, and what is read is
never the rule that the longer arrow would have given.
-/

namespace TreeGrowth.Rule

open Text

/-! ## Marks that do not occur -/

theorem splitAtFirst?_eq_none {mark text : List Char}
    (htext : ¬mark <:+: text) : splitAtFirst? mark text = none := by
  cases hsplit : splitAtFirst? mark text with
  | none => rfl
  | some parts =>
      obtain rfl := eq_append_of_splitAtFirst? hsplit
      exact absurd (List.infix_append _ _ _) htext

/-- What does not hold a character occurs on one side of it. -/
theorem infix_append_cons_iff {mark before after : List Char} {c : Char}
    (hc : c ∉ mark) :
    mark <:+: before ++ c :: after ↔ mark <:+: before ∨ mark <:+: after := by
  constructor
  · rintro ⟨front, back, htext⟩
    rcases List.append_eq_append_iff.mp htext with
      ⟨rest, hbefore, _⟩ | ⟨rest, hfront, hback⟩
    · exact .inl ⟨front, rest, hbefore.symm⟩
    · cases rest with
      | nil => exact .inl ⟨front, [], by simpa using hfront⟩
      | cons d rest =>
          obtain ⟨rfl, hafter⟩ := List.cons.inj hback
          obtain ⟨gap, _, hrest⟩ := exists_of_append_cons_eq_append hc
            hfront.symm
          exact .inr ⟨gap, back, by rw [← hrest]; exact hafter.symm⟩
  · rintro (hoccurs | hoccurs)
    · exact hoccurs.trans (List.prefix_append _ _).isInfix
    · exact (List.infix_cons hoccurs).trans (List.suffix_append _ _).isInfix

theorem exists_first_of_infix {mark text : List Char} (hmark : mark ≠ [])
    (hoccurs : mark <:+: text) :
    ∃ before after, text = before ++ mark ++ after ∧ ¬mark <:+: before := by
  induction text with
  | nil => exact absurd (List.infix_nil.mp hoccurs) hmark
  | cons c rest ih =>
      by_cases hhere : mark <+: c :: rest
      · obtain ⟨after, hafter⟩ := hhere
        exact ⟨[], after, hafter.symm, by simpa using hmark⟩
      · obtain ⟨before, after, rfl, hfirst⟩ :=
          ih ((List.infix_cons_iff.mp hoccurs).resolve_left hhere)
        refine ⟨c :: before, after, rfl, ?_⟩
        rw [List.infix_cons_iff, not_or]
        refine ⟨fun hstarts => hhere (hstarts.trans ?_), hfirst⟩
        rw [List.append_assoc, ← List.cons_append]
        exact List.prefix_append _ _

theorem length_trim_lt (before after : List Char) {c : Char}
    (hc : isBlank c = false) :
    (trim after).length < (trim (before ++ c :: after)).length := by
  have hafter : (trim after).length ≤ (trimEnd after).length := by
    rw [← trim_trimEnd]
    exact (trim_sublist (trimEnd after)).length_le
  rw [trim_append_cons before after hc, List.length_append, List.length_cons]
  omega

/-! ## Reading the two sides -/

theorem successor_of_readSides {side successor : List Char} {p : Float}
    {r : Rule Float} (hread : readSides side successor p = .ok r) :
    r.successor = trim successor := by
  obtain ⟨_, rfl, _⟩ := readSides_eq_ok_iff.mp hread
  rfl

variable {side : List Char}

theorem parse_append_singleArrow {tail : List Char}
    (hside : ¬arrow <:+: side) (hsingle : '→' ∉ side)
    (htail : ¬arrow <:+: tail) :
    parse (side ++ singleArrow ++ tail) =
      readSides side (splitWeight (trimEnd tail)).1
        (splitWeight (trimEnd tail)).2 := by
  have hapart : StandsApart '→' := standsApart_of_mem (by simp)
  have hweight := hapart.splitWeight_trim_append_cons side tail
  have hbody : ¬arrow <:+: (splitWeight (trimEnd tail)).1 := fun hoccurs =>
    htail (hoccurs.trans ((prefix_of_splitWeight _).trans
      (List.rdropWhile_prefix isBlank tail)).isInfix)
  have hnone : ¬arrow <:+:
      trimStart side ++ '→' :: (splitWeight (trimEnd tail)).1 := by
    rw [infix_append_cons_iff (by decide), not_or]
    exact ⟨not_infix_trimStart hside, hbody⟩
  have hstart : '→' ∉ trimStart side := fun hmem =>
    hsingle ((List.dropWhile_sublist isBlank).mem hmem)
  have harrow : splitArrow?
      (trimStart side ++ '→' :: (splitWeight (trimEnd tail)).1) =
        some (trimStart side, (splitWeight (trimEnd tail)).1) := by
    rw [splitArrow?, splitAtFirst?_eq_none hnone, singleArrow,
      splitAtFirst?_singleton_append _ hstart]
    rfl
  have hassoc : side ++ singleArrow ++ tail = side ++ '→' :: tail := by
    simp [singleArrow]
  rw [hassoc, parse_eq_readSides hweight harrow, readSides_trimStart]

/-! ## Exchanging the arrows -/

/-- A rule that is read from a longer text on the same side of a character is
another rule: its successor is longer. -/
theorem successor_length_lt {c : Char} (hc : StandsApart c)
    {side' before tail : List Char} {r r' : Rule Float}
    (hread : readSides side (splitWeight (trimEnd (before ++ c :: tail))).1
      (splitWeight (trimEnd (before ++ c :: tail))).2 = .ok r)
    (hread' : readSides side' (splitWeight (trimEnd tail)).1
      (splitWeight (trimEnd tail)).2 = .ok r') :
    r'.successor.length < r.successor.length := by
  have hweight : (splitWeight (trimEnd (before ++ c :: tail))).1 =
      before ++ c :: (splitWeight (trimEnd tail)).1 := by
    rw [trimEnd_append_cons _ _ hc.2.2.1, hc.splitWeight_append_cons]
  rw [successor_of_readSides hread, successor_of_readSides hread', hweight]
  exact length_trim_lt before _ hc.2.2.1

/-- The first arrow of two characters in what follows takes the place of an
arrow of one. -/
theorem parse_singleArrow_ne_of_infix {tail : List Char} {r : Rule Float}
    (hside : ¬arrow <:+: side) (htail : arrow <:+: tail)
    (hread : readSides side (splitWeight (trimEnd tail)).1
      (splitWeight (trimEnd tail)).2 = .ok r) :
    parse (side ++ singleArrow ++ tail) ≠ .ok r := by
  obtain ⟨before, after, rfl, hbefore⟩ :=
    exists_first_of_infix (by decide) htail
  have hfront : ¬arrow <:+: side ++ '→' :: before := by
    rw [infix_append_cons_iff (by decide), not_or]
    exact ⟨hside, hbefore⟩
  have htext : side ++ singleArrow ++ (before ++ arrow ++ after) =
      side ++ '→' :: before ++ arrow ++ after := by
    simp [singleArrow]
  have hparts : before ++ arrow ++ after =
      before ++ ['-'] ++ '>' :: after := by
    simp [arrow]
  intro hread'
  rw [htext, parse_append_arrow after hfront] at hread'
  rw [hparts] at hread
  exact Nat.lt_irrefl _
    (successor_length_lt (standsApart_of_mem (by simp)) hread hread')

/-- An earlier arrow of one character is found before a new one. -/
theorem parse_singleArrow_ne_of_mem {tail : List Char} {r : Rule Float}
    (hside : ¬arrow <:+: side) (hsingle : '→' ∈ side)
    (htail : ¬arrow <:+: tail)
    (hread : readSides side (splitWeight (trimEnd tail)).1
      (splitWeight (trimEnd tail)).2 = .ok r) :
    parse (side ++ singleArrow ++ tail) ≠ .ok r := by
  obtain ⟨before, between, rfl, hbefore⟩ :=
    List.eq_append_cons_of_mem hsingle
  obtain ⟨hfront, hbetween⟩ :=
    not_or.mp (mt (infix_append_cons_iff (by decide)).mpr hside)
  have hback : ¬arrow <:+: between ++ '→' :: tail := by
    rw [infix_append_cons_iff (by decide), not_or]
    exact ⟨hbetween, htail⟩
  have htext : before ++ '→' :: between ++ singleArrow ++ tail =
      before ++ singleArrow ++ (between ++ '→' :: tail) := by
    simp [singleArrow]
  intro hread'
  rw [htext, parse_append_singleArrow hfront hbefore hback] at hread'
  exact Nat.lt_irrefl _
    (successor_length_lt (standsApart_of_mem (by simp)) hread' hread)

/-- Writing the arrow of one character for the first arrow of two makes no
difference, to the rule or to the fault, if no other arrow of two follows it
and none of one precedes it.  Otherwise the two texts never give the same
rule. -/
theorem exchanged_arrow_alike_or_never {side tail : List Char}
    (hside : ¬arrow <:+: side) :
    (¬arrow <:+: tail → '→' ∉ side →
      parse (side ++ singleArrow ++ tail) = parse (side ++ arrow ++ tail)) ∧
    (arrow <:+: tail ∨ '→' ∈ side →
      ∀ r, parse (side ++ arrow ++ tail) = .ok r →
        parse (side ++ singleArrow ++ tail) ≠ .ok r) := by
  constructor
  · intro htail hsingle
    rw [parse_append_arrow tail hside,
      parse_append_singleArrow hside hsingle htail]
  · intro hother r hread
    rw [parse_append_arrow tail hside] at hread
    by_cases htail : arrow <:+: tail
    · exact parse_singleArrow_ne_of_infix hside htail hread
    · exact parse_singleArrow_ne_of_mem hside (hother.resolve_left htail)
        htail hread

theorem exchanged_arrow_alike_or_never_sample :
    let side := ['A', ' ']
    ¬arrow <:+: side ∧
      parse (side ++ singleArrow ++ [' ', 'B']) =
        parse (side ++ arrow ++ [' ', 'B']) ∧
      ∀ r, parse (side ++ arrow ++ [' ', 'B', '-', '>', 'C']) = .ok r →
        parse (side ++ singleArrow ++ [' ', 'B', '-', '>', 'C']) ≠ .ok r := by
  intro side
  have hside : ¬arrow <:+: side := by decide
  exact ⟨hside,
    (exchanged_arrow_alike_or_never hside).1 (by decide) (by decide),
    (exchanged_arrow_alike_or_never hside).2 (.inl (by decide))⟩

/-- An arrow in the successor is taken for the arrow of the rule, and the text
is rejected. -/
theorem not_every_arrow_exchangeable :
    ¬∀ side tail : List Char, ¬arrow <:+: side →
      ∀ r, parse (side ++ singleArrow ++ tail) = .ok r ↔
        parse (side ++ arrow ++ tail) = .ok r := by
  intro hall
  have haccepted : parse ['A', '-', '>', 'B', '-', '>', 'C'] =
      .ok (ofWords [] ['A'] [] ['B', '-', '>', 'C'] 1.0) := by
    rfl
  have hrejected : parse ['A', '→', 'B', '-', '>', 'C'] =
      .error (.invalid (.predecessorLength ['A', '→', 'B'])) := by
    rfl
  have hread := (hall ['A'] ['B', '-', '>', 'C'] (by decide) _).mpr haccepted
  exact nomatch hrejected.symm.trans hread

end TreeGrowth.Rule
