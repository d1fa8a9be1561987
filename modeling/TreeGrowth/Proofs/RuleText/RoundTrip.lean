import TreeGrowth.Proofs.RuleText.Spelling

/-!
# Rules that read back

A rule is written with marks between its words, and the words may hold the
same characters as the marks.  The rules whose words read back are those whose
written form still keeps its parts apart.  A rule of full weight is written
without a number, so there its successor must not end in one either; a smaller
weight reads back as the two places that are written of it.
-/

namespace TreeGrowth.Rule

open Text

/-- What the words of a rule have to be so that its written form keeps them
apart. -/
structure Legible (r : Rule Float) : Prop where
  visible : ∀ c ∈ r.leftContext ++ r.predecessor ++ r.rightContext,
    isBlank c = false
  bare_successor : Bare r.successor
  predecessor_ne : r.predecessor ≠ ['>']
  leftContext_ne : r.leftContext ≠ ['<']
  ne_of_leftContext_eq_nil : r.leftContext = [] →
    r.predecessor ≠ ['<'] ∧ r.rightContext ≠ ['<']

theorem eq_nil_or_eq_singleton {word : Word} (hlength : word.length ≤ 1) :
    word = [] ∨ ∃ c, word = [c] := by
  cases word with
  | nil => exact .inl rfl
  | cons c rest =>
      have hrest : rest = [] := by simpa using hlength
      exact .inr ⟨c, by rw [hrest]⟩

theorem bare_iff_of_length_le_one {word : Word} (hlength : word.length ≤ 1) :
    Bare word ↔ ∀ c ∈ word, isBlank c = false := by
  rcases eq_nil_or_eq_singleton hlength with rfl | ⟨c, rfl⟩
  · exact ⟨by simp, fun _ => ⟨by simp, by simp⟩⟩
  · simpa using bare_singleton_iff

theorem notMem_iff_of_length_le_one {word : Word} {c : Char}
    (hlength : word.length ≤ 1) : c ∉ word ↔ word ≠ [c] := by
  rcases eq_nil_or_eq_singleton hlength with rfl | ⟨d, rfl⟩
  · simp
  · simp [eq_comm]

theorem legible_iff {r : Rule Float} (hfault : r.fault? = none) :
    r.Legible ↔
      Separable r.leftContext r.predecessor r.rightContext ∧
        Bare r.successor := by
  obtain ⟨hlength, _, hleft, hright, _⟩ := fault?_eq_none_iff.mp hfault
  have hpredecessor : r.predecessor.length ≤ 1 := hlength.le
  constructor
  · intro hlegible
    have hvisible := hlegible.visible
    simp only [List.mem_append, or_imp, forall_and] at hvisible
    refine ⟨?_, hlegible.bare_successor⟩
    exact
      { bare_left := (bare_iff_of_length_le_one hleft).mpr hvisible.1.1
        bare_predecessor :=
          (bare_iff_of_length_le_one hpredecessor).mpr hvisible.1.2
        bare_right := (bare_iff_of_length_le_one hright).mpr hvisible.2
        notMem_left :=
          (notMem_iff_of_length_le_one hleft).mpr hlegible.leftContext_ne
        notMem_predecessor := (notMem_iff_of_length_le_one hpredecessor).mpr
          hlegible.predecessor_ne
        notMem_of_nil := fun hnil =>
          ⟨(notMem_iff_of_length_le_one hpredecessor).mpr
              (hlegible.ne_of_leftContext_eq_nil hnil).1,
            (notMem_iff_of_length_le_one hright).mpr
              (hlegible.ne_of_leftContext_eq_nil hnil).2⟩ }
  · rintro ⟨hseparable, hsuccessor⟩
    refine ⟨?_, hsuccessor, ?_, ?_, ?_⟩
    · simp only [List.mem_append, or_imp, forall_and]
      exact ⟨⟨(bare_iff_of_length_le_one hleft).mp hseparable.bare_left,
        (bare_iff_of_length_le_one hpredecessor).mp
          hseparable.bare_predecessor⟩,
        (bare_iff_of_length_le_one hright).mp hseparable.bare_right⟩
    · exact (notMem_iff_of_length_le_one hpredecessor).mp
        hseparable.notMem_predecessor
    · exact (notMem_iff_of_length_le_one hleft).mp hseparable.notMem_left
    · intro hnil
      obtain ⟨hopen, hopenRight⟩ := hseparable.notMem_of_nil hnil
      exact ⟨(notMem_iff_of_length_le_one hpredecessor).mp hopen,
        (notMem_iff_of_length_le_one hright).mp hopenRight⟩

/-! ## The side before the arrow -/

def sideText (left predecessor right : Word) : List Char :=
  leftText left ++ predecessor ++ rightText right ++ [' ']

theorem render_eq (r : Rule Float) :
    r.render =
      sideText r.leftContext r.predecessor r.rightContext ++ arrow ++
        ([' '] ++ r.successor ++ weightText r.probability) := by
  simp [render, sideText, arrow]

section Side

variable {left predecessor right : Word}

theorem sidePart_sideText (hleft : left.length ≤ 1)
    (hpredecessor : predecessor.length = 1) (hright : right.length ≤ 1) :
    SidePart left predecessor right (sideText left predecessor right) := by
  have hfront : LeftPart left (leftText left) := by
    cases left with
    | nil => exact .absent
    | cons c rest =>
        simpa [leftText] using LeftPart.present hleft allBlank_space
          allBlank_space
  have hback : ∃ back, RightPart right back ∧
      rightText right ++ [' '] = [' '] ++ back := by
    cases right with
    | nil => exact ⟨[], .absent, rfl⟩
    | cons c rest =>
        exact ⟨_, .present hright allBlank_space allBlank_space,
          by simp [rightText]⟩
  obtain ⟨back, hback, htext⟩ := hback
  have hside := SidePart.parts allBlank_nil hfront hpredecessor
    allBlank_space hback
  rw [sideText, List.append_assoc, htext]
  simpa using hside

theorem not_arrow_infix_sideText (hleft : left.length ≤ 1)
    (hpredecessor : predecessor.length = 1) (hright : right.length ≤ 1) :
    ¬arrow <:+: sideText left predecessor right := by
  obtain ⟨c, rfl⟩ := List.length_eq_one_iff.mp hpredecessor
  rcases eq_nil_or_eq_singleton hleft with rfl | ⟨l, rfl⟩ <;>
    rcases eq_nil_or_eq_singleton hright with rfl | ⟨r, rfl⟩ <;>
    simp [arrow, sideText, leftText, rightText, List.infix_cons_iff]

theorem splitRight_bare (text : List Char) :
    Bare (splitRight text).1 ∧ Bare (splitRight text).2 ∧
      '>' ∉ (splitRight text).1 := by
  rcases splitAtFirst?_singleton_cases '>' text with
    ⟨hnone, hsplit⟩ | ⟨before, after, hbefore, _, hsplit⟩ <;>
    simp only [splitRight, hsplit]
  · exact ⟨bare_trim text, ⟨by simp, by simp⟩,
      fun hmem => hnone ((trim_sublist text).mem hmem)⟩
  · exact ⟨bare_trim before, bare_trim after,
      fun hmem => hbefore ((trim_sublist before).mem hmem)⟩

theorem splitContexts_bare {side : List Char}
    (hsplit : splitContexts (trim side) = (left, predecessor, right)) :
    Bare left ∧ Bare predecessor ∧ Bare right ∧ '<' ∉ left ∧
      '>' ∉ predecessor := by
  rw [splitContexts_trim] at hsplit
  rcases splitAtFirst?_singleton_cases '<' side with
    ⟨_, hmark⟩ | ⟨before, after, hbefore, _, hmark⟩ <;>
    rw [hmark] at hsplit <;>
    obtain ⟨rfl, hparts⟩ := Prod.mk.inj hsplit
  · obtain ⟨hpredecessor, hright, hclose⟩ := splitRight_bare side
    rw [hparts] at hpredecessor hright hclose
    exact ⟨⟨by simp, by simp⟩, hpredecessor, hright, by simp, hclose⟩
  · obtain ⟨hpredecessor, hright, hclose⟩ := splitRight_bare after
    rw [hparts] at hpredecessor hright hclose
    exact ⟨bare_trim before, hpredecessor, hright,
      fun hmem => hbefore ((trim_sublist before).mem hmem), hclose⟩

theorem splitRight_rightText (right : Word) :
    (splitRight (rightText right ++ [' '])).1 = [] := by
  cases right with
  | nil => decide
  | cons c rest =>
      have hmark : '>' ∉ [' '] := by decide
      have hsplit := splitAtFirst?_singleton_append
        (' ' :: c :: rest ++ [' ']) hmark
      have htext : rightText (c :: rest) ++ [' '] =
          [' '] ++ '>' :: (' ' :: c :: rest ++ [' ']) := by
        simp [rightText]
      rw [htext, splitRight, hsplit]
      change trim [' '] = []
      decide

/-- Without a left context there can be no mark of one: the first would have
to be the predecessor itself, and leave none behind it. -/
theorem notMem_sideText {c : Char} (hc : isBlank c = false)
    (hsplit : splitContexts (trim (sideText [] [c] right)) =
      ([], [c], right)) : '<' ∉ sideText [] [c] right := by
  have hside : sideText [] [c] right = c :: (rightText right ++ [' ']) := by
    simp [sideText, leftText]
  rw [splitContexts_trim, hside] at hsplit
  rw [hside]
  rcases splitAtFirst?_singleton_cases '<'
    (c :: (rightText right ++ [' '])) with
    ⟨hnone, _⟩ | ⟨before, after, _, htext, hmark⟩
  · exact hnone
  · rw [hmark] at hsplit
    obtain ⟨hbefore, hparts⟩ := Prod.mk.inj hsplit
    cases before with
    | nil =>
        obtain ⟨rfl, hafter⟩ := List.cons.inj htext
        have hnil := splitRight_rightText right
        rw [hafter, hparts] at hnil
        simp at hnil
    | cons d before =>
        obtain ⟨rfl, _⟩ := List.cons.inj htext
        have hcut : trim (c :: before) = c :: trimEnd before :=
          trim_append_cons [] before hc
        rw [hcut] at hbefore
        simp at hbefore

/-- The words before the arrow read back exactly if they can be told apart. -/
theorem splitContexts_sideText_iff (hleft : left.length ≤ 1)
    (hpredecessor : predecessor.length = 1) (hright : right.length ≤ 1) :
    splitContexts (trim (sideText left predecessor right)) =
        (left, predecessor, right) ↔
      Separable left predecessor right := by
  constructor
  · intro hsplit
    obtain ⟨hbareLeft, hbarePredecessor, hbareRight, hopen, hclose⟩ :=
      splitContexts_bare hsplit
    refine ⟨hbareLeft, hbarePredecessor, hbareRight, hopen, hclose, ?_⟩
    rintro rfl
    obtain ⟨c, rfl⟩ := List.length_eq_one_iff.mp hpredecessor
    have hc : isBlank c = false := bare_singleton_iff.mp hbarePredecessor
    have hnone := notMem_sideText hc hsplit
    simp only [sideText, List.mem_append, not_or] at hnone
    refine ⟨hnone.1.1.2, fun hmem => hnone.1.2 ?_⟩
    cases right with
    | nil => simp at hmem
    | cons d rest => simp [rightText, List.mem_cons.mp hmem]
  · exact (sidePart_sideText hleft hpredecessor hright).splitContexts_eq

end Side

/-!
## The text behind the arrow

Without a weight of its own, a successor that ends in a number loses it: the
number is taken for the weight.  A weight that is written shields it.
-/

theorem splitWeight_full {successor : Word} (hne : successor ≠ [])
    (hbare : Bare successor) (hend : ¬EndsInNumber successor) :
    splitWeight (trimEnd ([' '] ++ successor)) =
      ([' '] ++ successor, 1.0) := by
  have hsplit := WeightPart.absent.splitWeight_eq allBlank_space hne hbare
    allBlank_nil fun _ => hend
  rw [List.append_nil, List.append_nil] at hsplit
  exact hsplit

theorem bare_of_splitWeight_full {successor : Word} (hne : successor ≠ [])
    (hread : trim (splitWeight (trimEnd ([' '] ++ successor))).1 =
      successor) : Bare successor ∧ ¬EndsInNumber successor := by
  have hbare : Bare successor := hread ▸ bare_trim _
  refine ⟨hbare, ?_⟩
  rintro ⟨before, inner, heq, hinner, hsome⟩
  obtain ⟨x, hx⟩ := Option.isSome_iff_exists.mp hsome
  have hend := hbare.trimEnd_append_append hne [' '] allBlank_nil
  have hassoc : [' '] ++ successor =
      [' '] ++ before ++ '(' :: inner ++ [')'] := by
    rw [heq]
    simp
  rw [List.append_nil] at hend
  -- What is left without the number is too short to be the successor.
  rw [hend, hassoc, splitWeight_append _ hinner hx, trim_trimEnd] at hread
  have hshort := (trim_sublist ([' '] ++ before)).length_le
  rw [hread, heq] at hshort
  simp only [List.length_append, List.length_cons, List.length_nil] at hshort
  omega

theorem exists_splitWeight_partial {p : Float} (successor : Word)
    (hfinite : Scalar.isFinite p = true) (hnonneg : ¬p < 0.0)
    (hpartial : p < 1.0) :
    ∃ body q, splitWeight (trimEnd ([' '] ++ successor ++ weightText p)) =
        (body, q) ∧
      trim body = trim successor ∧
      Decimal.readDecimal? (Decimal.fixed 2 p) = some q ∧
      Scalar.isFinite q = true ∧ boundedProbability q = q := by
  obtain ⟨negative, n, hn, hsign, htext⟩ :=
    Decimal.exists_fixed_two hfinite hnonneg hpartial
  obtain ⟨q, hread, hq, hbounded⟩ :=
    Decimal.readDecimal?_hundredths negative hn hsign
  rw [← htext] at hread
  have hsplit := splitWeight_append ([' '] ++ successor ++ [' '])
    (unbracketed_of_readDecimal? hread) (Decimal.readDecimal?_trim hread)
  have hwhole : trimEnd ([' '] ++ successor ++ weightText p) =
      [' '] ++ successor ++ [' '] ++ '(' :: Decimal.fixed 2 p ++ [')'] := by
    have hclosed := trimEnd_append_cons
      ([' '] ++ successor ++ [' '] ++ '(' :: Decimal.fixed 2 p) []
      (c := ')') (by decide)
    have hnil : trimEnd [] = [] := rfl
    rw [weightText, if_pos hpartial]
    simpa [hnil] using hclosed
  refine ⟨_, q, hwhole ▸ hsplit, ?_, hread, hq, hbounded⟩
  rw [trim_trimEnd, trim_append successor allBlank_space allBlank_space]

/-! ## The whole rule -/

theorem parse_render_eq_ok_iff {r s : Rule Float} (hfault : r.fault? = none) :
    parse r.render = .ok s ↔
      ∃ body q,
        splitWeight (trimEnd ([' '] ++ r.successor ++
          weightText r.probability)) = (body, q) ∧
        trim body ≠ [] ∧
        s = ofWords
          (splitContexts (trim (sideText r.leftContext r.predecessor
            r.rightContext))).1
          (splitContexts (trim (sideText r.leftContext r.predecessor
            r.rightContext))).2.1
          (splitContexts (trim (sideText r.leftContext r.predecessor
            r.rightContext))).2.2
          (trim body) q ∧
        s.fault? = none := by
  obtain ⟨hpredecessor, _, hleft, hright, _⟩ := fault?_eq_none_iff.mp hfault
  rw [render_eq, parse_append_arrow_eq_ok_iff
    (not_arrow_infix_sideText hleft hpredecessor hright)]

section Words

variable {r s : Rule Float} {body : List Char} {q : Float}

theorem separable_of_parse_render (hfault : r.fault? = none)
    (hparse : parse r.render = .ok s)
    (hleftEq : s.leftContext = r.leftContext)
    (hpredecessorEq : s.predecessor = r.predecessor)
    (hrightEq : s.rightContext = r.rightContext)
    (hsuccessorEq : s.successor = r.successor) :
    Separable r.leftContext r.predecessor r.rightContext ∧
      trim (splitWeight (trimEnd ([' '] ++ r.successor ++
        weightText r.probability))).1 = r.successor := by
  obtain ⟨hpredecessor, _, hleft, hright, _⟩ := fault?_eq_none_iff.mp hfault
  obtain ⟨body, q, hweight, _, rfl, _⟩ :=
    (parse_render_eq_ok_iff hfault).mp hparse
  rw [← splitContexts_sideText_iff hleft hpredecessor hright, hweight]
  exact ⟨Prod.ext hleftEq (Prod.ext hpredecessorEq hrightEq), hsuccessorEq⟩

theorem parse_render_of_separable (hfault : r.fault? = none)
    (hseparable : Separable r.leftContext r.predecessor r.rightContext)
    (hweight : splitWeight (trimEnd ([' '] ++ r.successor ++
      weightText r.probability)) = (body, q))
    (hsuccessor : trim body = r.successor)
    (hq : Scalar.isFinite q = true) :
    parse r.render = .ok (ofWords r.leftContext r.predecessor r.rightContext
      r.successor q) := by
  obtain ⟨hpredecessor, hne, hleft, hright, _⟩ :=
    fault?_eq_none_iff.mp hfault
  have hcontexts :=
    (splitContexts_sideText_iff hleft hpredecessor hright).mpr hseparable
  rw [parse_render_eq_ok_iff hfault]
  refine ⟨body, q, hweight, ?_, ?_, ?_⟩
  · rw [hsuccessor]
    exact hne
  · rw [hcontexts, hsuccessor]
  · rw [fault?_eq_none_iff]
    exact ⟨hpredecessor, hne, hleft, hright, isFinite_boundedProbability hq⟩

end Words

theorem parse_render_full_iff {r : Rule Float} (hfault : r.fault? = none)
    (hfull : r.probability = 1.0) :
    parse r.render = .ok r ↔ r.Legible ∧ ¬EndsInNumber r.successor := by
  obtain ⟨_, hne, _⟩ := fault?_eq_none_iff.mp hfault
  have hnone : weightText r.probability = [] := by
    rw [hfull]
    decide +kernel
  rw [legible_iff hfault]
  constructor
  · intro hparse
    obtain ⟨hseparable, hread⟩ :=
      separable_of_parse_render hfault hparse rfl rfl rfl rfl
    rw [hnone, List.append_nil] at hread
    obtain ⟨hbare, hend⟩ := bare_of_splitWeight_full hne hread
    exact ⟨⟨hseparable, hbare⟩, hend⟩
  · rintro ⟨⟨hseparable, hbare⟩, hend⟩
    have hweight := splitWeight_full hne hbare hend
    have hbounded : boundedProbability (1.0 : Float) = 1.0 := by
      decide +kernel
    rw [parse_render_of_separable hfault hseparable
      (by rw [hnone, List.append_nil, hweight])
      (by rw [trim_append_left _ allBlank_space, hbare.trim_eq])
      (by decide +kernel), ofWords, hbounded, ← hfull]

/-- Which rules read back.  A rule of full weight is read back as itself
exactly if its words can be told apart in its written form and its successor
does not end in a number in parentheses, which may be padded.  Of a rule of a
smaller weight the words are read back exactly if they can be told apart, and
the weight is the value of the two decimal places that are written. -/
theorem parse_render (left predecessor right successor : Word) (p : Float)
    (hvalid : (ofWords left predecessor right successor p).isValid = true) :
    let r := ofWords left predecessor right successor p
    (r.probability = 1.0 →
      (parse r.render = .ok r ↔ r.Legible ∧ ¬EndsInNumber r.successor)) ∧
    (r.probability < 1.0 →
      ((∃ s, parse r.render = .ok s ∧ s.leftContext = r.leftContext ∧
          s.predecessor = r.predecessor ∧ s.rightContext = r.rightContext ∧
          s.successor = r.successor) ↔ r.Legible) ∧
      ∀ s, parse r.render = .ok s →
        Decimal.readDecimal? (Decimal.fixed 2 r.probability) =
          some s.probability) := by
  intro r
  have hfault : r.fault? = none := Option.isNone_iff_eq_none.mp hvalid
  obtain ⟨_, _, _, _, hfinite⟩ := fault?_eq_none_iff.mp hfault
  refine ⟨parse_render_full_iff hfault, fun hpartial => ?_⟩
  have hnonneg : ¬r.probability < 0.0 :=
    not_boundedProbability_lt_zero (isFinite_of_boundedProbability hfinite)
  obtain ⟨body, q, hweight, hbody, hread, hq, hbounded⟩ :=
    exists_splitWeight_partial r.successor hfinite hnonneg hpartial
  refine ⟨?_, ?_⟩
  · rw [legible_iff hfault]
    constructor
    · rintro ⟨s, hparse, hleft, hpredecessor, hright, hsuccessor⟩
      obtain ⟨hseparable, hword⟩ := separable_of_parse_render hfault hparse
        hleft hpredecessor hright hsuccessor
      rw [hweight, hbody] at hword
      exact ⟨hseparable, trim_eq_self_iff.mp hword⟩
    · rintro ⟨hseparable, hbare⟩
      exact ⟨_, parse_render_of_separable hfault hseparable hweight
        (hbody.trans hbare.trim_eq) hq, rfl, rfl, rfl, rfl⟩
  · intro s hparse
    obtain ⟨_, _, hsplit, _, rfl, _⟩ :=
      (parse_render_eq_ok_iff hfault).mp hparse
    obtain ⟨_, rfl⟩ := Prod.mk.inj (hweight.symm.trans hsplit)
    rw [hread]
    exact congrArg some hbounded.symm

theorem parse_render_sample :
    let full := ofWords ['A'] ['F'] ['-'] ['F', 'F'] (1.0 : Float)
    let rare := ofWords [] ['F'] [] ['F'] (0.125 : Float)
    full.isValid = true ∧ full.probability = 1.0 ∧
      parse full.render = .ok full ∧
      rare.isValid = true ∧ rare.probability < 1.0 ∧
      ∃ s, parse rare.render = .ok s ∧ s.successor = ['F'] ∧
        Decimal.readDecimal? ['0', '.', '1', '2'] = some s.probability := by
  intro full rare
  have hfullValid : full.isValid = true := by decide +kernel
  have hfull : full.probability = 1.0 := by decide +kernel
  have hrareValid : rare.isValid = true := by decide +kernel
  have hrare : rare.probability < 1.0 := by decide +kernel
  have htext : Decimal.fixed 2 rare.probability = ['0', '.', '1', '2'] := by
    decide +kernel
  have hend : ¬EndsInNumber ['F', 'F'] := by
    rintro ⟨before, inner, heq, _⟩
    have hclose : ')' ∈ ['F', 'F'] := by
      rw [heq]
      simp
    simp at hclose
  have hfullLegible : full.Legible := by
    refine ⟨?_, ⟨?_, ?_⟩, ?_, ?_, ?_⟩ <;> simp [full, ofWords] <;> decide
  have hrareLegible : rare.Legible := by
    refine ⟨?_, ⟨?_, ?_⟩, ?_, ?_, ?_⟩ <;> simp [rare, ofWords] <;> decide
  have hread := (parse_render ['A'] ['F'] ['-'] ['F', 'F'] 1.0 hfullValid).1
  obtain ⟨hwords, hweight⟩ :=
    (parse_render [] ['F'] [] ['F'] 0.125 hrareValid).2 hrare
  obtain ⟨s, hparse, _, _, _, hsuccessor⟩ := hwords.mpr hrareLegible
  rw [htext] at hweight
  exact ⟨hfullValid, hfull, (hread hfull).mpr ⟨hfullLegible, hend⟩,
    hrareValid, hrare, s, hparse, hsuccessor, hweight s hparse⟩

end TreeGrowth.Rule
