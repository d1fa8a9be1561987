import TreeGrowth.Proofs.Decimal.Hundredths
import TreeGrowth.Proofs.RuleText.Marks

/-!
# Spellings of a rule

A rule text is a sequence of parts with any padding between them: an optional
left context, the predecessor, an optional right context, an arrow, the
successor and an optional weight.  Reading recognizes these texts: what it
accepts is a spelling of the rule that it returns, and every spelling without
marks among the symbols of its left side is accepted, however it is padded.
-/

namespace TreeGrowth.Rule

open Text

/-! ## Reading in one piece -/

/-- The parts of a text around its arrow; the arrow of two characters is
sought first. -/
def splitArrow? (text : List Char) : Option (List Char × List Char) :=
  (splitAtFirst? arrow text).orElse fun _ => splitAtFirst? singleArrow text

theorem splitArrow?_append {side : List Char} (successor : List Char)
    (hside : ¬arrow <:+: side) :
    splitArrow? (side ++ arrow ++ successor) = some (side, successor) := by
  rw [splitArrow?, arrow,
    splitAtFirst?_append successor (by decide) hside]
  rfl

theorem exists_mark_of_splitArrow? {text side successor : List Char}
    (hsplit : splitArrow? text = some (side, successor)) :
    ∃ mark ∈ [arrow, singleArrow], text = side ++ mark ++ successor := by
  unfold splitArrow? at hsplit
  cases hdouble : splitAtFirst? arrow text with
  | some parts =>
      rw [hdouble] at hsplit
      obtain rfl := Option.some.inj hsplit
      exact ⟨arrow, by simp, eq_append_of_splitAtFirst? hdouble⟩
  | none =>
      rw [hdouble] at hsplit
      exact ⟨singleArrow, by simp, eq_append_of_splitAtFirst? hsplit⟩

/-- The rule of the two sides of an arrow and a weight. -/
def readSides (side successor : List Char) (p : Float) :
    Except RuleTextError (Rule Float) :=
  if (trim successor).isEmpty then .error .noSuccessor
  else
    let (left, predecessor, right) := splitContexts (trim side)
    let rule := ofWords left predecessor right (trim successor) p
    match rule.fault? with
    | some fault => .error (.invalid fault)
    | none => .ok rule

theorem readSides_eq_ok_iff {side successor : List Char} {p : Float}
    {r : Rule Float} :
    readSides side successor p = .ok r ↔
      trim successor ≠ [] ∧
        r = ofWords (splitContexts (trim side)).1
          (splitContexts (trim side)).2.1 (splitContexts (trim side)).2.2
          (trim successor) p ∧
        r.fault? = none := by
  unfold readSides
  by_cases hsuccessor : trim successor = []
  · simp [hsuccessor]
  · rw [if_neg (by simpa using hsuccessor)]
    simp only
    constructor
    · intro hread
      split at hread
      next => simp at hread
      next hfault =>
        obtain rfl := Except.ok.inj hread
        exact ⟨hsuccessor, rfl, hfault⟩
    · rintro ⟨_, rfl, hfault⟩
      simp only [hfault]

theorem readSides_trimStart (side successor : List Char) (p : Float) :
    readSides (trimStart side) successor p = readSides side successor p := by
  rw [readSides, trim_trimStart, readSides]

theorem parse_eq (text : List Char) :
    parse text =
      if (trim text).isEmpty then .error .empty
      else
        match splitArrow? (splitWeight (trim text)).1 with
        | none => .error .noArrow
        | some (side, successor) =>
            readSides side successor (splitWeight (trim text)).2 :=
  rfl

theorem parse_eq_readSides {text body side successor : List Char} {p : Float}
    (hweight : splitWeight (trim text) = (body, p))
    (harrow : splitArrow? body = some (side, successor)) :
    parse text = readSides side successor p := by
  have htext : ¬(trim text).isEmpty = true := by
    intro hempty
    have hnone : splitArrow? ([] : List Char) = none := rfl
    have hbody : body = [] := by
      rw [List.isEmpty_iff.mp hempty] at hweight
      exact (congrArg Prod.fst hweight).symm
    simp [hbody, hnone] at harrow
  rw [parse_eq, if_neg htext, hweight]
  simp only [harrow]

theorem parse_eq_ok_iff {text : List Char} {r : Rule Float} :
    parse text = .ok r ↔
      ∃ body p side successor,
        splitWeight (trim text) = (body, p) ∧
        splitArrow? body = some (side, successor) ∧
        trim successor ≠ [] ∧
        r = ofWords (splitContexts (trim side)).1
          (splitContexts (trim side)).2.1 (splitContexts (trim side)).2.2
          (trim successor) p ∧
        r.fault? = none := by
  constructor
  · intro hparse
    cases harrow : splitArrow? (splitWeight (trim text)).1 with
    | none =>
        rw [parse_eq, harrow] at hparse
        split at hparse <;> simp at hparse
    | some parts =>
        rw [parse_eq_readSides rfl harrow, readSides_eq_ok_iff] at hparse
        exact ⟨_, _, _, _, rfl, harrow, hparse⟩
  · rintro ⟨body, p, side, successor, hweight, harrow, hread⟩
    rw [parse_eq_readSides hweight harrow]
    exact readSides_eq_ok_iff.mpr hread

theorem fault?_eq_none_iff {r : Rule Float} :
    r.fault? = none ↔
      r.predecessor.length = 1 ∧ r.successor ≠ [] ∧
        r.leftContext.length ≤ 1 ∧ r.rightContext.length ≤ 1 ∧
        Scalar.isFinite r.probability = true := by
  unfold fault?
  split_ifs <;> simp_all

theorem splitWeight_trim_append_arrow (side tail : List Char) :
    splitWeight (trim (side ++ arrow ++ tail)) =
      (trimStart side ++ arrow ++ (splitWeight (trimEnd tail)).1,
        (splitWeight (trimEnd tail)).2) := by
  have hstart : trimStart (side ++ ['-']) = trimStart side ++ ['-'] :=
    dropWhile_append_cons side [] (by decide)
  have hhead : StandsApart '>' := standsApart_of_mem (by simp)
  have hparts := hhead.splitWeight_trim_append_cons (side ++ ['-']) tail
  rw [hstart] at hparts
  simpa [arrow] using hparts

theorem not_infix_trimStart {mark side : List Char}
    (hside : ¬mark <:+: side) : ¬mark <:+: trimStart side :=
  fun hoccurs => hside (hoccurs.trans (List.dropWhile_suffix isBlank).isInfix)

/-- Around an arrow that is not preceded by another one, the two sides are
read by themselves. -/
theorem parse_append_arrow {side : List Char} (tail : List Char)
    (hside : ¬arrow <:+: side) :
    parse (side ++ arrow ++ tail) =
      readSides side (splitWeight (trimEnd tail)).1
        (splitWeight (trimEnd tail)).2 := by
  rw [parse_eq_readSides (splitWeight_trim_append_arrow side tail)
    (splitArrow?_append _ (not_infix_trimStart hside)), readSides_trimStart]

theorem parse_append_arrow_eq_ok_iff {side tail : List Char} {r : Rule Float}
    (hside : ¬arrow <:+: side) :
    parse (side ++ arrow ++ tail) = .ok r ↔
      ∃ body p, splitWeight (trimEnd tail) = (body, p) ∧
        trim body ≠ [] ∧
        r = ofWords (splitContexts (trim side)).1
          (splitContexts (trim side)).2.1 (splitContexts (trim side)).2.2
          (trim body) p ∧
        r.fault? = none := by
  rw [parse_append_arrow tail hside, readSides_eq_ok_iff]
  constructor
  · exact fun hread => ⟨_, _, rfl, hread⟩
  · rintro ⟨body, p, hweight, hread⟩
    rw [hweight]
    exact hread

/-- The predecessor and the right context in what stands behind a left
context. -/
def splitRight (text : List Char) : Word × Word :=
  match splitAtFirst? ['>'] text with
  | some (predecessor, right) => (trim predecessor, trim right)
  | none => (trim text, [])

theorem splitRight_trim (text : List Char) :
    splitRight (trim text) = splitRight text := by
  unfold splitRight
  rw [splitAtFirst?_trim (by decide)]
  cases splitAtFirst? ['>'] text with
  | none => simp [(bare_trim text).trim_eq]
  | some parts => simp [trim_trimStart, trim_trimEnd]

theorem splitContexts_trim (side : List Char) :
    splitContexts (trim side) =
      match splitAtFirst? ['<'] side with
      | some (left, rest) => (trim left, splitRight rest)
      | none => ([], splitRight side) := by
  have hright : ∀ left rest : List Char,
      (match splitAtFirst? ['>'] (trim rest) with
        | some (predecessor, right) => (left, trim predecessor, trim right)
        | none => (left, trim rest, [])) = (left, splitRight rest) := by
    intro left rest
    rw [← splitRight_trim, splitRight, (bare_trim rest).trim_eq]
    cases splitAtFirst? ['>'] (trim rest) <;> rfl
  unfold splitContexts
  rw [splitAtFirst?_trim (by decide)]
  cases splitAtFirst? ['<'] side with
  | none => exact hright [] side
  | some parts =>
      simp only [Option.map_some, trim_trimStart, trim_trimEnd]
      exact hright (trim parts.1) parts.2

/-!
## The parts of a rule text

Each part comes with the mark that belongs to it.  The contexts and the weight
may be missing, and a context that is there may still be empty.
-/

inductive LeftPart : Word → List Char → Prop
  | absent : LeftPart [] []
  | present {left blanks blanks' : List Char} (hlength : left.length ≤ 1)
      (hblanks : AllBlank blanks) (hblanks' : AllBlank blanks') :
      LeftPart left (left ++ blanks ++ '<' :: blanks')

inductive RightPart : Word → List Char → Prop
  | absent : RightPart [] []
  | present {right blanks blanks' : List Char} (hlength : right.length ≤ 1)
      (hblanks : AllBlank blanks) (hblanks' : AllBlank blanks') :
      RightPart right ('>' :: (blanks ++ right ++ blanks'))

inductive SidePart (left predecessor right : Word) : List Char → Prop
  | parts {before front between back : List Char}
      (hbefore : AllBlank before) (hleft : LeftPart left front)
      (hpredecessor : predecessor.length = 1) (hbetween : AllBlank between)
      (hright : RightPart right back) :
      SidePart left predecessor right
        (before ++ front ++ predecessor ++ between ++ back)

inductive WeightPart : Option Float → List Char → Prop
  | absent : WeightPart none []
  | present {number blanks blanks' after : List Char} {x : Float}
      (hnumber : Decimal.readDecimal? number = some x)
      (hblanks : AllBlank blanks) (hblanks' : AllBlank blanks')
      (hafter : AllBlank after) :
      WeightPart (some x)
        ('(' :: (blanks ++ number ++ blanks') ++ ')' :: after)

/-- A text with the parts of a rule in order and padding between them. -/
inductive Spelling (mark : List Char) (left predecessor right successor : Word)
    (weight? : Option Float) : List Char → Prop
  | parts {side before after back : List Char}
      (hside : SidePart left predecessor right side)
      (hbefore : AllBlank before) (hne : successor ≠ [])
      (hsuccessor : Bare successor) (hafter : AllBlank after)
      (hweight : WeightPart weight? back) :
      Spelling mark left predecessor right successor weight?
        (side ++ mark ++ before ++ successor ++ after ++ back)

/-- The weight that a rule text gives: brought into its bounds, and full if
there is none. -/
def givenWeight (weight? : Option Float) : Float :=
  weight?.elim 1.0 (Scalar.clamp 0.0 1.0)

/-! ## What is read is a spelling -/

theorem splitRight_spelling (text : List Char)
    (hlength : (splitRight text).2.length ≤ 1) :
    ∃ before between back, AllBlank before ∧ AllBlank between ∧
      RightPart (splitRight text).2 back ∧
      text = before ++ (splitRight text).1 ++ between ++ back := by
  rcases splitAtFirst?_singleton_cases '>' text with
    ⟨_, hsplit⟩ | ⟨predecessor, right, _, htext, hsplit⟩
  · obtain ⟨before, between, hbefore, hbetween, htrim⟩ := exists_trim text
    refine ⟨before, between, [], hbefore, hbetween, ?_, ?_⟩
    · simp only [splitRight, hsplit]
      exact .absent
    · simpa [splitRight, hsplit] using htrim
  · obtain ⟨before, between, hbefore, hbetween, hpredecessor⟩ :=
      exists_trim predecessor
    obtain ⟨blanks, blanks', hblanks, hblanks', hright⟩ := exists_trim right
    simp only [splitRight, hsplit] at hlength ⊢
    refine ⟨before, between, _, hbefore, hbetween,
      .present hlength hblanks hblanks', ?_⟩
    rw [← hright, ← hpredecessor]
    exact htext

theorem splitContexts_spelling {side left predecessor right : List Char}
    (hsplit : splitContexts (trim side) = (left, predecessor, right))
    (hleft : left.length ≤ 1) (hpredecessor : predecessor.length = 1)
    (hright : right.length ≤ 1) : SidePart left predecessor right side := by
  rw [splitContexts_trim] at hsplit
  rcases splitAtFirst?_singleton_cases '<' side with
    ⟨_, hmark⟩ | ⟨context, rest, _, rfl, hmark⟩
  · rw [hmark] at hsplit
    obtain ⟨rfl, hparts⟩ := Prod.mk.inj hsplit
    obtain ⟨before, between, back, hbefore, hbetween, hback, hside⟩ :=
      splitRight_spelling side (by rw [hparts]; exact hright)
    rw [hparts] at hback hside
    rw [hside]
    simpa using SidePart.parts hbefore .absent hpredecessor hbetween hback
  · rw [hmark] at hsplit
    obtain ⟨rfl, hparts⟩ := Prod.mk.inj hsplit
    obtain ⟨blanks', between, back, hblanks', hbetween, hback, hrest⟩ :=
      splitRight_spelling rest (by rw [hparts]; exact hright)
    obtain ⟨before, blanks, hbefore, hblanks, hcontext⟩ := exists_trim context
    rw [hparts] at hback hrest
    have hwhole := SidePart.parts hbefore (.present hleft hblanks hblanks')
      hpredecessor hbetween hback
    rw [hrest]
    conv_rhs => rw [hcontext]
    simpa using hwhole

theorem givenWeight_eq_boundedProbability (weight? : Option Float)
    (hfinite : ∀ x ∈ weight?, Scalar.isFinite x = true) :
    givenWeight weight? = boundedProbability (weight?.getD 1.0) := by
  cases weight? with
  | none =>
      change (1.0 : Float) = boundedProbability 1.0
      decide +kernel
  | some x => exact (if_pos (hfinite x rfl)).symm

theorem spelling_of_parse {text : List Char} {r : Rule Float}
    (hparse : parse text = .ok r) :
    ∃ mark ∈ [arrow, singleArrow], ∃ weight?,
      Spelling mark r.leftContext r.predecessor r.rightContext r.successor
        weight? text ∧
      (∀ x ∈ weight?, Scalar.isFinite x = true) ∧
      r.probability = givenWeight weight? := by
  obtain ⟨body, p, side, rest, hweight, harrow, hne, rfl, hfault⟩ :=
    parse_eq_ok_iff.mp hparse
  obtain ⟨hpredecessor, _, hleft, hright, hfinite⟩ :=
    fault?_eq_none_iff.mp hfault
  replace hfinite := isFinite_of_boundedProbability hfinite
  obtain ⟨mark, hmark, rfl⟩ := exists_mark_of_splitArrow? harrow
  obtain ⟨before, after, hbefore, hafter, htext⟩ := exists_trim text
  obtain ⟨before', after', hbefore', hafter', hrest⟩ := exists_trim rest
  have hside : SidePart (splitContexts (trim side)).1
      (splitContexts (trim side)).2.1 (splitContexts (trim side)).2.2
      (before ++ side) := by
    refine splitContexts_spelling ?_ hleft hpredecessor hright
    rw [trim_append_left side hbefore]
  refine ⟨mark, hmark, ?_⟩
  simp only [ofWords]
  rcases splitWeight_cases (trim text) with
    ⟨_, hwhole⟩ | ⟨front, inner, x, hnumber, _, hread, hsplit⟩
  · obtain ⟨hbody, rfl⟩ := Prod.mk.inj (hwhole.symm.trans hweight)
    refine ⟨none, ?_, by simp, ?_⟩
    · have hparts : text = before ++ side ++ mark ++ before' ++ trim rest ++
          (after' ++ after) ++ [] := by
        rw [htext, hbody]
        conv_lhs => rw [hrest]
        simp
      rw [hparts]
      exact .parts hside hbefore' hne (bare_trim rest)
        (hafter'.append hafter) .absent
    · exact (givenWeight_eq_boundedProbability none (by simp)).symm
  · obtain ⟨hbody, rfl⟩ := Prod.mk.inj (hsplit.symm.trans hweight)
    obtain ⟨gap, hgap, hfront⟩ := exists_trimEnd front
    obtain ⟨blanks, blanks', hblanks, hblanks', hinner⟩ := exists_trim inner
    refine ⟨some x, ?_, by simpa using hfinite, ?_⟩
    · have hparts : text = before ++ side ++ mark ++ before' ++ trim rest ++
          (after' ++ gap) ++
            ('(' :: (blanks ++ trim inner ++ blanks') ++ ')' :: after) := by
        rw [htext, hnumber, hfront, hbody]
        conv_lhs => rw [hrest, hinner]
        simp
      rw [hparts]
      exact .parts hside hbefore' hne (bare_trim rest) (hafter'.append hgap)
        (.present hread hblanks hblanks' hafter)
    · exact (givenWeight_eq_boundedProbability (some x)
        (by simpa using hfinite)).symm

/-! ## What is a spelling is read -/

/-- The symbols of a left side that no padding and no mark before them can be
taken for. -/
structure Separable (left predecessor right : Word) : Prop where
  bare_left : Bare left
  bare_predecessor : Bare predecessor
  bare_right : Bare right
  notMem_left : '<' ∉ left
  notMem_predecessor : '>' ∉ predecessor
  notMem_of_nil : left = [] → '<' ∉ predecessor ∧ '<' ∉ right

theorem splitRight_parts {before predecessor between right back : List Char}
    (hbefore : AllBlank before) (hpredecessor : Bare predecessor)
    (hmark : '>' ∉ predecessor) (hbetween : AllBlank between)
    (hright : Bare right) (hback : RightPart right back) :
    splitRight (before ++ predecessor ++ between ++ back) =
      (predecessor, right) := by
  have hfront : '>' ∉ before ++ predecessor ++ between := by
    simp [hbefore.notMem (c := '>') (by decide),
      hbetween.notMem (c := '>') (by decide), hmark]
  have htrim := trim_append predecessor hbefore hbetween
  rw [hpredecessor.trim_eq] at htrim
  unfold splitRight
  cases hback with
  | absent =>
      rw [List.append_nil, splitAtFirst?_singleton_eq_none hfront]
      simp only [htrim]
  | present _ hblanks hblanks' =>
      rw [splitAtFirst?_singleton_append _ hfront]
      simp only [htrim, trim_append right hblanks hblanks', hright.trim_eq]

theorem LeftPart.notMem {left front : List Char} {c : Char}
    (hfront : LeftPart left front) (hleft : c ∉ left)
    (hblank : isBlank c = false) (hopen : c ≠ '<') : c ∉ front := by
  cases hfront with
  | absent => simp
  | present _ hblanks hblanks' =>
      simp [hleft, hopen, hblanks.notMem hblank, hblanks'.notMem hblank]

theorem RightPart.notMem {right back : List Char} {c : Char}
    (hback : RightPart right back) (hright : c ∉ right)
    (hblank : isBlank c = false) (hclose : c ≠ '>') : c ∉ back := by
  cases hback with
  | absent => simp
  | present _ hblanks hblanks' =>
      simp [hright, hclose, hblanks.notMem hblank, hblanks'.notMem hblank]

theorem SidePart.splitContexts_eq {left predecessor right side : List Char}
    (hside : SidePart left predecessor right side)
    (hseparable : Separable left predecessor right) :
    splitContexts (trim side) = (left, predecessor, right) := by
  obtain @⟨before, _, between, back, hbefore, hfront, _, hbetween, hback⟩ :=
    hside
  obtain ⟨hleft, hpredecessor, hright, hopen, hclose, hnil⟩ := hseparable
  rw [splitContexts_trim]
  cases hfront with
  | absent =>
      have hmark : '<' ∉ before ++ [] ++ predecessor ++ between ++ back := by
        obtain ⟨hopenPredecessor, hopenRight⟩ := hnil rfl
        simp [hbefore.notMem (c := '<') (by decide),
          hbetween.notMem (c := '<') (by decide), hopenPredecessor,
          hback.notMem hopenRight (by decide) (by decide)]
      rw [splitAtFirst?_singleton_eq_none hmark]
      simp only [List.append_nil,
        splitRight_parts hbefore hpredecessor hclose hbetween hright hback]
  | @present _ blanks blanks' _ hblanks hblanks' =>
      have hmark : '<' ∉ before ++ left ++ blanks := by
        simp [hbefore.notMem (c := '<') (by decide),
          hblanks.notMem (c := '<') (by decide), hopen]
      have hsplit := splitAtFirst?_singleton_append
        (blanks' ++ predecessor ++ between ++ back) hmark
      have hassoc : before ++ (left ++ blanks ++ '<' :: blanks') ++
          predecessor ++ between ++ back =
          (before ++ left ++ blanks) ++
            '<' :: (blanks' ++ predecessor ++ between ++ back) := by
        simp
      rw [hassoc, hsplit]
      simp only [trim_append left hbefore hblanks, hleft.trim_eq,
        splitRight_parts hblanks' hpredecessor hclose hbetween hright hback]

theorem SidePart.lengths {left predecessor right side : List Char}
    (hside : SidePart left predecessor right side) :
    left.length ≤ 1 ∧ predecessor.length = 1 ∧ right.length ≤ 1 := by
  obtain ⟨_, hfront, hpredecessor, _, hback⟩ := hside
  refine ⟨?_, hpredecessor, ?_⟩
  · cases hfront with
    | absent => simp
    | present hlength _ _ => exact hlength
  · cases hback with
    | absent => simp
    | present hlength _ _ => exact hlength

theorem WeightPart.splitWeight_eq
    {before successor after back : List Char} {weight? : Option Float}
    (hweight : WeightPart weight? back) (hbefore : AllBlank before)
    (hne : successor ≠ []) (hsuccessor : Bare successor)
    (hafter : AllBlank after)
    (hend : weight? = none → ¬EndsInNumber successor) :
    splitWeight (trimEnd (before ++ successor ++ after ++ back)) =
      (before ++ successor, weight?.getD 1.0) := by
  have hbody := hsuccessor.trimEnd_append_append hne before hafter
  cases hweight with
  | absent =>
      rw [List.append_nil, hbody]
      apply splitWeight_eq_self
      rw [endsInNumber_append_blanks successor hbefore]
      exact hend rfl
  | @present number blanks blanks' after' x hnumber hblanks hblanks' hafter' =>
      have hnone : trimEnd after' = [] :=
        List.rdropWhile_eq_nil_iff.mpr hafter'
      have hinner : Unbracketed (blanks ++ number ++ blanks') :=
        ((unbracketed_of_allBlank hblanks).append
          (unbracketed_of_readDecimal? hnumber)).append
          (unbracketed_of_allBlank hblanks')
      have hread : Decimal.readDecimal? (trim (blanks ++ number ++ blanks')) =
          some x := by
        rw [trim_append number hblanks hblanks']
        exact Decimal.readDecimal?_trim hnumber
      rw [← List.append_assoc, trimEnd_append_cons _ _ (by decide), hnone,
        splitWeight_append _ hinner hread, hbody, Option.getD_some]

/-- The symbols of a left side that are neither blank nor marks. -/
def Unmarked (word : Word) : Prop :=
  ∀ c ∈ word, isBlank c = false ∧ c ∉ ['<', '>', '-']

theorem Unmarked.bare {word : Word} (hword : Unmarked word) : Bare word where
  head c hc := (hword c (List.mem_of_mem_head? hc)).1
  last c hc := (hword c (List.mem_of_mem_getLast? hc)).1

theorem Unmarked.notMem {word : Word} (hword : Unmarked word) {mark : Char}
    (hmark : mark ∈ ['<', '>', '-']) : mark ∉ word :=
  fun hmem => (hword mark hmem).2 hmark

theorem Unmarked.separable {left predecessor right : Word}
    (hsymbols : Unmarked (left ++ predecessor ++ right)) :
    Separable left predecessor right := by
  have hleft : Unmarked left := fun c hc => hsymbols c (by simp [hc])
  have hpredecessor : Unmarked predecessor :=
    fun c hc => hsymbols c (by simp [hc])
  have hright : Unmarked right := fun c hc => hsymbols c (by simp [hc])
  exact
    { bare_left := hleft.bare
      bare_predecessor := hpredecessor.bare
      bare_right := hright.bare
      notMem_left := hleft.notMem (by simp)
      notMem_predecessor := hpredecessor.notMem (by simp)
      notMem_of_nil := fun _ =>
        ⟨hpredecessor.notMem (by simp), hright.notMem (by simp)⟩ }

theorem SidePart.not_arrow_infix {left predecessor right side : List Char}
    (hside : SidePart left predecessor right side)
    (hsymbols : Unmarked (left ++ predecessor ++ right)) :
    ¬arrow <:+: side := by
  have hdash : '-' ∉ left ++ predecessor ++ right := hsymbols.notMem (by simp)
  obtain ⟨hbefore, hfront, _, hbetween, hback⟩ := hside
  simp only [List.mem_append, not_or] at hdash
  intro hoccurs
  have hmem := hoccurs.subset (List.mem_cons_self (a := '-') (l := ['>']))
  simp only [List.mem_append] at hmem
  rcases hmem with (((hmem | hmem) | hmem) | hmem) | hmem
  · exact hbefore.notMem (by decide) hmem
  · exact hfront.notMem hdash.1.1 (by decide) (by decide) hmem
  · exact hdash.1.2 hmem
  · exact hbetween.notMem (by decide) hmem
  · exact hback.notMem hdash.2 (by decide) (by decide) hmem

theorem parse_of_spelling
    {left predecessor right successor text : List Char}
    {weight? : Option Float}
    (hspelling : Spelling arrow left predecessor right successor weight? text)
    (hsymbols : Unmarked (left ++ predecessor ++ right))
    (hfinite : ∀ x ∈ weight?, Scalar.isFinite x = true)
    (hend : weight? = none → ¬EndsInNumber successor) :
    parse text = .ok
      { leftContext := left
        predecessor := predecessor
        rightContext := right
        successor := successor
        probability := givenWeight weight? } := by
  obtain @⟨side, before, after, back, hside, hbefore, hne, hsuccessor, hafter,
    hweight⟩ := hspelling
  obtain ⟨hleft, hpredecessor, hright⟩ := hside.lengths
  have hassoc : side ++ arrow ++ before ++ successor ++ after ++ back =
      side ++ arrow ++ (before ++ successor ++ after ++ back) := by
    simp
  have hword : trim (before ++ successor) = successor := by
    rw [trim_append_left successor hbefore, hsuccessor.trim_eq]
  rw [hassoc, parse_append_arrow_eq_ok_iff (hside.not_arrow_infix hsymbols)]
  refine ⟨_, _,
    hweight.splitWeight_eq hbefore hne hsuccessor hafter hend, ?_, ?_, ?_⟩
  · rw [hword]
    exact hne
  · rw [hside.splitContexts_eq hsymbols.separable, hword, ofWords,
      givenWeight_eq_boundedProbability weight? hfinite]
  · rw [fault?_eq_none_iff]
    refine ⟨hpredecessor, hne, hleft, hright, ?_⟩
    rw [givenWeight_eq_boundedProbability weight? hfinite]
    apply isFinite_boundedProbability
    cases weight? with
    | none => decide +kernel
    | some x => exact hfinite x rfl

/-- Reading recognizes the spellings of rules: an accepted text is a spelling
of the rule that is read from it, with the weight that it gives brought into
its bounds; and a spelling with the arrow of two characters is read as just
its parts, however it is padded, if its symbols are neither blank nor marks,
its weight is finite, and its successor does not end in what would be a
weight. -/
theorem parse_recognizes_spellings (text : List Char) :
    (∀ r, parse text = .ok r →
      ∃ mark ∈ [arrow, singleArrow], ∃ weight?,
        Spelling mark r.leftContext r.predecessor r.rightContext r.successor
          weight? text ∧
        (∀ x ∈ weight?, Scalar.isFinite x = true) ∧
        r.probability = givenWeight weight?) ∧
      ∀ left predecessor right successor weight?,
        Spelling arrow left predecessor right successor weight? text →
        Unmarked (left ++ predecessor ++ right) →
        (∀ x ∈ weight?, Scalar.isFinite x = true) →
        (weight? = none → ¬EndsInNumber successor) →
        parse text = .ok
          { leftContext := left
            predecessor := predecessor
            rightContext := right
            successor := successor
            probability := givenWeight weight? } :=
  ⟨fun _ => spelling_of_parse, fun _ _ _ _ _ => parse_of_spelling⟩

theorem parse_recognizes_spellings_sample :
    let text := ['A', '<', ' ', 'F', '-', '>', 'F', '(', '0', '.', '5', ' ',
      ')', ' ']
    let r : Rule Float :=
      { leftContext := ['A']
        predecessor := ['F']
        rightContext := []
        successor := ['F']
        probability := givenWeight (some 0.5) }
    Spelling arrow ['A'] ['F'] [] ['F'] (some 0.5) text ∧
      Unmarked ['A', 'F'] ∧ Scalar.isFinite (0.5 : Float) = true ∧
      parse text = .ok r ∧
      ∃ mark ∈ [arrow, singleArrow], ∃ weight?,
        Spelling mark ['A'] ['F'] [] ['F'] weight? text := by
  intro text r
  have hbare : Bare ['F'] := bare_singleton_iff.mpr (by decide)
  have hread : Decimal.readDecimal? ['0', '.', '5'] = some 0.5 := by
    decide +kernel
  have hspelling : Spelling arrow ['A'] ['F'] [] ['F'] (some 0.5) text :=
    .parts
      (.parts allBlank_nil (.present (by decide) allBlank_nil allBlank_space)
        rfl allBlank_nil .absent)
      allBlank_nil (by simp) hbare allBlank_nil
      (.present hread allBlank_nil allBlank_space allBlank_space)
  have hsymbols : Unmarked ['A', 'F'] := by
    simp only [Unmarked, List.forall_mem_cons, List.not_mem_nil,
      IsEmpty.forall_iff, implies_true]
    decide
  have hfinite : Scalar.isFinite (0.5 : Float) = true := by decide +kernel
  have hparse := (parse_recognizes_spellings text).2 ['A'] ['F'] [] ['F']
    (some 0.5) hspelling hsymbols (by simpa using hfinite) (by simp)
  obtain ⟨mark, hmark, weight?, hback, _⟩ :=
    (parse_recognizes_spellings text).1 r hparse
  exact ⟨hspelling, hsymbols, hfinite, hparse, mark, hmark, weight?, hback⟩

end TreeGrowth.Rule
