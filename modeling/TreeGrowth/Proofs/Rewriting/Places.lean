import TreeGrowth.Proofs.Rewriting.BestFit

/-!
# The place of the rule that is chosen

A list may hold the same rule twice, so which rule of it fires is a matter of
places and not of rules alone.  Here a choice is followed by places: the places
of the rules that compete for a symbol, and among several of them the one that
the draw reaches.  The rule that a pass chooses is the one at that place.
-/

namespace TreeGrowth

variable {K G : Type}

/-! ## Competing rules -/

/-- The rule is for the symbol, its contexts match the neighbours, and no other
such rule of the list is more specific. -/
def Rule.Competes (rules : List (Rule K)) (c : Char)
    (left right : Option Word) (r : Rule K) : Prop :=
  r.predecessor = [c] ∧ r.matchesContext left right = true ∧
    ∀ s ∈ rules, s.predecessor = [c] → s.matchesContext left right = true →
      s.specificity ≤ r.specificity

instance (rules : List (Rule K)) (c : Char) (left right : Option Word) :
    DecidablePred (Rule.Competes rules c left right) :=
  fun _ => inferInstanceAs (Decidable (_ ∧ _ ∧ _))

/-- The competing rules with their places in the list. -/
def Rule.competitors (rules : List (Rule K)) (c : Char)
    (left right : Option Word) : List (Rule K × Nat) :=
  rules.zipIdx.filter fun entry =>
    decide (Rule.Competes rules c left right entry.1)

theorem Rule.getElem?_of_mem_competitors {rules : List (Rule K)} {c : Char}
    {left right : Option Word} {entry : Rule K × Nat}
    (hentry : entry ∈ Rule.competitors rules c left right) :
    rules[entry.2]? = some entry.1 :=
  List.mem_zipIdx_iff_getElem?.mp (List.mem_filter.mp hentry).1

theorem Rule.predecessor_of_mem_competitors {rules : List (Rule K)} {c : Char}
    {left right : Option Word} {entry : Rule K × Nat}
    (hentry : entry ∈ Rule.competitors rules c left right) :
    entry.1.predecessor = [c] :=
  (of_decide_eq_true (List.mem_filter.mp hentry).2).1

theorem Choice.eligible_eq_competitors (rules : List (Rule K)) (c : Char)
    (left right : Option Word) :
    Choice.eligible ((RuleTable.ofRules rules).candidates c) left right =
      (Rule.competitors rules c left right).map Prod.fst := by
  have hcompeting : (Rule.competitors rules c left right).map Prod.fst =
      rules.filter fun r => decide (r.Competes rules c left right) := by
    have hmap := List.filter_map (f := Prod.fst)
      (p := fun r : Rule K => decide (Rule.Competes rules c left right r))
      (l := rules.zipIdx)
    rw [List.zipIdx_map_fst] at hmap
    exact hmap.symm
  rw [hcompeting, Choice.eligible_eq_mostSpecific,
    RuleTable.candidates_ofRules, List.filter_filter, Rule.mostSpecific,
    List.filter_filter]
  apply List.filter_congr
  intro r _
  rw [Bool.eq_iff_iff, Bool.and_eq_true, decide_eq_true_eq, decide_eq_true_eq,
    Bool.and_eq_true, decide_eq_true_eq]
  simp only [Rule.Competes, List.mem_filter, Bool.and_eq_true,
    decide_eq_true_eq, and_imp]
  constructor
  · rintro ⟨hmax, hmatch, hsymbol⟩
    exact ⟨hsymbol, hmatch, fun s hs hsame hfits => hmax s hs hfits hsame⟩
  · rintro ⟨hsymbol, hmatch, hmax⟩
    exact ⟨fun s hs hfits hsame => hmax s hs hsame hfits, hmatch, hsymbol⟩

/-! ## Drawing a place -/

variable [Scalar K]

/-- The first place at which the running sum of the weights exceeds the
draw. -/
def Choice.reachingPlace? (draw : K) : K → List K → Option Nat
  | _, [] => none
  | sum, weight :: rest =>
      let sum := sum + weight
      if draw < sum then some 0
      else (reachingPlace? draw sum rest).map (· + 1)

theorem Choice.reaching?_eq_bind (draw sum : K) (rules : List (Rule K)) :
    Choice.reaching? draw sum rules =
      (Choice.reachingPlace? draw sum
        (rules.map fun r => r.probability)).bind fun i => rules[i]? := by
  induction rules generalizing sum with
  | nil => rfl
  | cons r rest ih =>
      simp only [Choice.reaching?, List.map_cons, Choice.reachingPlace?]
      split
      next => rfl
      next =>
        rw [ih, Option.bind_map]
        rfl

theorem Choice.lt_length_of_reachingPlace? {draw sum : K} {weights : List K}
    {i : Nat} (hi : Choice.reachingPlace? draw sum weights = some i) :
    i < weights.length := by
  induction weights generalizing sum i with
  | nil => simp [Choice.reachingPlace?] at hi
  | cons weight rest ih =>
      simp only [Choice.reachingPlace?] at hi
      split at hi
      next =>
        obtain rfl := Option.some.inj hi
        exact Nat.zero_lt_succ _
      next =>
        obtain ⟨j, hj, rfl⟩ := Option.map_eq_some_iff.mp hi
        exact Nat.succ_lt_succ (ih hj)

variable [RandomSource G K]

/-- The place that is drawn among several weights. -/
def Choice.drawnPlace (weights : List K) (source : G) : Nat × G :=
  let total := Scalar.total weights
  if total ≤ 0.0 then
    let (i, source) := RandomSource.index weights.length source
    (if i < weights.length then i else 0, source)
  else
    let (draw, source) := RandomSource.between 0.0 total source
    ((Choice.reachingPlace? draw 0.0 weights).getD (weights.length - 1),
      source)

theorem Choice.drawRule_eq_drawnPlace (first : Rule K) (others : List (Rule K))
    (source : G) :
    let drawn := Choice.drawnPlace
      ((first :: others).map fun r => r.probability) source
    (first :: others)[drawn.1]? =
        some (Choice.drawRule first others source).1 ∧
      drawn.2 = (Choice.drawRule first others source).2 := by
  simp only [Choice.drawnPlace, Choice.drawRule, List.length_map]
  split
  next =>
    constructor
    · simp only
      split
      next hi => rw [List.getD_eq_getElem?_getD, List.getElem?_eq_getElem hi,
        Option.getD_some]
      next hi => rw [List.getD_eq_default _ _ (Nat.not_lt.mp hi)]; rfl
    · rfl
  next =>
    constructor
    · simp only
      rw [Choice.reaching?_eq_bind]
      cases hreach : Choice.reachingPlace? (RandomSource.between 0.0
          (Scalar.total ((first :: others).map fun r => r.probability))
            source).1 0.0 ((first :: others).map fun r => r.probability) with
      | none =>
          rw [Option.bind_none, Option.getD_none, Option.getD_none,
            ← List.getLast?_eq_getElem?, List.getLast?_cons]
          cases others <;> simp [List.getLastD_eq_getLast?]
      | some i =>
          have hi := Choice.lt_length_of_reachingPlace? hreach
          rw [List.length_map] at hi
          rw [Option.bind_some, Option.getD_some,
            List.getElem?_eq_getElem hi, Option.getD_some]
    · rfl

/-- Several rules with weight take one draw, and the last of them stands in if
the loop finds none. -/
theorem Choice.exists_last_among_eq {rules : List (Rule K)} (source : G)
    (hseveral : 2 ≤ rules.length)
    (hweight : ¬Scalar.total (rules.map fun r => r.probability) ≤ 0.0) :
    let draw := RandomSource.between 0.0
      (Scalar.total (rules.map fun r => r.probability)) source
    ∃ last, rules.getLast? = some last ∧
      Choice.among rules source =
        (.drawn ((Choice.reaching? draw.1 0.0 rules).getD last), draw.2) := by
  match rules, hseveral with
  | first :: second :: others, _ =>
      intro draw
      refine ⟨(second :: others).getLastD first, ?_, ?_⟩
      · exact List.getLast?_cons
      · change (Choice.drawn (Choice.drawRule first (second :: others)
          source).1, (Choice.drawRule first (second :: others) source).2) = _
        rw [Choice.drawRule]
        dsimp only
        rw [if_neg hweight]

/-- Several rules without any weight are drawn by an index. -/
theorem Choice.among_eq_getElem {rules : List (Rule K)} {source : G}
    (hseveral : 2 ≤ rules.length)
    (hweightless : Scalar.total (rules.map fun r => r.probability) ≤ 0.0)
    (hindex : (RandomSource.index rules.length source).1 < rules.length) :
    Choice.among rules source =
      (.drawn rules[(RandomSource.index rules.length source).1],
        (RandomSource.index rules.length source).2) := by
  match rules, hseveral with
  | first :: second :: others, _ =>
      change (Choice.drawn (Choice.drawRule first (second :: others)
        source).1, (Choice.drawRule first (second :: others) source).2) = _
      rw [Choice.drawRule]
      dsimp only
      rw [if_pos hweightless]
      dsimp only
      rw [List.getD_eq_getElem _ _ hindex]

/-! ## The place of a choice -/

/-- The place that is chosen among several ones with these weights, if there are
any. -/
def Choice.placeAmong (weights : List K) (places : List Nat) (source : G) :
    Option Nat × G :=
  match places with
  | [] => (none, source)
  | [place] => (some place, source)
  | places =>
      let (i, source) := Choice.drawnPlace weights source
      (places[i]?, source)

/-- The place in the list of the rule that is chosen for a symbol between its
neighbours. -/
def Choice.place? (rules : List (Rule K)) (c : Char)
    (left right : Option Word) (source : G) : Option Nat × G :=
  let entries := Rule.competitors rules c left right
  Choice.placeAmong (entries.map fun entry => entry.1.probability)
    (entries.map Prod.snd) source

theorem Choice.among_eq_placeAmong {rules : List (Rule K)}
    {entries : List (Rule K × Nat)}
    (hentries : ∀ entry ∈ entries, rules[entry.2]? = some entry.1)
    (source : G) :
    let choice := Choice.among (entries.map Prod.fst) source
    let place := Choice.placeAmong
      (entries.map fun entry => entry.1.probability)
      (entries.map Prod.snd) source
    choice.1.rule? = place.1.bind (fun i => rules[i]?) ∧
      choice.2 = place.2 := by
  match entries with
  | [] => exact ⟨rfl, rfl⟩
  | [entry] =>
      constructor
      · exact (hentries entry List.mem_cons_self).symm
      · rfl
  | first :: second :: rest =>
      have hdrawn := Choice.drawRule_eq_drawnPlace first.1
        ((second :: rest).map Prod.fst) source
      have hweights :
          (first.1 :: (second :: rest).map Prod.fst).map
              (fun r => r.probability) =
            (first :: second :: rest).map
              (fun entry => entry.1.probability) := by
        rw [← List.map_cons, List.map_map]
        rfl
      rw [hweights] at hdrawn
      set drawn := Choice.drawnPlace ((first :: second :: rest).map
        fun entry => entry.1.probability) source
      obtain ⟨hrule, hsource⟩ := hdrawn
      have hmapped : ((first :: second :: rest)[drawn.1]?).map Prod.fst =
          some (Choice.drawRule first.1
            ((second :: rest).map Prod.fst) source).1 := by
        rw [← List.getElem?_map]
        exact hrule
      obtain ⟨entry, hentry, hsame⟩ := Option.map_eq_some_iff.mp hmapped
      have hplace :
          ((first :: second :: rest).map Prod.snd)[drawn.1]? =
            some entry.2 := by
        rw [List.getElem?_map, hentry, Option.map_some]
      have hfound := hentries entry (List.mem_of_getElem? hentry)
      constructor
      · change some (Choice.drawRule first.1
            ((second :: rest).map Prod.fst) source).1 =
          (((first :: second :: rest).map Prod.snd)[drawn.1]?).bind
            fun i => rules[i]?
        rw [hplace, Option.bind_some, hfound, hsame]
      · exact hsource.symm

/-- The rule that a pass chooses is the one at the place of the choice. -/
theorem Choice.ofCandidates_eq_place (rules : List (Rule K)) (c : Char)
    (left right : Option Word) (source : G) :
    let choice := Choice.ofCandidates
      ((RuleTable.ofRules rules).candidates c) left right source
    let place := Choice.place? rules c left right source
    choice.1.rule? = place.1.bind (fun i => rules[i]?) ∧
      choice.2 = place.2 := by
  rw [Choice.ofCandidates, Choice.eligible_eq_competitors]
  apply Choice.among_eq_placeAmong
  intro entry hentry
  exact Rule.getElem?_of_mem_competitors hentry

end TreeGrowth
