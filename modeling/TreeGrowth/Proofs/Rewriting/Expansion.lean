import TreeGrowth.Proofs.Rewriting.BestFit

/-!
# A pass and the unbounded rewriting of its word

The reference is a rewriting without table, scan or limit: the best fits at
every position are read off the flat list of rules and the word before the
pass, decisions are made from left to right, and every symbol becomes what was
decided for it.  A pass stops as soon as its output is longer than the limit,
so it has made the decisions of a prefix of the positions only; their output
already holds all symbols that the limit lets through.
-/

namespace TreeGrowth

variable {K G : Type} [Scalar K] [RandomSource G K]

/-! ## The reference -/

/-- What happens to the symbol at a position: it stays, the only best fit
fires, or one of several best fits is drawn. -/
def decideAt (rules : List (Rule K)) (word : Word) (i : Nat) (source : G) :
    Choice K × G :=
  match bestFits rules word i with
  | [] => (.keep, source)
  | [r] => (.forced r, source)
  | first :: others =>
      let (r, source) := Choice.drawRule first others source
      (.drawn r, source)

/-- The decisions at some positions, one after the other.  Only a draw moves
the source on. -/
def decideAll (rules : List (Rule K)) (word : Word) :
    List Nat → G → List (Choice K) × G
  | [], source => ([], source)
  | i :: positions, source =>
      let (choice, source) := decideAt rules word i source
      let (choices, source) := decideAll rules word positions source
      (choice :: choices, source)

def decisions (rules : List (Rule K)) (word : Word) (source : G) :
    List (Choice K) × G :=
  decideAll rules word (List.range word.length) source

omit [Scalar K] in
def Choice.piece (choice : Choice K) (c : Char) : Word :=
  choice.rule?.elim [c] fun r => r.successor

omit [Scalar K] in
def written (choices : List (Choice K)) (word : Word) : Word :=
  (List.zipWith Choice.piece choices word).flatten

/-- The rewriting of a whole word, however long it becomes. -/
def expansion (rules : List (Rule K)) (word : Word) (source : G) : Word :=
  written (decisions rules word source).1 word

omit [Scalar K] in
/-- A decision is right for the best fits of a position: the symbol stays
exactly if there is none, and a rule is drawn exactly among several. -/
def Choice.IsRightFor (best : List (Rule K)) : Choice K → Prop
  | .keep => best = []
  | .forced r => best = [r]
  | .drawn r => r ∈ best ∧ 2 ≤ best.length

/-! ## Laws of the reference -/

omit [RandomSource G K] in
theorem Choice.mem_of_reaching? {draw sum : K}
    {rules : List (Rule K)} {r : Rule K}
    (hr : Choice.reaching? draw sum rules = some r) : r ∈ rules := by
  induction rules generalizing sum with
  | nil => simp [Choice.reaching?] at hr
  | cons first rest ih =>
      rw [Choice.reaching?] at hr
      split at hr
      next =>
        obtain rfl := Option.some.inj hr
        exact List.mem_cons_self
      next => exact List.mem_cons_of_mem first (ih hr)

theorem Choice.drawRule_mem (first : Rule K) (others : List (Rule K))
    (source : G) :
    (Choice.drawRule first others source).1 ∈ first :: others := by
  unfold Choice.drawRule
  simp only
  split
  next =>
    set i := (RandomSource.index (first :: others).length source).1
    change (first :: others).getD i first ∈ first :: others
    by_cases hi : i < (first :: others).length
    · rw [List.getD_eq_getElem _ _ hi]
      exact List.getElem_mem hi
    · rw [List.getD_eq_default _ _ (by omega)]
      exact List.mem_cons_self
  next =>
    set draw := (RandomSource.between 0.0
      (Scalar.total ((first :: others).map fun r => r.probability)) source).1
    change (Choice.reaching? draw 0.0 (first :: others)).getD
      (others.getLastD first) ∈ first :: others
    cases hreach : Choice.reaching? draw 0.0 (first :: others) with
    | some r => simpa using Choice.mem_of_reaching? hreach
    | none =>
        exact List.getLastD_mem_cons

theorem decideAt_isRightFor (rules : List (Rule K)) (word : Word) (i : Nat)
    (source : G) :
    (decideAt rules word i source).1.IsRightFor (bestFits rules word i) := by
  unfold decideAt
  split
  next hnone => exact hnone
  next r hone => exact hone
  next first others hseveral hbest =>
    have hothers : 0 < others.length :=
      List.length_pos_of_ne_nil (by
        rintro rfl
        exact hseveral rfl)
    rw [hbest]
    refine ⟨Choice.drawRule_mem first others source, ?_⟩
    simp only [List.length_cons]
    omega

theorem length_decideAll (rules : List (Rule K)) (word : Word)
    (positions : List Nat) (source : G) :
    (decideAll rules word positions source).1.length = positions.length := by
  induction positions generalizing source with
  | nil => rfl
  | cons i positions ih => simp [decideAll, ih]

theorem decideAll_isRightFor (rules : List (Rule K)) (word : Word)
    (positions : List Nat) (source : G) :
    List.Forall₂ (fun i choice => choice.IsRightFor (bestFits rules word i))
      positions (decideAll rules word positions source).1 := by
  induction positions generalizing source with
  | nil => exact .nil
  | cons i positions ih =>
      exact .cons (decideAt_isRightFor rules word i source) (ih _)

/-! ## The scan follows the reference -/

theorem Scan.symbol_ofRules (rules : List (Rule K)) {word : Word} {i : Nat}
    {c : Char} (hc : word[i]? = some c) (scan : Scan G) :
    Scan.symbol (RuleTable.ofRules rules) (leftNeighbor? word i) c
        (rightNeighbor? word i) scan =
      { output := scan.output.appendList
          ((decideAt rules word i scan.source).1.piece c)
        tally := scan.tally.count (decideAt rules word i scan.source).1
        source := (decideAt rules word i scan.source).2 } := by
  have hchoice :
      Choice.ofCandidates ((RuleTable.ofRules rules).candidates c)
          ((leftNeighbor? word i).map fun c => [c])
          ((rightNeighbor? word i).map fun c => [c]) scan.source =
        decideAt rules word i scan.source := by
    rw [Choice.ofCandidates, eligible_candidates_eq_bestFits rules hc]
    unfold Choice.among decideAt
    rfl
  unfold Scan.symbol
  rw [hchoice]
  rfl

/-- A scan has made the decisions at the `n` positions from `i` on: it wrote
what they make of the word there, counted them and left the source behind
them. -/
structure Scan.Made (rules : List (Rule K)) (word : Word) (i n : Nat)
    (before after : Scan G) : Prop where
  output : after.output.toList = before.output.toList ++
    written (decideAll rules word (List.range' i n) before.source).1
      (word.drop i)
  tally : after.tally =
    (decideAll rules word (List.range' i n) before.source).1.foldl
      Tally.count before.tally
  source : after.source =
    (decideAll rules word (List.range' i n) before.source).2

theorem Scan.Made.zero (rules : List (Rule K)) (word : Word) (i : Nat)
    (scan : Scan G) : Scan.Made rules word i 0 scan scan := by
  constructor <;> simp [decideAll, written]

theorem Scan.Made.of_symbol {rules : List (Rule K)} {word : Word} {i n : Nat}
    {c : Char} {before after : Scan G} (hc : word[i]? = some c)
    (hrest : Scan.Made rules word (i + 1) n
      (Scan.symbol (RuleTable.ofRules rules) (leftNeighbor? word i) c
        (rightNeighbor? word i) before) after) :
    Scan.Made rules word i (n + 1) before after := by
  obtain ⟨houtput, htally, hsource⟩ := hrest
  rw [Scan.symbol_ofRules rules hc] at houtput htally hsource
  have hdrop : word.drop i = c :: word.drop (i + 1) :=
    (List.getElem_cons_drop (List.getElem?_eq_some_iff.mp hc).1).symm.trans
      (by rw [(List.getElem?_eq_some_iff.mp hc).2])
  constructor
  · rw [houtput, hdrop, List.range'_succ]
    simp [decideAll, written]
  · rw [htally, List.range'_succ]
    simp [decideAll]
  · rw [hsource, List.range'_succ]
    simp [decideAll]

/-- A scan makes decisions up to a position and stops there: at the end of
the word, or where its output first exceeds the limit. -/
theorem Scan.word_made (rules : List (Rule K)) (limit : Nat) (word : Word)
    (i : Nat) (scan : Scan G) (hwithin : scan.output.size ≤ limit) :
    let done := Scan.word (RuleTable.ofRules rules) limit
      (leftNeighbor? word i) (word.drop i) scan
    ∃ n ≤ word.length - i,
      Scan.Made rules word i n scan done.1 ∧
      (if done.2 = true then limit < done.1.output.size
      else n = word.length - i ∧ done.1.output.size ≤ limit) ∧
      ∀ m < n, ∃ made : Scan G,
        Scan.Made rules word i m scan made ∧ made.output.size ≤ limit := by
  dsimp only
  -- The rest of the word shrinks while its position moves on, so that the
  -- neighbors can always be read off the whole word.
  induction hrest : word.drop i generalizing i scan with
  | nil =>
      have hend : word.length - i = 0 := by
        rw [← List.length_drop, hrest]
        rfl
      refine ⟨0, by omega, Scan.Made.zero rules word i scan, ?_, by simp⟩
      simp [Scan.word, hend, hwithin]
  | cons c rest ih =>
      have hlength : word.length - i = rest.length + 1 := by
        rw [← List.length_drop, hrest]
        rfl
      have hc : word[i]? = some c := by
        have hhead : (word.drop i)[0]? = some c := by
          rw [hrest]
          rfl
        simpa using hhead
      have hnext : word.drop (i + 1) = rest := by
        rw [← List.drop_drop, hrest]
        rfl
      have hright : rest.head? = rightNeighbor? word i := by
        rw [← hnext, List.head?_drop]
        rfl
      rw [Scan.word, hright]
      set next := Scan.symbol (RuleTable.ofRules rules)
        (leftNeighbor? word i) c (rightNeighbor? word i) scan with hsymbol
      by_cases hover : limit < next.output.size
      · refine ⟨1, by omega, ?_, ?_, ?_⟩
        · simp only [if_pos hover]
          exact Scan.Made.of_symbol hc (Scan.Made.zero rules word (i + 1) next)
        · simp [hover]
        · intro m hm
          obtain rfl : m = 0 := by omega
          exact ⟨scan, Scan.Made.zero rules word i scan, hwithin⟩
      · simp only [if_neg hover]
        have hleft : some c = leftNeighbor? word (i + 1) := by
          simp [leftNeighbor?, hc]
        obtain ⟨n, hn, hmade, hstop, hearlier⟩ :=
          ih (i + 1) next (by omega) hnext
        rw [← hleft] at hmade hstop
        refine ⟨n + 1, by omega, Scan.Made.of_symbol hc hmade, ?_, ?_⟩
        · split at hstop
          next htrue =>
            rw [if_pos htrue]
            exact hstop
          next hfalse =>
            rw [if_neg hfalse]
            exact ⟨by omega, hstop.2⟩
        · intro m hm
          cases m with
          | zero => exact ⟨scan, Scan.Made.zero rules word i scan, hwithin⟩
          | succ m =>
              obtain ⟨made, hsteps, hle⟩ := hearlier m (by omega)
              exact ⟨made, Scan.Made.of_symbol hc hsteps, hle⟩

/-! ## The pass as a prefix of the reference -/

theorem decideAll_append (rules : List (Rule K)) (word : Word)
    (first rest : List Nat) (source : G) :
    decideAll rules word (first ++ rest) source =
      ((decideAll rules word first source).1 ++
          (decideAll rules word rest
            (decideAll rules word first source).2).1,
        (decideAll rules word rest (decideAll rules word first source).2).2) := by
  induction first generalizing source with
  | nil => rfl
  | cons i first ih => simp [decideAll, ih]

omit [Scalar K] in
theorem written_append (first rest : List (Choice K)) (word : Word)
    (hfirst : first.length ≤ word.length) :
    written (first ++ rest) word =
      written first word ++ written rest (word.drop first.length) := by
  induction first generalizing word with
  | nil => simp [written]
  | cons choice first ih =>
      cases word with
      | nil => simp at hfirst
      | cons c word =>
          have hrec := ih word (by simpa using hfirst)
          simp only [written] at hrec
          simp [written, hrec]

theorem written_prefix_expansion (rules : List (Rule K)) (word : Word)
    (source : G) {n : Nat} (hn : n ≤ word.length) :
    written (decideAll rules word (List.range n) source).1 word <+:
      expansion rules word source := by
  have hrange : List.range word.length =
      List.range n ++ (List.range (word.length - n)).map (n + ·) := by
    rw [← List.range_add]
    congr 1
    omega
  rw [expansion, decisions, hrange, decideAll_append, written_append]
  · exact List.prefix_append _ _
  · rw [length_decideAll]
    simpa using hn

/-- What the decisions at the first `n` positions of a word write. -/
def rewritten (rules : List (Rule K)) (word : Word) (source : G) (n : Nat) :
    Word :=
  written (decideAll rules word (List.range n) source).1 word

/-- What a pass makes of a word: the decisions at its first `n` positions,
which are all positions unless the pass was cut short.  Before the last of them
it had written no more than the limit. -/
theorem rewritePass_made_first (rules : List (Rule K)) (limit : Nat)
    (tally : Tally) (source : G) (word : Word) :
    ∃ n ≤ word.length,
      let pass :=
        rewritePass (RuleTable.ofRules rules) limit tally source word
      let made := decideAll rules word (List.range n) source
      pass.word = (written made.1 word).take limit ∧
        pass.tally = made.1.foldl Tally.count tally ∧
        pass.source = made.2 ∧
        (if pass.truncated = true then limit < (written made.1 word).length
        else n = word.length ∧ (written made.1 word).length ≤ limit) ∧
        ∀ m < n, (rewritten rules word source m).length ≤ limit := by
  obtain ⟨n, hn, hmade, hstop, hearlier⟩ :=
    Scan.word_made rules limit word 0
      ({ output := #[], tally, source } : Scan G) (Nat.zero_le limit)
  obtain ⟨houtput, htally, hsource⟩ := hmade
  simp only [List.drop_zero, ← List.range_eq_range', List.nil_append,
    Nat.sub_zero, leftNeighbor?, if_true, ← Array.length_toList]
    at houtput htally hsource hstop hn
  refine ⟨n, hn, ?_, htally, hsource, ?_, ?_⟩
  · simp only [rewritePass]
    rw [houtput]
    split
    next => rfl
    next hall =>
      rw [if_neg hall, houtput] at hstop
      exact (List.take_of_length_le hstop.2).symm
  · simpa only [rewritePass, houtput] using hstop
  · intro m hm
    obtain ⟨made, hsteps, hle⟩ := hearlier m hm
    rw [← Array.length_toList, hsteps.output, ← List.range_eq_range'] at hle
    exact hle

theorem rewritePass_made (rules : List (Rule K)) (limit : Nat)
    (tally : Tally) (source : G) (word : Word) :
    ∃ n ≤ word.length,
      let pass :=
        rewritePass (RuleTable.ofRules rules) limit tally source word
      let made := decideAll rules word (List.range n) source
      pass.word = (written made.1 word).take limit ∧
        pass.tally = made.1.foldl Tally.count tally ∧
        pass.source = made.2 ∧
        if pass.truncated = true then limit < (written made.1 word).length
        else n = word.length ∧ (written made.1 word).length ≤ limit := by
  obtain ⟨n, hn, hword, htally, hsource, hstop, _⟩ :=
    rewritePass_made_first rules limit tally source word
  exact ⟨n, hn, hword, htally, hsource, hstop⟩

theorem rewritePass_word (rules : List (Rule K)) (limit : Nat)
    (tally : Tally) (source : G) (word : Word) :
    (rewritePass (RuleTable.ofRules rules) limit tally source word).word =
      (expansion rules word source).take limit := by
  obtain ⟨n, hn, hword, _, _, hstop⟩ :=
    rewritePass_made rules limit tally source word
  rw [hword]
  split at hstop
  next =>
    -- What a cut pass wrote is longer than the limit, and no more of the whole
    -- rewriting is let through.
    obtain ⟨tail, htail⟩ := written_prefix_expansion rules word source hn
    rw [← htail, List.take_append_of_le_length hstop.le]
  next =>
    rw [hstop.1]
    rfl

theorem rewritePass_truncated_iff (rules : List (Rule K)) (limit : Nat)
    (tally : Tally) (source : G) (word : Word) :
    (rewritePass (RuleTable.ofRules rules) limit tally source
        word).truncated = true ↔
      limit < (expansion rules word source).length := by
  obtain ⟨n, hn, _, _, _, hstop⟩ :=
    rewritePass_made rules limit tally source word
  split at hstop
  next htruncated =>
    have hle := (written_prefix_expansion rules word source hn).length_le
    simp only [htruncated, true_iff]
    exact hstop.trans_le hle
  next hwhole =>
    obtain ⟨rfl, hle⟩ := hstop
    constructor
    · intro htruncated
      exact absurd htruncated hwhole
    · intro hlt
      exact absurd hle (Nat.not_le.mpr hlt)

/-- A pass is the parallel rewriting of its word by the flat list of rules, up
to the limit: at every position the decision is right for the rules that fit
it best among all rules of the list, the pass returns the first symbols of
what the decisions write, and it reports exactly the loss of a symbol.  A pass
that loses none has made just the draws of the decisions. -/
theorem rewritePass_eq_take_expansion (rules : List (Rule K)) (limit : Nat)
    (tally : Tally) (source : G) (word : Word) :
    let pass := rewritePass (RuleTable.ofRules rules) limit tally source word
    List.Forall₂ (fun i choice => choice.IsRightFor (bestFits rules word i))
        (List.range word.length) (decisions rules word source).1 ∧
      pass.word = (expansion rules word source).take limit ∧
      (pass.truncated = true ↔
        limit < (expansion rules word source).length) ∧
      (pass.truncated = false →
        pass.source = (decisions rules word source).2) := by
  refine ⟨decideAll_isRightFor rules word _ source,
    rewritePass_word rules limit tally source word,
    rewritePass_truncated_iff rules limit tally source word, ?_⟩
  intro hwhole
  obtain ⟨n, _, _, _, hsource, hstop⟩ :=
    rewritePass_made rules limit tally source word
  rw [hwhole, if_neg Bool.false_ne_true] at hstop
  rw [hsource, hstop.1]
  rfl

end TreeGrowth
