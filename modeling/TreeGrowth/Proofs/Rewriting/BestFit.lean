import TreeGrowth.Grammar.Rewriting
import Mathlib

/-!
# The rules that fit a position best

A pass looks the rules for a symbol up in a table and filters them in one scan
that remembers the most specific ones found so far.  Here the rules that
compete at a position are described on the flat list instead: those that fit
the position, and to which no fitting rule is preferred.  Both ways pick the
same rules in the same order.
-/

namespace TreeGrowth

variable {K : Type}

/-! ## Rules at a position of a word -/

/-- The symbol before a position; there is none before the first. -/
def leftNeighbor? (word : Word) (i : Nat) : Option Char :=
  if i = 0 then none else word[i - 1]?

def rightNeighbor? (word : Word) (i : Nat) : Option Char := word[i + 1]?

def MeetsContext (context : Word) (neighbor : Option Char) : Prop :=
  context = [] ∨ neighbor.map (fun c => [c]) = some context

instance (context : Word) (neighbor : Option Char) :
    Decidable (MeetsContext context neighbor) :=
  inferInstanceAs (Decidable (_ ∨ _))

def Rule.Fits (r : Rule K) (word : Word) (i : Nat) : Prop :=
  word[i]?.map (fun c => [c]) = some r.predecessor ∧
    MeetsContext r.leftContext (leftNeighbor? word i) ∧
    MeetsContext r.rightContext (rightNeighbor? word i)

instance (r : Rule K) (word : Word) (i : Nat) : Decidable (r.Fits word i) :=
  inferInstanceAs (Decidable (_ ∧ _ ∧ _))

/-- The rules that compete at a position: of those that fit it, the ones of
the highest specificity, in the order of the list. -/
def bestFits (rules : List (Rule K)) (word : Word) (i : Nat) : List (Rule K) :=
  rules.filter fun r =>
    decide (r.Fits word i ∧
      ∀ s ∈ rules, s.Fits word i → s.specificity ≤ r.specificity)

theorem mem_bestFits_iff {rules : List (Rule K)} {word : Word} {i : Nat}
    {r : Rule K} :
    r ∈ bestFits rules word i ↔
      r ∈ rules ∧ r.Fits word i ∧
        ∀ s ∈ rules, s.Fits word i → s.specificity ≤ r.specificity := by
  simp [bestFits]

theorem Rule.matchesContext_iff (r : Rule K) (left right : Option Char) :
    r.matchesContext (left.map fun c => [c]) (right.map fun c => [c]) = true ↔
      MeetsContext r.leftContext left ∧ MeetsContext r.rightContext right := by
  simp [matchesContext, contextMatches, MeetsContext]

/-! ## Looking rules up by their symbol -/

theorem RuleTable.lookup_add (r : Rule K)
    (groups : List (Word × List (Rule K))) (symbol : Word) :
    ((RuleTable.add r groups).lookup symbol).getD [] =
      (groups.lookup symbol).getD [] ++
        (if r.predecessor = symbol then [r] else []) := by
  induction groups with
  | nil =>
      by_cases hsymbol : r.predecessor = symbol
      · subst hsymbol
        simp [RuleTable.add, List.lookup]
      · have hne : (symbol == r.predecessor) = false := by
          simpa using Ne.symm hsymbol
        simp [RuleTable.add, List.lookup, hsymbol, hne]
  | cons group groups ih =>
      obtain ⟨key, rules⟩ := group
      by_cases hkey : key = r.predecessor
      · subst hkey
        by_cases hsymbol : symbol = r.predecessor
        · subst hsymbol
          simp [RuleTable.add, List.lookup]
        · have hne : (symbol == r.predecessor) = false := by
            simpa using hsymbol
          simp [RuleTable.add, List.lookup, hne, Ne.symm hsymbol]
      · by_cases hsymbol : symbol = key
        · subst hsymbol
          simp [RuleTable.add, List.lookup, hkey, Ne.symm hkey]
        · have hne : (symbol == key) = false := by
            simpa using hsymbol
          simpa [RuleTable.add, List.lookup, hkey, hne] using ih

theorem RuleTable.candidates_ofRules (rules : List (Rule K)) (c : Char) :
    (RuleTable.ofRules rules).candidates c =
      rules.filter fun r => r.predecessor = [c] := by
  have hfold : ∀ groups : List (Word × List (Rule K)),
      ((rules.foldl (fun groups r => RuleTable.add r groups) groups).lookup
          [c]).getD [] =
        (groups.lookup [c]).getD [] ++
          rules.filter fun r => r.predecessor = [c] := by
    induction rules with
    | nil => simp
    | cons r rules ih =>
        intro groups
        rw [List.foldl_cons, ih, RuleTable.lookup_add, List.append_assoc]
        by_cases hpredecessor : r.predecessor = [c] <;>
          simp [hpredecessor]
  simpa [RuleTable.candidates, RuleTable.ofRules] using hfold []

/-! ## Keeping the most specific rules -/

def Rule.mostSpecific (rules : List (Rule K)) : List (Rule K) :=
  rules.filter fun r => decide (∀ s ∈ rules, s.specificity ≤ r.specificity)

theorem Rule.mem_mostSpecific_iff {rules : List (Rule K)} {r : Rule K} :
    r ∈ Rule.mostSpecific rules ↔
      r ∈ rules ∧ ∀ s ∈ rules, s.specificity ≤ r.specificity := by
  simp [Rule.mostSpecific]

theorem Rule.mostSpecific_eq_nil_iff {rules : List (Rule K)} :
    Rule.mostSpecific rules = [] ↔ rules = [] := by
  constructor
  · intro hnone
    by_contra hne
    obtain ⟨r, hr⟩ := List.exists_mem_of_ne_nil rules hne
    obtain ⟨best, hbest, hmax⟩ :=
      Set.exists_max_image {r | r ∈ rules} Rule.specificity
        rules.finite_toSet ⟨r, hr⟩
    have hmem : best ∈ Rule.mostSpecific rules :=
      Rule.mem_mostSpecific_iff.mpr ⟨hbest, hmax⟩
    rw [hnone] at hmem
    simp at hmem
  · rintro rfl
    rfl

theorem Rule.mostSpecific_append_singleton
    (rules : List (Rule K)) (r : Rule K) :
    Rule.mostSpecific (rules ++ [r]) =
      match (Rule.mostSpecific rules).head? with
      | none => [r]
      | some best =>
          if best.specificity < r.specificity then [r]
          else if best.specificity = r.specificity then
            Rule.mostSpecific rules ++ [r]
          else Rule.mostSpecific rules := by
  cases hhead : (Rule.mostSpecific rules).head? with
  | none =>
      have hnil : rules = [] :=
        Rule.mostSpecific_eq_nil_iff.mp (List.head?_eq_none_iff.mp hhead)
      subst hnil
      simp [Rule.mostSpecific]
  | some best =>
      obtain ⟨hbest, hmax⟩ :=
        Rule.mem_mostSpecific_iff.mp (List.mem_of_mem_head? hhead)
      -- The best earlier rule stands for all earlier ones.
      have hearlier : ∀ s : Rule K,
          (∀ t ∈ rules, t.specificity ≤ s.specificity) ↔
            best.specificity ≤ s.specificity := by
        intro s
        constructor
        · intro hall
          exact hall best hbest
        · intro hle t ht
          exact (hmax t ht).trans hle
      have hall : ∀ s : Rule K,
          (∀ t ∈ rules ++ [r], t.specificity ≤ s.specificity) ↔
            best.specificity ≤ s.specificity ∧
              r.specificity ≤ s.specificity := by
        intro s
        rw [List.forall_mem_append, hearlier]
        simp
      simp only [Rule.mostSpecific, hall, hearlier, List.filter_append]
      split
      next hlt =>
        have hbeaten : rules.filter (fun s =>
            decide (best.specificity ≤ s.specificity ∧
              r.specificity ≤ s.specificity)) = [] := by
          rw [List.filter_eq_nil_iff]
          intro s hs
          have hsbest := hmax s hs
          simp only [decide_eq_true_eq]
          omega
        rw [hbeaten]
        simp [hlt.le]
      next hge =>
        have hkept : rules.filter (fun s =>
            decide (best.specificity ≤ s.specificity ∧
              r.specificity ≤ s.specificity)) =
            rules.filter (fun s =>
              decide (best.specificity ≤ s.specificity)) := by
          apply List.filter_congr
          intro s hs
          rw [decide_eq_decide]
          omega
        rw [hkept]
        split
        next heq => simp [heq]
        next hne =>
          have hbeaten : ¬best.specificity ≤ r.specificity := by omega
          simp [hbeaten]

/-- The scan that keeps the most specific rules found so far ends with the
most specific of all rules whose contexts match. -/
theorem Choice.eligible_eq_mostSpecific
    (candidates : List (Rule K)) (left right : Option Word) :
    Choice.eligible candidates left right =
      Rule.mostSpecific
        (candidates.filter fun r => r.matchesContext left right) := by
  induction candidates using List.reverseRecOn with
  | nil => rfl
  | append_singleton candidates r ih =>
      rw [Choice.eligible] at ih
      rw [Choice.eligible, List.foldl_concat, ih, Choice.contend]
      by_cases hmatch : r.matchesContext left right = true
      · have hlast : [r].filter (fun r => r.matchesContext left right) = [r] := by
          simp [hmatch]
        rw [if_pos hmatch, List.filter_append, hlast]
        refine Eq.trans ?_ (Rule.mostSpecific_append_singleton _ r).symm
        cases (Rule.mostSpecific (candidates.filter fun r =>
          r.matchesContext left right)).head? <;> rfl
      · have hlast : [r].filter (fun r => r.matchesContext left right) = [] := by
          simp [hmatch]
        rw [if_neg hmatch, List.filter_append, hlast, List.append_nil]

/-- The rules that a pass lets compete for a symbol are those that fit its
position best. -/
theorem eligible_candidates_eq_bestFits
    (rules : List (Rule K)) {word : Word} {i : Nat} {c : Char}
    (hc : word[i]? = some c) :
    Choice.eligible ((RuleTable.ofRules rules).candidates c)
        ((leftNeighbor? word i).map fun c => [c])
        ((rightNeighbor? word i).map fun c => [c]) =
      bestFits rules word i := by
  have hfits : ∀ r : Rule K,
      r.Fits word i ↔
        r.matchesContext ((leftNeighbor? word i).map fun c => [c])
            ((rightNeighbor? word i).map fun c => [c]) = true ∧
          r.predecessor = [c] := by
    intro r
    rw [Rule.matchesContext_iff, Rule.Fits, hc]
    simp [eq_comm, and_comm]
  rw [Choice.eligible_eq_mostSpecific, RuleTable.candidates_ofRules,
    List.filter_filter, Rule.mostSpecific, List.filter_filter, bestFits]
  apply List.filter_congr
  intro r _
  rw [Bool.eq_iff_iff]
  simp only [List.mem_filter, Bool.and_eq_true, decide_eq_true_eq, hfits,
    and_imp]
  exact and_comm

end TreeGrowth
