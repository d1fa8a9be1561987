import TreeGrowth.Grammar.RuleSet
import TreeGrowth.Proofs.Rewriting.BestFit

/-!
# Classes of rules

The rules for one symbol that ask for equally many neighbours form a class.
Only rules of one class ever compete in the end, because the most specific
rules that fit a position beat all others.  So a pass depends on the order of
the rules within their classes alone, and not on how the classes are mixed in
the list; and sorting the list by specificity, which is stable, keeps every
class as it is.
-/

namespace TreeGrowth

variable {K : Type}

/-! ## Lists with the same classes -/

def Rule.ofClass (rules : List (Rule K)) (predecessor : Word)
    (specificity : Nat) : List (Rule K) :=
  rules.filter fun r =>
    decide (r.predecessor = predecessor ∧ r.specificity = specificity)

/-- Every class has the same rules in the same order.  No rule asks for more
than two neighbours. -/
def Rule.SameClasses (rules rules' : List (Rule K)) : Prop :=
  ∀ predecessor, ∀ specificity ≤ 2,
    Rule.ofClass rules predecessor specificity =
      Rule.ofClass rules' predecessor specificity

theorem Rule.specificity_le_two (r : Rule K) : r.specificity ≤ 2 := by
  unfold Rule.specificity
  split <;> split <;> omega

theorem Rule.mem_ofClass_iff {rules : List (Rule K)} {r : Rule K}
    {predecessor : Word} {specificity : Nat} :
    r ∈ Rule.ofClass rules predecessor specificity ↔
      r ∈ rules ∧ r.predecessor = predecessor ∧
        r.specificity = specificity := by
  simp [Rule.ofClass]

theorem Rule.SameClasses.symm {rules rules' : List (Rule K)}
    (hclasses : Rule.SameClasses rules rules') :
    Rule.SameClasses rules' rules :=
  fun predecessor specificity hle =>
    (hclasses predecessor specificity hle).symm

theorem Rule.SameClasses.mem_iff {rules rules' : List (Rule K)}
    (hclasses : Rule.SameClasses rules rules') {r : Rule K} :
    r ∈ rules ↔ r ∈ rules' := by
  have hclass : ∀ rules : List (Rule K),
      r ∈ rules ↔ r ∈ Rule.ofClass rules r.predecessor r.specificity := by
    intro rules
    simp [Rule.mem_ofClass_iff]
  rw [hclass rules, hclass rules', hclasses _ _ r.specificity_le_two]

theorem Rule.SameClasses.eq_nil_iff {rules rules' : List (Rule K)}
    (hclasses : Rule.SameClasses rules rules') : rules = [] ↔ rules' = [] := by
  simp only [List.eq_nil_iff_forall_not_mem, hclasses.mem_iff]

/-! ## Sorting by specificity -/

theorem Rule.ofClass_sortBySpecificity (rules : List (Rule K))
    (predecessor : Word) (specificity : Nat) :
    Rule.ofClass (Rule.sortBySpecificity rules) predecessor specificity =
      Rule.ofClass rules predecessor specificity := by
  -- A class is a sorted part of the list, and a stable sort leaves it so.
  have hclass : (Rule.ofClass rules predecessor specificity).Pairwise
      fun r s => decide (s.specificity ≤ r.specificity) = true := by
    rw [List.pairwise_iff_forall_sublist]
    intro r s hpair
    have hr := Rule.mem_ofClass_iff.mp (hpair.subset (List.mem_cons_self ..))
    have hs := Rule.mem_ofClass_iff.mp
      (hpair.subset (List.mem_cons_of_mem r (List.mem_singleton_self s)))
    simp [hr.2.2, hs.2.2]
  have hkept : List.Sublist (Rule.ofClass rules predecessor specificity)
      (Rule.sortBySpecificity rules) := by
    refine List.sublist_mergeSort ?_ ?_ hclass List.filter_sublist
    · intro r s t hrs hst
      simp only [decide_eq_true_eq] at hrs hst ⊢
      omega
    · intro r s
      simp only [Bool.or_eq_true, decide_eq_true_eq]
      omega
  have hperm := (List.mergeSort_perm rules fun r s =>
    decide (s.specificity ≤ r.specificity)).filter fun r =>
      decide (r.predecessor = predecessor ∧ r.specificity = specificity)
  have hwithin := hkept.filter fun r =>
    decide (r.predecessor = predecessor ∧ r.specificity = specificity)
  simp only [Rule.ofClass, List.filter_filter, Bool.and_self] at hwithin
  exact (hwithin.eq_of_length hperm.length_eq.symm).symm

theorem Rule.sameClasses_sortBySpecificity (rules : List (Rule K)) :
    Rule.SameClasses (Rule.sortBySpecificity rules) rules :=
  fun predecessor specificity _ =>
    Rule.ofClass_sortBySpecificity rules predecessor specificity

/-! ## The most specific rules -/

theorem Rule.mostSpecific_eq_filter {rules : List (Rule K)} {best : Rule K}
    (hbest : best ∈ rules)
    (hmax : ∀ s ∈ rules, s.specificity ≤ best.specificity) :
    Rule.mostSpecific rules =
      rules.filter fun r => decide (r.specificity = best.specificity) := by
  apply List.filter_congr
  intro r hr
  rw [decide_eq_decide]
  constructor
  · intro hall
    exact Nat.le_antisymm (hmax r hr) (hall best hbest)
  · intro hsame s hs
    rw [hsame]
    exact hmax s hs

/-- The most specific rules depend on the classes of a list alone. -/
theorem Rule.mostSpecific_congr {rules rules' : List (Rule K)}
    (hlevels : ∀ specificity,
      rules.filter (fun r => decide (r.specificity = specificity)) =
        rules'.filter fun r => decide (r.specificity = specificity)) :
    Rule.mostSpecific rules = Rule.mostSpecific rules' := by
  have hmem : ∀ r : Rule K, r ∈ rules ↔ r ∈ rules' := by
    intro r
    have hlevel := congrArg (r ∈ ·) (hlevels r.specificity)
    simpa using hlevel
  cases hnone : Rule.mostSpecific rules with
  | nil =>
      have hrules := Rule.mostSpecific_eq_nil_iff.mp hnone
      have hrules' : rules' = [] := by
        rw [List.eq_nil_iff_forall_not_mem]
        intro r hr
        rw [← hmem, hrules] at hr
        simp at hr
      rw [Rule.mostSpecific_eq_nil_iff.mpr hrules']
  | cons best others =>
      obtain ⟨hbest, hmax⟩ :=
        Rule.mem_mostSpecific_iff.mp (hnone ▸ List.mem_cons_self)
      have hmax' : ∀ s ∈ rules', s.specificity ≤ best.specificity :=
        fun s hs => hmax s ((hmem s).mpr hs)
      rw [← hnone, Rule.mostSpecific_eq_filter hbest hmax, hlevels,
        Rule.mostSpecific_eq_filter ((hmem best).mp hbest) hmax']

/-! ## Passes -/

variable {rules rules' : List (Rule K)}

theorem Choice.eligible_congr (hclasses : Rule.SameClasses rules rules')
    (c : Char) (left right : Option Word) :
    Choice.eligible ((RuleTable.ofRules rules).candidates c) left right =
      Choice.eligible ((RuleTable.ofRules rules').candidates c) left right := by
  rw [Choice.eligible_eq_mostSpecific, Choice.eligible_eq_mostSpecific,
    RuleTable.candidates_ofRules, RuleTable.candidates_ofRules]
  apply Rule.mostSpecific_congr
  intro specificity
  have hlevel : ∀ rules : List (Rule K),
      ((rules.filter fun r => decide (r.predecessor = [c])).filter
          fun r => r.matchesContext left right).filter
            (fun r => decide (r.specificity = specificity)) =
        (Rule.ofClass rules [c] specificity).filter
          fun r => r.matchesContext left right := by
    intro rules
    simp only [Rule.ofClass, List.filter_filter]
    apply List.filter_congr
    intro r _
    rw [Bool.eq_iff_iff]
    simp only [Bool.and_eq_true, decide_eq_true_eq]
    tauto
  rw [hlevel, hlevel]
  by_cases hle : specificity ≤ 2
  · rw [hclasses [c] specificity hle]
  · have hnone : ∀ rules : List (Rule K),
        Rule.ofClass rules [c] specificity = [] := by
      intro rules
      rw [List.eq_nil_iff_forall_not_mem]
      intro r hr
      have hr := (Rule.mem_ofClass_iff.mp hr).2.2
      have hr' := r.specificity_le_two
      omega
    rw [hnone, hnone]

variable {G : Type} [Scalar K] [RandomSource G K]

theorem Scan.word_congr (hclasses : Rule.SameClasses rules rules')
    (limit : Nat) (left : Option Char) (word : Word) (scan : Scan G) :
    Scan.word (RuleTable.ofRules rules) limit left word scan =
      Scan.word (RuleTable.ofRules rules') limit left word scan := by
  have hsymbol : ∀ left c right (scan : Scan G),
      Scan.symbol (RuleTable.ofRules rules) left c right scan =
        Scan.symbol (RuleTable.ofRules rules') left c right scan := by
    intro left c right scan
    simp only [Scan.symbol, Choice.ofCandidates,
      Choice.eligible_congr hclasses]
  induction word generalizing left scan with
  | nil => rfl
  | cons c rest ih => simp only [Scan.word, hsymbol, ih]

/-- A pass depends on the order of the rules within their classes alone. -/
theorem rewritePass_congr (hclasses : Rule.SameClasses rules rules')
    (limit : Nat) (tally : Tally) (source : G) (word : Word) :
    rewritePass (RuleTable.ofRules rules) limit tally source word =
      rewritePass (RuleTable.ofRules rules') limit tally source word := by
  simp only [rewritePass, Scan.word_congr hclasses]

end TreeGrowth
