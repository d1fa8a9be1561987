import TreeGrowth.Proofs.Rewriting.Expansion
import TreeGrowth.Proofs.Growth.Isolation

/-!
# Balanced words

The brackets of a balanced word match.  A counter reads a word and fails at a
closing bracket for which none is open; it comes back from a balanced word to
where it began.  Rules that rewrite no bracket and write balanced words leave
the counter of every word as it is, so a run from a balanced word stays with
balanced words, and with a prefix of one where the limit cuts a pass short.
-/

namespace TreeGrowth

/-! ## Matching and counting -/

inductive Balanced : Word → Prop
  | nil : Balanced []
  | symbol {c : Char} {w : Word} (hopen : c ≠ '[') (hclose : c ≠ ']')
      (hw : Balanced w) : Balanced (c :: w)
  | branch {u v : Word} (hu : Balanced u) (hv : Balanced v) :
      Balanced ('[' :: (u ++ ']' :: v))

/-- The number of open brackets after one more symbol; there is none if a
bracket is closed that is not open. -/
def bracketStep (n : Nat) (c : Char) : Option Nat :=
  if c = '[' then some (n + 1)
  else if c = ']' then if n = 0 then none else some (n - 1)
  else some n

def openAfter? (n : Nat) (word : Word) : Option Nat :=
  word.foldlM bracketStep n

theorem openAfter?_cons (n : Nat) (c : Char) (word : Word) :
    openAfter? n (c :: word) =
      (bracketStep n c).bind fun n => openAfter? n word := by
  simp [openAfter?, List.foldlM_cons, Option.bind_eq_bind]

theorem openAfter?_append (n : Nat) (u v : Word) :
    openAfter? n (u ++ v) =
      (openAfter? n u).bind fun n => openAfter? n v := by
  simp [openAfter?, List.foldlM_append, Option.bind_eq_bind]

theorem bracketStep_of_ne {c : Char} (hopen : c ≠ '[') (hclose : c ≠ ']')
    (n : Nat) : bracketStep n c = some n := by
  rw [bracketStep, if_neg hopen, if_neg hclose]

theorem Balanced.openAfter? {w : Word} (hw : Balanced w) (n : Nat) :
    openAfter? n w = some n := by
  induction hw generalizing n with
  | nil => rfl
  | symbol hopen hclose _ ih =>
      rw [openAfter?_cons, bracketStep_of_ne hopen hclose, Option.bind_some,
        ih]
  | branch _ _ ihu ihv =>
      rw [openAfter?_cons]
      change (TreeGrowth.openAfter? (n + 1) _) = _
      rw [openAfter?_append, ihu, Option.bind_some, openAfter?_cons]
      exact ihv n

theorem exists_openAfter?_of_prefix {u w : Word} {n m : Nat} (hinitial : u <+: w)
    (hw : openAfter? n w = some m) : ∃ j, openAfter? n u = some j := by
  obtain ⟨v, rfl⟩ := hinitial
  rw [openAfter?_append] at hw
  obtain ⟨j, hu, _⟩ := Option.bind_eq_some_iff.mp hw
  exact ⟨j, hu⟩

/-! ## Rewriting balanced words -/

section Rewriting

variable {K G : Type}

/-- A rule that neither rewrites a bracket nor writes one that does not
match. -/
structure Rule.KeepsBrackets (r : Rule K) : Prop where
  successor : Balanced r.successor
  not_open : r.predecessor ≠ ['[']
  not_close : r.predecessor ≠ [']']

theorem openAfter?_written {choices : List (Choice K)} {word : Word}
    (hlength : choices.length = word.length)
    (hpiece : ∀ (i : Nat) (choice : Choice K) (c : Char),
      choices[i]? = some choice → word[i]? = some c →
        ∀ n, openAfter? n (choice.piece c) = bracketStep n c)
    (n : Nat) : openAfter? n (written choices word) = openAfter? n word := by
  induction choices generalizing word n with
  | nil =>
      obtain rfl := List.length_eq_zero_iff.mp hlength.symm
      rfl
  | cons choice choices ih =>
      cases word with
      | nil => simp at hlength
      | cons c word =>
          have hrest : ∀ m, openAfter? m (written choices word) =
              openAfter? m word :=
            ih (by simpa using hlength) fun i => hpiece (i + 1)
          have hcons : written (choice :: choices) (c :: word) =
              choice.piece c ++ written choices word := rfl
          rw [hcons, openAfter?_append, hpiece 0 choice c rfl rfl,
            openAfter?_cons]
          simp only [hrest]

theorem Choice.IsRightFor.openAfter?_piece {rules : List (Rule K)}
    (hrules : ∀ r ∈ rules, r.KeepsBrackets) {word : Word} {i : Nat} {c : Char}
    (hc : word[i]? = some c) {choice : Choice K}
    (hright : choice.IsRightFor (bestFits rules word i)) (n : Nat) :
    openAfter? n (choice.piece c) = bracketStep n c := by
  have hfired : ∀ r ∈ bestFits rules word i,
      openAfter? n r.successor = bracketStep n c := by
    intro r hr
    obtain ⟨hmem, hfits, _⟩ := mem_bestFits_iff.mp hr
    obtain ⟨hsuccessor, hopen, hclose⟩ := hrules r hmem
    have hpredecessor : r.predecessor = [c] := by
      have := hfits.1
      rw [hc] at this
      exact (Option.some.inj this).symm
    rw [hsuccessor.openAfter?, bracketStep_of_ne]
    · rintro rfl
      exact hopen hpredecessor
    · rintro rfl
      exact hclose hpredecessor
  cases choice with
  | keep =>
      change openAfter? n [c] = _
      rw [openAfter?_cons]
      cases bracketStep n c <;> rfl
  | forced r =>
      have hbest : bestFits rules word i = [r] := hright
      exact hfired r (by simp [hbest])
  | drawn r => exact hfired r hright.1

variable [Scalar K] [RandomSource G K]

theorem openAfter?_expansion {rules : List (Rule K)}
    (hrules : ∀ r ∈ rules, r.KeepsBrackets) (word : Word) (source : G)
    (n : Nat) :
    openAfter? n (expansion rules word source) = openAfter? n word := by
  have hright := decideAll_isRightFor rules word
    (List.range word.length) source
  have hlength : (decisions rules word source).1.length = word.length := by
    rw [decisions, length_decideAll, List.length_range]
  apply openAfter?_written hlength
  intro i choice c hchoice hc m
  refine Choice.IsRightFor.openAfter?_piece hrules hc ?_ m
  obtain ⟨hi, rfl⟩ := List.getElem?_eq_some_iff.mp hchoice
  have hat := (List.forall₂_iff_get.mp hright).2 i
    (by simpa [← hlength] using hi) hi
  simpa [decisions] using hat

end Rewriting

/-! ## Runs from balanced words -/

variable {G σ : Type} [SeededSource G Float]

/-- The last pass of a run was cut short at the limit. -/
def Run.WasCut (requested : Int) (run : Run G σ) (result : RunResult) :
    Prop :=
  ∃ source : G,
    SeededSource.ofSeed run.engine.entropy run.engine.settings.seed =
      .ok source ∧
    ((RunPlan.ofEngine requested run.engine).stage source
      result.statistics.passes).truncated = true

theorem RunPlan.openAfter?_stage (e : Engine G) (requested : Int) (source : G)
    (hstart : Balanced e.start) (hrules : ∀ r ∈ e.rules, r.KeepsBrackets)
    {k : Nat} (hk : k ≤ (RunPlan.ofEngine requested e).lastStage source) :
    let stage := (RunPlan.ofEngine requested e).stage source k
    (∃ n, openAfter? 0 stage.word = some n) ∧
      (stage.truncated = false → openAfter? 0 stage.word = some 0) := by
  intro stage
  -- No pass before the last stage is cut, so its word is closed; only the
  -- last pass can leave a prefix of a closed word.
  induction k with
  | zero => exact ⟨⟨0, hstart.openAfter? 0⟩, fun _ => hstart.openAfter? 0⟩
  | succ k ih =>
      have hbefore := (ih (Nat.le_of_succ_le hk)).2
        (RunPlan.truncated_eq_false_of_lt hk)
      set before := (RunPlan.ofEngine requested e).stage source k
      have hexpansion :
          openAfter? 0 (expansion e.rules before.word before.source) =
            some 0 := by
        rw [openAfter?_expansion hrules, hbefore]
      have hword : stage.word =
          (expansion e.rules before.word before.source).take
            e.settings.lengthLimit :=
        rewritePass_word e.rules _ _ _ _
      constructor
      · rw [hword]
        exact exists_openAfter?_of_prefix (List.take_prefix _ _) hexpansion
      · intro hwhole
        have hle : (expansion e.rules before.word before.source).length ≤
            e.settings.lengthLimit := by
          by_contra hlt
          have htruncated : stage.truncated = true :=
            (rewritePass_truncated_iff e.rules e.settings.lengthLimit
              before.tally before.source before.word).mpr (by omega)
          rw [hwhole] at htruncated
          exact Bool.false_ne_true htruncated
        rw [hword, List.take_of_length_le hle, hexpansion]

/-- What a run from a balanced word returns closes no bracket that is not
open, and leaves none open unless its last pass was cut. -/
theorem Run.openAfter?_result (run : Run G σ) (observer : Observer G σ)
    (requested : Int) (hstart : Balanced run.engine.start)
    (hrules : ∀ r ∈ run.engine.rules, r.KeepsBrackets) {result : RunResult}
    (hresult : (run.generate requested observer).1 = .ok result) :
    (∃ n, openAfter? 0 result.word = some n) ∧
      (¬run.WasCut requested result → openAfter? 0 result.word = some 0) := by
  rcases run.generate_not_begun requested observer with
    ⟨fault, _, hfailed⟩ | ⟨fault, _, _, hrefused⟩ | ⟨source, hfault, hsource⟩
  · rw [hfailed] at hresult
    obtain rfl := Except.ok.inj hresult
    exact ⟨⟨0, rfl⟩, fun _ => rfl⟩
  · rw [hrefused] at hresult
    simp at hresult
  · obtain ⟨k, hk, early, rfl⟩ :=
      run.exists_eq_resultAt observer requested hfault hsource hresult
    obtain ⟨hinitial, hwhole⟩ := RunPlan.openAfter?_stage run.engine requested
      source hstart hrules hk
    refine ⟨hinitial, ?_⟩
    intro huncut
    apply hwhole
    by_contra htruncated
    have hcut : ((RunPlan.ofEngine requested run.engine).stage source
        k).truncated = true := by simpa using htruncated
    exact huncut ⟨source, hsource, hcut⟩

end TreeGrowth
