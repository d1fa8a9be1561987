import TreeGrowth.Proofs.Growth.Length
import TreeGrowth.Proofs.Rewriting.Counting

/-!
# The statistics of a run

The tally of a run is the sum of what there was to count in its passes, each at
the positions that it scanned.  So it tells of the words that were rewritten
and of the rules that fit them, and of the dice only as far as they made those
words.  The symbols of the last word are counted one by one.
-/

namespace TreeGrowth

/-! ## Counting symbols -/

namespace SymbolCounts

/-- The number that is held for a symbol, which is zero if there is none. -/
def occurrences (counts : SymbolCounts) (c : Char) : Nat :=
  (counts.lookup c).getD 0

/-- Every symbol has one entry at most, and the entries ascend. -/
def Ascending (counts : SymbolCounts) : Prop :=
  counts.Pairwise fun a b => a.1 < b.1

theorem sum_add (c : Char) (counts : SymbolCounts) :
    ((add c counts).map Prod.snd).sum = (counts.map Prod.snd).sum + 1 := by
  induction counts with
  | nil => rfl
  | cons entry rest ih =>
      rw [add]
      split
      next =>
        simp only [List.map_cons, List.sum_cons]
        omega
      next =>
        split
        next =>
          simp only [List.map_cons, List.sum_cons]
          omega
        next =>
          simp only [List.map_cons, List.sum_cons, ih]
          omega

theorem mem_add {c : Char} {counts : SymbolCounts} {entry : Char × Nat}
    (hentry : entry ∈ add c counts) :
    entry.1 = c ∨ ∃ other ∈ counts, entry.1 = other.1 := by
  induction counts with
  | nil =>
      obtain rfl := List.mem_singleton.mp hentry
      exact .inl rfl
  | cons first rest ih =>
      rw [add] at hentry
      split at hentry
      next hsame =>
        rcases List.mem_cons.mp hentry with rfl | hrest
        · exact .inl hsame.symm
        · exact .inr ⟨entry, List.mem_cons_of_mem _ hrest, rfl⟩
      next =>
        split at hentry
        next =>
          rcases List.mem_cons.mp hentry with rfl | hold
          · exact .inl rfl
          · exact .inr ⟨entry, hold, rfl⟩
        next =>
          rcases List.mem_cons.mp hentry with rfl | hrest
          · exact .inr ⟨_, List.mem_cons_self, rfl⟩
          · refine (ih hrest).imp_right ?_
            rintro ⟨other, hother, hsame⟩
            exact ⟨other, List.mem_cons_of_mem _ hother, hsame⟩

theorem Ascending.lt_of_lt_head {first : Char × Nat} {rest : SymbolCounts}
    (hcounts : Ascending (first :: rest)) {c : Char} (hbefore : c < first.1) :
    ∀ entry ∈ first :: rest, c < entry.1 := by
  intro entry hentry
  rcases List.mem_cons.mp hentry with rfl | hlater
  · exact hbefore
  · exact hbefore.trans ((List.pairwise_cons.mp hcounts).1 entry hlater)

theorem Ascending.add {counts : SymbolCounts} (hcounts : counts.Ascending)
    (c : Char) : (add c counts).Ascending := by
  induction counts with
  | nil => exact List.pairwise_singleton _ _
  | cons first rest ih =>
      obtain ⟨hfirst, hrest⟩ := List.pairwise_cons.mp hcounts
      rw [SymbolCounts.add]
      split
      next => exact List.pairwise_cons.mpr ⟨hfirst, hrest⟩
      next hother =>
        split
        next hbefore =>
          exact List.pairwise_cons.mpr
            ⟨hcounts.lt_of_lt_head hbefore, hcounts⟩
        next hbehind =>
          refine List.pairwise_cons.mpr ⟨?_, ih hrest⟩
          intro entry hentry
          rcases mem_add hentry with hnew | ⟨other, hold, hsame⟩
          · rw [hnew]
            exact lt_of_le_of_ne (not_lt.mp hbehind) (Ne.symm hother)
          · rw [hsame]
            exact hfirst other hold

theorem occurrences_cons (entry : Char × Nat) (rest : SymbolCounts)
    (c : Char) :
    occurrences (entry :: rest) c =
      if c = entry.1 then entry.2 else occurrences rest c := by
  simp only [occurrences, List.lookup]
  by_cases hsame : c = entry.1
  · simp [hsame]
  · have hother : (c == entry.1) = false := by simpa using hsame
    simp [hother, hsame]

theorem occurrences_eq_zero_of_lt {counts : SymbolCounts} {c : Char}
    (hbefore : ∀ entry ∈ counts, c < entry.1) : occurrences counts c = 0 := by
  induction counts with
  | nil => rfl
  | cons first rest ih =>
      rw [List.forall_mem_cons] at hbefore
      rw [occurrences_cons, if_neg hbefore.1.ne, ih hbefore.2]

theorem Ascending.occurrences_add {counts : SymbolCounts}
    (hcounts : counts.Ascending) (c d : Char) :
    occurrences (SymbolCounts.add c counts) d =
      occurrences counts d + if c = d then 1 else 0 := by
  induction counts with
  | nil =>
      rw [SymbolCounts.add, occurrences_cons]
      by_cases hsame : c = d
      · simp [hsame, occurrences]
      · simp [hsame, Ne.symm hsame]
  | cons first rest ih =>
      obtain ⟨hfirst, hrest⟩ := List.pairwise_cons.mp hcounts
      rw [SymbolCounts.add]
      split
      next hknown =>
        simp only [occurrences_cons, hknown, @eq_comm _ d]
        split <;> rfl
      next hother =>
        split
        next hbefore =>
          -- The symbol comes before all entries, so there is none for it yet.
          rw [occurrences_cons]
          by_cases hsame : d = c
          · have hnone : occurrences (first :: rest) c = 0 :=
              occurrences_eq_zero_of_lt (hcounts.lt_of_lt_head hbefore)
            simp [hsame, hnone]
          · simp [hsame, Ne.symm hsame]
        next =>
          simp only [occurrences_cons, ih hrest]
          by_cases hsame : d = first.1
          · simp [hsame, hother]
          · simp [hsame]

theorem ofWord_concat (word : Word) (c : Char) :
    ofWord (word ++ [c]) = add c (ofWord word) := by
  rw [ofWord, List.foldl_concat]
  rfl

theorem sum_ofWord (word : Word) :
    ((ofWord word).map Prod.snd).sum = word.length := by
  induction word using List.reverseRecOn with
  | nil => rfl
  | append_singleton word c ih =>
      rw [ofWord_concat, sum_add, ih, List.length_append, List.length_singleton]

theorem ascending_ofWord (word : Word) : (ofWord word).Ascending := by
  induction word using List.reverseRecOn with
  | nil => exact List.Pairwise.nil
  | append_singleton word c ih =>
      rw [ofWord_concat]
      exact ih.add c

theorem occurrences_ofWord (word : Word) (d : Char) :
    (ofWord word).occurrences d = word.count d := by
  induction word using List.reverseRecOn with
  | nil => rfl
  | append_singleton word c ih =>
      rw [ofWord_concat, (ascending_ofWord word).occurrences_add, ih,
        List.count_append, List.count_singleton]
      simp

end SymbolCounts

/-! ## Counting in the passes of a run -/

variable {G σ : Type} [SeededSource G Float]

/-- The number of positions that the pass after a stage scans. -/
def RunPlan.scannedAt (plan : RunPlan) (rules : List (Rule Float)) (source : G)
    (k : Nat) : Nat :=
  scanned rules plan.settings.lengthLimit (plan.stage source k).word
    (plan.stage source k).source

theorem RunPlan.tally_stage (e : Engine G) (requested : Int) (source : G)
    (k : Nat) :
    let plan := RunPlan.ofEngine requested e
    (plan.stage source k).tally =
      ∑ j ∈ Finset.range k,
        Tally.ofPositions e.rules (plan.stage source j).word
          (plan.scannedAt e.rules source j) := by
  intro plan
  induction k with
  | zero => rfl
  | succ k ih =>
      rw [Finset.sum_range_succ, ← ih]
      exact tally_rewritePass e.rules e.settings.lengthLimit
        (plan.stage source k).tally (plan.stage source k).source
        (plan.stage source k).word

theorem RunPlan.length_historyAt (plan : RunPlan) (source : G) (k : Nat) :
    (plan.historyAt source k).length =
      if plan.settings.keepHistory = true then k + 1 else 0 := by
  rw [RunPlan.historyAt]
  split <;> simp

/-- The statistics of a run that does not fail, however it is observed, count
what its passes have met.  The tally adds up, over the passes, the scanned
positions that some rule fits, those that a rule with a context fits, and those
with several best fits; a pass scans its whole word or, if it is cut, the
shortest prefix whose rewriting exceeds the limit.  So passes over one word
that are not cut count the same, whatever they draw from. -/
theorem statistics_count_passes (e : Engine G) (requested : Int)
    (observer : Observer G σ) (cancelled : Bool) (memory : σ)
    {result : RunResult} :
    let run : Run G σ := { engine := e, cancelled, memory }
    (run.generate requested observer).1 = .ok result →
      result.status ≠ .failure →
    let plan := RunPlan.ofEngine requested e
    let limit := e.settings.lengthLimit
    let statistics := result.statistics
    let passes := statistics.passes
    (∃ source : G,
      SeededSource.ofSeed e.entropy e.settings.seed = .ok source ∧
      let before (j : Nat) := plan.stage source j
      let cut (j : Nat) := (plan.stage source (j + 1)).truncated
      let scanned (j : Nat) := plan.scannedAt e.rules source j
      run.told requested observer =
          (List.range passes).map (fun j => (j + 1, (before (j + 1)).word)) ∧
        (before 0).word = e.start ∧
        statistics.tally = ∑ j ∈ Finset.range passes,
          Tally.ofPositions e.rules (before j).word (scanned j) ∧
        ∀ j < passes,
          (cut j = false → scanned j = (before j).word.length) ∧
          (cut j = true →
            IsLeast {n | limit <
              (rewritten e.rules (before j).word (before j).source n).length}
              (scanned j))) ∧
    (∀ {H : Type} [RandomSource H Float] (tally : Tally) (source : G)
        (other : H) (word : Word),
      let pass := rewritePass plan.table limit tally source word
      let again := rewritePass plan.table limit tally other word
      pass.truncated = false → again.truncated = false →
        pass.tally = again.tally) ∧
    (statistics.symbols.map Prod.snd).sum = statistics.length ∧
    (∀ c, statistics.symbols.occurrences c = result.word.count c) ∧
    statistics.length = result.word.length ∧
    result.history.length =
      if e.settings.keepHistory = true then passes + 1 else 0 := by
  intro run hresult hstatus plan limit statistics passes
  rcases run.generate_not_begun requested observer with
    ⟨fault, _, hfailed⟩ | ⟨fault, _, _, hrefused⟩ | ⟨source, hfault, hsource⟩
  · rw [hfailed] at hresult
    obtain rfl := Except.ok.inj hresult
    exact absurd rfl hstatus
  · rw [hrefused] at hresult
    simp at hresult
  obtain ⟨k, _, htold, hresults⟩ :=
    run.exists_told_eq observer requested hfault hsource
  obtain ⟨early, rfl⟩ := hresults result hresult
  refine ⟨⟨source, hsource, htold, rfl, ?_, ?_⟩, ?_, ?_, ?_, rfl, ?_⟩
  · exact RunPlan.tally_stage e requested source k
  · intro j _
    exact ⟨scanned_eq_length, isLeast_scanned⟩
  · intro H _ tally source other word pass again hpass hagain
    have htally := tally_rewritePass e.rules limit tally source word
    have htally' := tally_rewritePass e.rules limit tally other word
    rw [scanned_eq_length hpass] at htally
    rw [scanned_eq_length hagain] at htally'
    exact htally.trans htally'.symm
  · exact SymbolCounts.sum_ofWord _
  · exact SymbolCounts.occurrences_ofWord _
  · exact plan.length_historyAt source k

/-- An engine whose first pass is cut before it comes to the last symbol. -/
def Engine.overgrown : Engine Pcg64 :=
  { Engine.sample with
    start := ['A', 'B', 'A', 'A']
    rules :=
      [.ofWords [] ['A'] [] ['A', 'B'] 0.5,
        .ofWords [] ['A'] [] ['B', 'A'] 0.5,
        .ofWords ['A'] ['B'] [] ['B', 'A'] 1.0]
    settings :=
      { Engine.sample.settings with
        lengthLimit := 5
        lengthLimit_pos := by decide
        lengthLimit_le := by decide } }

theorem statistics_count_passes_sample :
    let e := Engine.overgrown
    let run : Run Pcg64 Unit := { engine := e, cancelled := false, memory := () }
    ∃ (result : RunResult) (source : Pcg64),
      (run.generate 4 .idle).1 = .ok result ∧ result.status ≠ .failure ∧
        result.statistics.tally =
          { rewritten := 3, inContext := 1, drawn := 2 } ∧
        result.statistics.tally = Tally.ofPositions e.rules e.start
          ((RunPlan.ofEngine 4 e).scannedAt e.rules source 0) ∧
        (result.statistics.symbols.map Prod.snd).sum = 5 := by
  intro e run
  have hsummary : ((run.generate 4 .idle).1.map fun result =>
      (result.status, result.statistics.passes, result.statistics.length,
        result.statistics.tally)).toOption =
      some (.success, 1, 5, { rewritten := 3, inContext := 1, drawn := 2 }) := by
    decide +kernel
  cases hresult : (run.generate 4 .idle).1 with
  | error fault =>
      rw [hresult] at hsummary
      simp [Except.map, Except.toOption] at hsummary
  | ok result =>
      rw [hresult] at hsummary
      simp only [Except.map, Except.toOption, Option.some.injEq,
        Prod.mk.injEq] at hsummary
      obtain ⟨hsuccess, hpasses, hlength, htally⟩ := hsummary
      have hstatus : result.status ≠ .failure := by simp [hsuccess]
      obtain ⟨⟨source, _, _, _, hcounted, _⟩, _, hsymbols, _⟩ :=
        statistics_count_passes e 4 .idle false () hresult hstatus
      rw [hpasses, Finset.sum_range_one] at hcounted
      exact ⟨result, source, rfl, hstatus, htally, hcounted,
        hsymbols.trans hlength⟩

end TreeGrowth
