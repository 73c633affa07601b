import LodeDB.Filter.AndPlanSound

/-!
# Planning a metadata filter

The planner decides from counts and probes whether to return an empty or a full answer at once, to plan the filter as
a conjunction, to defer with the failing candidates or blindly, or to materialise the matching documents. The plan
keeps its promise about the documents the evaluator accepts, and planning a validated filter never fails.
-/

namespace LodeDB.Filter

open ExceptRules

variable {filter : Value}

section Plan

variable {N : Type*} [LinearOrder N] (asNumber : String → Option N) (fields : FieldIndexes) (allDocs : DocSet)
  (filter : Value)

/-- The plan for a filter the conjunctive planner leaves alone. -/
def planUnconjoined (matchingCount : Option ℕ) (matchingProbe failingProbe : Option ProbeInfo) :
    Except CoreError MetadataFilterPlan :=
  let total := allDocs.card
  let matchingCost := (matchingCount <|> matchingProbe.map ProbeInfo.count).getD usizeMax
  if failingProbe.any fun probe => saturatingMul probe.count refineCostRatio < matchingCost then
    (materializeProbe asNumber filter .failing fields allDocs).map fun failing =>
      .predicate ⟨none, none, some failing, false⟩
  else if matchingCount.any fun count =>
      saturatingMul count blindDeferDen > saturatingMul total blindDeferNum then
    .ok (.predicate ⟨matchingCount, matchingCount.map (total - ·), none, false⟩)
  else (resolveFilter asNumber filter fields allDocs).map .materialized

/-- Plan a validated metadata filter without materialising unselective matches. -/
def planMetadataFilter : Except CoreError MetadataFilterPlan := do
  let total := allDocs.card
  let matchingCount ← exactMatchingCount asNumber filter fields allDocs
  let matchingProbe ← probeInfo asNumber filter .matching fields allDocs
  let failingProbe ← probeInfo asNumber filter .failing fields allDocs
  if matchingCount = some 0 ∨ matchingProbe = some ⟨0⟩ then .ok (.materialized ∅)
  else if matchingCount = some total ∨ failingProbe = some ⟨0⟩ then
    .ok (.predicate ⟨some total, some 0, some ∅, true⟩)
  else do
    match ← planConjunctiveFilter asNumber fields allDocs filter with
    | some plan => .ok plan
    | none => planUnconjoined asNumber fields allDocs filter matchingCount matchingProbe failingProbe

/-- The best cheap bound on the number of matching documents. -/
def estimateMatchingCardinality : Except CoreError ℕ := do
  match ← exactMatchingCount asNumber filter fields allDocs with
  | some count => .ok count
  | none =>
    (probeInfo asNumber filter .matching fields allDocs).map fun probe =>
      (probe.map ProbeInfo.count).getD allDocs.card

end Plan

variable {N : Type*} [LinearOrder N] {asNumber : String → Option N} {corpus : Corpus} {fields : FieldIndexes}

/-- The count of a validated filter, if it is given. -/
theorem exactMatchingCount_counts (asNumber : String → Option N) (h : Indexes corpus fields)
    (hfilter : IsFilter filter) :
    Counts corpus (holds asNumber · filter) (exactMatchingCount asNumber filter fields corpus.allDocs) :=
  (counting_keeps asNumber h).sound.1 filter hfilter

/-- The probe of a validated filter bounds both of its sides. -/
theorem probeInfo_bounds (asNumber : String → Option N) (h : Indexes corpus fields) (hfilter : IsFilter filter)
    (side : ProbeSide) :
    Bounds corpus (side.test (holds asNumber · filter))
      (((probing asNumber fields corpus.allDocs.card).filter filter).exact side)
      (probeInfo asNumber filter side fields corpus.allDocs)
      (materializeProbe asNumber filter side fields corpus.allDocs) :=
  ((probing_keeps asNumber h).sound.1 filter hfilter).bounds side

/-- The plan for a filter the conjunctive planner leaves alone keeps its promise. -/
theorem planUnconjoined_completes (h : Indexes corpus fields) (hfilter : IsFilter filter)
    {matchingCount : Option ℕ} (matchingProbe : Option ProbeInfo) {failingProbe : Option ProbeInfo}
    (hcount : ∀ n, matchingCount = some n → n = (corpus.select (holds asNumber · filter)).card)
    (hfail : probeInfo asNumber filter .failing fields corpus.allDocs = .ok failingProbe) :
    ∃ plan, planUnconjoined asNumber fields corpus.allDocs filter matchingCount matchingProbe failingProbe =
      .ok plan ∧ plan.Completes corpus (holds asNumber · filter) := by
  unfold planUnconjoined
  simp only
  split
  · rename_i hdefer
    obtain ⟨bound, hbound, _⟩ := (Option.any_eq_true _ _).mp hdefer
    obtain ⟨result, hr, hfound⟩ := probeInfo_bounds asNumber h hfilter .failing
    have hsome : result = some bound := Except.ok.inj (hr.symm.trans (hfail.trans (congrArg _ hbound)))
    obtain ⟨docs, hdocs, hcands⟩ := hfound bound hsome
    rw [hdocs]
    exact ⟨_, rfl, hcands.superset, hcands.docs, by simp⟩
  · split
    · rename_i hblind
      obtain ⟨count, rfl, _⟩ := (Option.any_eq_true _ _).mp hblind
      refine ⟨_, rfl, ?_⟩
      simp [MetadataFilterPlan.Completes, hcount count rfl]
    · rw [resolveFilter_eq h hfilter]
      exact ⟨_, rfl, rfl⟩

/-- A bound of zero leaves nothing on its side. -/
theorem Bounds.eq_empty {test : Metadata → Bool} {exact : Prop} {info : Except CoreError (Option ProbeInfo)}
    {docs : Except CoreError DocSet} (h : Bounds corpus test exact info docs) (hzero : info = .ok (some ⟨0⟩)) :
    corpus.select test = ∅ := by
  obtain ⟨result, hr, hfound⟩ := h
  obtain ⟨found, _, hcands⟩ := hfound ⟨0⟩ (Except.ok.inj (hr.symm.trans hzero))
  have hempty : found = ∅ := Finset.card_eq_zero.mp (Nat.le_zero.mp hcands.card)
  exact Finset.subset_empty.mp (hempty ▸ hcands.superset)

/-- Planning a validated filter never fails, and the plan keeps its promise. -/
theorem planMetadataFilter_completes (asNumber : String → Option N) (h : Indexes corpus fields)
    (hfilter : IsFilter filter) :
    ∃ plan, planMetadataFilter asNumber fields corpus.allDocs filter = .ok plan ∧
      plan.Completes corpus (holds asNumber · filter) := by
  obtain ⟨count, hcount, hexact⟩ := exactMatchingCount_counts asNumber h hfilter
  have hmatchingBounds := probeInfo_bounds asNumber h hfilter .matching
  have hfailingBounds := probeInfo_bounds asNumber h hfilter .failing
  obtain ⟨matching, hmatch, _⟩ := hmatchingBounds
  obtain ⟨failing, hfail, _⟩ := hfailingBounds
  simp only [planMetadataFilter, hcount, hmatch, hfail, ok_bind]
  split
  · -- nothing matches
    rename_i hzero
    refine ⟨_, rfl, ?_⟩
    rcases hzero with rfl | rfl
    · exact (Finset.card_eq_zero.mp (hexact 0 rfl).symm).symm
    · exact ((probeInfo_bounds asNumber h hfilter .matching).eq_empty hmatch).symm
  · split
    · -- nothing fails
      rename_i htotal
      have hnone : corpus.select (ProbeSide.failing.test (holds asNumber · filter)) = ∅ := by
        rcases htotal with rfl | rfl
        · exact Corpus.select_not_eq_empty (hexact _ rfl).symm
        · exact (probeInfo_bounds asNumber h hfilter .failing).eq_empty hfail
      exact ⟨_, rfl, hnone.subset, Finset.empty_subset _, fun _ => hnone.symm⟩
    · obtain ⟨plan, hplan, hcompl⟩ := planConjunctiveFilter_plans asNumber h hfilter
      simp only [hplan, ok_bind]
      cases plan with
      | none => exact planUnconjoined_completes h hfilter matching hexact hfail
      | some chosen => exact ⟨chosen, rfl, hcompl chosen rfl⟩

/-- Estimating the matches of a validated filter never fails or falls short. -/
theorem estimateMatchingCardinality_ok (asNumber : String → Option N) (h : Indexes corpus fields)
    (hfilter : IsFilter filter) :
    ∃ bound, estimateMatchingCardinality asNumber fields corpus.allDocs filter = .ok bound ∧
      (corpus.select (holds asNumber · filter)).card ≤ bound := by
  obtain ⟨count, hcount, hexact⟩ := exactMatchingCount_counts asNumber h hfilter
  obtain ⟨matching, hmatch, hfound⟩ := probeInfo_bounds asNumber h hfilter .matching
  simp only [estimateMatchingCardinality, hcount, hmatch, ok_bind, Except.map]
  cases count with
  | some count => exact ⟨count, rfl, (hexact count rfl).ge⟩
  | none =>
    refine ⟨_, rfl, ?_⟩
    cases matching with
    | none => exact Finset.card_le_card (corpus.select_subset _)
    | some bound =>
      obtain ⟨_, _, hcands⟩ := hfound bound rfl
      exact (Finset.card_le_card hcands.superset).trans hcands.card

end LodeDB.Filter
