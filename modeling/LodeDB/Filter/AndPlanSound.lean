import LodeDB.Filter.AndPlan

/-!
# The conjunctive plans complete to the matching documents

`Completes` says how far a plan of each shape approximates the matching documents and from which side, so that
completing it with the per-document predicate gives exactly those. Every conjunctive plan keeps its promise, and
planning a conjunction never fails.
-/

namespace LodeDB.Filter

open ExceptRules SortedSet SortedRun

variable {N : Type*} [LinearOrder N] {asNumber : String → Option N} {corpus : Corpus} {fields : FieldIndexes}

variable {stat : ConjunctStats} {anchor : ConjunctStats × ℕ} {total : ℕ} {filter : Value}

/-- What a plan promises about the documents a test selects. -/
def MetadataFilterPlan.Completes (corpus : Corpus) (test : Metadata → Bool) : MetadataFilterPlan → Prop
  | .materialized docs => docs = corpus.select test
  | .filteredCandidates docs => corpus.select test ⊆ docs ∧ docs ⊆ corpus.allDocs
  | .anchoredDenylist anchor failing =>
    corpus.select test ⊆ anchor ∧ anchor ⊆ corpus.allDocs ∧ anchor \ failing ⊆ corpus.select test
  | .predicate plan =>
    match plan.failingCandidates with
    | some failing =>
      corpus.select (ProbeSide.failing.test test) ⊆ failing ∧ failing ⊆ corpus.allDocs ∧
        (plan.failingExact = true → failing = corpus.select (ProbeSide.failing.test test))
    | none =>
      plan.matchingCount = some (corpus.select test).card ∧
        plan.failingCount = some (corpus.allDocs.card - (corpus.select test).card)

/-- Planning succeeds, and a plan that is returned keeps its promise. -/
def Plans (corpus : Corpus) (test : Metadata → Bool) (result : Except CoreError (Option MetadataFilterPlan)) :
    Prop :=
  Gives (·.Completes corpus test) result

/-- The first plan that applies keeps its promise if all of them do. -/
theorem Plans.first {test : Metadata → Bool} {plans : List (Except CoreError (Option MetadataFilterPlan))}
    (h : ∀ plan ∈ plans, Plans corpus test plan) : Plans corpus test (firstPlan plans) := by
  induction plans with
  | nil => exact .none
  | cons plan rest ih =>
    obtain ⟨result, hr, hcompl⟩ := h plan List.mem_cons_self
    simp only [firstPlan, hr, ok_bind]
    cases result with
    | none => exact ih fun plan hplan => h plan (List.mem_cons_of_mem _ hplan)
    | some chosen => exact .some (hcompl chosen rfl)

/-- The complement of a posting holds the other documents. -/
theorem complementPosting_eq (allDocs posting : DocSet) : complementPosting allDocs posting = allDocs \ posting := by
  ext id
  rw [complementPosting, List.mem_toFinset,
    mem_differenceMerge (ascending_pairwise allDocs) (ascending_pairwise posting)]
  simp

/-- Keeping documents by a test that never fails filters them. -/
theorem keepDocs_eq {test : String → Except CoreError Bool} (passes : String → Bool) {docs : DocSet}
    (h : ∀ id ∈ docs, test id = .ok (passes id)) : keepDocs test (ascending docs) = .ok (docs.filter (passes · = true)) := by
  have hkept (ids : List String) (hids : ∀ id ∈ ids, test id = .ok (passes id)) :
      keepDocs test ids = .ok (ids.toFinset.filter (passes · = true)) := by
    induction ids with
    | nil => rfl
    | cons id rest ih =>
      simp only [keepDocs, hids id List.mem_cons_self, ok_bind,
        ih fun other hother => hids other (List.mem_cons_of_mem _ hother), List.toFinset_cons, Finset.filter_insert]
  rw [hkept _ fun id hid => h id (mem_ascending.mp hid), toFinset_ascending]

/-- Keeping the documents whose metadata passes a test that never fails. -/
theorem keepDocs_select {test : String → Except CoreError Bool} (passes : Metadata → Bool) {docs : DocSet}
    (h : ∀ id ∈ docs, test id = .ok (corpus[id]?.any passes)) :
    keepDocs test (ascending docs) = .ok (docs ∩ corpus.select passes) := by
  rw [keepDocs_eq _ h]
  congr 1
  ext id
  simp only [Finset.mem_filter, Finset.mem_inter, Corpus.mem_select, Option.any_eq_true]

/-- A conjunct of a validated filter. -/
def AndConjunct.Valid : AndConjunct → Prop
  | .entry part => IsEntry part
  | .filter part => IsFilter part

/-- Whether metadata satisfies a conjunct. -/
def AndConjunct.test (asNumber : String → Option N) (conjunct : AndConjunct) (metadata : Metadata) : Bool :=
  match conjunct with
  | .entry part => holdsEntry asNumber metadata part
  | .filter part => holds asNumber metadata part

/-- What every step of a walk keeps holds of every conjunct. -/
theorem Traversal.Keeps.conjunct {A : Type*} {walk : Traversal A} {Sound : (Metadata → Bool) → A → Prop}
    (h : walk.Keeps asNumber Sound) {conjunct : AndConjunct} (hvalid : conjunct.Valid) :
    Sound (conjunct.test asNumber) (conjunct.walk walk) := by
  cases conjunct with
  | entry part => exact h.sound.2 part hvalid
  | filter part => exact h.sound.1 part hvalid

/-- The bound the statistics hold for one side. -/
def ConjunctStats.probe (stat : ConjunctStats) : ProbeSide → Option ProbeInfo
  | .matching => stat.matchingProbe
  | .failing => stat.failingProbe

/-- Statistics that tell the truth about their conjunct. -/
structure ConjunctStats.Sound (asNumber : String → Option N) (corpus : Corpus) (fields : FieldIndexes)
    (stat : ConjunctStats) : Prop where
  valid : stat.conjunct.Valid
  info : ∀ side, (conjunctProbe asNumber fields corpus.allDocs stat.conjunct).info side = .ok (stat.probe side)
  matchingExact : (conjunctProbe asNumber fields corpus.allDocs stat.conjunct).matchingExact =
    .ok stat.matchingProbeExact

/-- The statistics of a conjunct are computed without an error and tell the truth. -/
theorem conjunctStats_sound (asNumber : String → Option N) (h : Indexes corpus fields) {conjunct : AndConjunct}
    (hvalid : conjunct.Valid) :
    ∃ stat, conjunctStats asNumber fields corpus.allDocs conjunct = .ok stat ∧
      stat.conjunct = conjunct ∧ stat.Sound asNumber corpus fields := by
  obtain ⟨count, hcount, _⟩ := (counting_keeps asNumber h).conjunct hvalid
  have hprobe := (probing_keeps asNumber h).conjunct hvalid
  obtain ⟨matching, hmatch, _⟩ := hprobe.bounds .matching
  obtain ⟨failing, hfail, _⟩ := hprobe.bounds .failing
  obtain ⟨exact, hexact⟩ := hprobe.decided
  refine ⟨⟨conjunct, count, matching, count.map (corpus.allDocs.card - ·), failing, exact⟩, ?_, rfl,
    hvalid, fun side => ?_, hexact⟩
  · simp only [conjunctStats, hcount, ok_bind]
    simp only [conjunctProbe, hmatch, hfail, hexact, ok_bind]
  · cases side with
    | matching => exact hmatch
    | failing => exact hfail

/-- Whether metadata satisfies every conjunct. -/
def allConjuncts (asNumber : String → Option N) (stats : List ConjunctStats) (metadata : Metadata) : Bool :=
  (stats.map fun stat => stat.conjunct.test asNumber metadata).all id

/-- The candidates of a conjunct on a side it has a probe for. -/
theorem ConjunctStats.Sound.docs (hstat : stat.Sound asNumber corpus fields) (h : Indexes corpus fields)
    (side : ProbeSide) (hprobe : (stat.probe side).isSome = true) :
    ∃ docs count, materializeConjunctProbe asNumber fields corpus.allDocs side stat = .ok docs ∧
      Candidates corpus (side.test (stat.conjunct.test asNumber))
        ((conjunctProbe asNumber fields corpus.allDocs stat.conjunct).exact side) count docs := by
  obtain ⟨bound, hbound⟩ := Option.isSome_iff_exists.mp hprobe
  have hinfo := (hstat.info side).trans (congrArg Except.ok hbound)
  obtain ⟨result, hr, hfound⟩ := ((probing_keeps asNumber h).conjunct hstat.valid).bounds side
  obtain ⟨docs, hdocs, hcands⟩ := hfound bound (Except.ok.inj (hr.symm.trans hinfo))
  exact ⟨docs, _, hdocs, hcands⟩

/-- The exact failing documents of a conjunct with a failing probe. -/
theorem ConjunctStats.Sound.exactFailingDocs_eq (hstat : stat.Sound asNumber corpus fields)
    (h : Indexes corpus fields) (hprobe : stat.failingProbe.isSome = true) :
    Resolves corpus (ProbeSide.failing.test (stat.conjunct.test asNumber))
      (exactFailingDocs asNumber fields corpus.allDocs stat) := by
  obtain ⟨docs, _, hdocs, hcands⟩ := hstat.docs h .failing hprobe
  simp only [Resolves, exactFailingDocs, hdocs, ok_bind]
  split
  · rename_i hflag
    rw [hcands.equal hflag]
  · -- every candidate is a document, and is kept exactly if it fails the conjunct
    rw [keepDocs_select (ProbeSide.failing.test (stat.conjunct.test asNumber)) fun id hid => ?_,
      Finset.inter_eq_right.mpr hcands.superset]
    obtain ⟨metadata, hmeta⟩ := Corpus.mem_allDocs.mp (hcands.docs hid)
    rw [(indexedEvaluation_keeps asNumber h hmeta).conjunct hstat.valid, hmeta]
    rfl

/-- Uniting candidates, from a set of documents on, covers every part. -/
theorem uniteFrom_superset {ι : Type} (test : ι → Metadata → Bool) {result : ι → Except CoreError DocSet}
    (parts : List ι) (h : ∀ part ∈ parts, ∃ docs, result part = .ok docs ∧
      corpus.select (test part) ⊆ docs ∧ docs ⊆ corpus.allDocs) (docs : DocSet) (hdocs : docs ⊆ corpus.allDocs) :
    ∃ united, uniteFrom docs (parts.map result) = .ok united ∧ docs ⊆ united ∧
      (∀ part ∈ parts, corpus.select (test part) ⊆ united) ∧ united ⊆ corpus.allDocs := by
  induction parts generalizing docs with
  | nil => exact ⟨docs, rfl, Finset.Subset.refl _, by simp, hdocs⟩
  | cons part rest ih =>
    obtain ⟨found, hfound, hsup, hsubset⟩ := h part List.mem_cons_self
    obtain ⟨united, hunited, hkept, hrest, hall⟩ :=
      ih (fun part hpart => h part (List.mem_cons_of_mem _ hpart)) (docs ∪ found)
        (Finset.union_subset hdocs hsubset)
    refine ⟨united, ?_, Finset.subset_union_left.trans hkept, ?_, hall⟩
    · simp only [List.map_cons, uniteFrom, hfound, ok_bind]
      exact hunited
    · exact List.forall_mem_cons.mpr ⟨hsup.trans (Finset.subset_union_right.trans hkept), hrest⟩

/-- A conjunct whose failing side is small has a failing probe. -/
theorem failingProbe_of_small (h : failingRefinementIsSmall stat total = true) : stat.failingProbe.isSome = true := by
  unfold failingRefinementIsSmall at h
  split at h
  · cases h
  · rename_i hprobe
    rw [hprobe]
    rfl

variable {stats : List ConjunctStats}

/-- The united failing candidates of conjuncts cover their failing sides. -/
theorem uniteFailing (h : Indexes corpus fields)
    (hstats : ∀ stat ∈ stats, stat.Sound asNumber corpus fields)
    (hsmall : stats.all (failingRefinementIsSmall · total) = true) :
    ∃ united, uniteFrom ∅ (stats.map (materializeConjunctProbe asNumber fields corpus.allDocs .failing)) =
      .ok united ∧ (∀ stat ∈ stats, corpus.select (ProbeSide.failing.test (stat.conjunct.test asNumber)) ⊆ united) ∧
      united ⊆ corpus.allDocs := by
  have heach : ∀ stat ∈ stats, ∃ docs,
      materializeConjunctProbe asNumber fields corpus.allDocs .failing stat = .ok docs ∧
      corpus.select (ProbeSide.failing.test (stat.conjunct.test asNumber)) ⊆ docs ∧ docs ⊆ corpus.allDocs := by
    intro stat hstat
    obtain ⟨docs, _, hdocs, hcands⟩ := (hstats stat hstat).docs h .failing
      (failingProbe_of_small (List.all_eq_true.mp hsmall stat hstat))
    exact ⟨docs, hdocs, hcands.superset, hcands.docs⟩
  obtain ⟨united, hunited, -, hcover⟩ := uniteFrom_superset _ stats heach ∅ (Finset.empty_subset _)
  exact ⟨united, hunited, hcover⟩

/-- The other conjuncts are conjuncts. -/
theorem mem_of_mem_others {index : ℕ} (h : stat ∈ others stats index) :
    stat ∈ stats := by
  obtain ⟨indexed, hidxd, rfl⟩ := List.mem_map.mp h
  exact List.fst_mem_of_mem_zipIdx (List.mem_filter.mp hidxd).1

/-- A conjunct is the anchor or one of the others. -/
theorem eq_or_mem_others (hanchor : anchor ∈ stats.zipIdx) (h : stat ∈ stats) :
    stat = anchor.1 ∨ stat ∈ others stats anchor.2 := by
  obtain ⟨index, hindex, rfl⟩ := List.mem_iff_getElem.mp h
  by_cases hsame : index = anchor.2
  · left
    have hget := (List.mk_mem_zipIdx_iff_getElem? (x := anchor.1) (i := anchor.2) (l := stats)).mp hanchor
    rw [← hsame, List.getElem?_eq_getElem hindex] at hget
    exact Option.some.inj hget
  · right
    refine List.mem_map.mpr ⟨(stats[index], index), List.mem_filter.mpr ⟨?_, by simpa using hsame⟩, rfl⟩
    exact List.mk_mem_zipIdx_iff_getElem?.mpr (List.getElem?_eq_getElem hindex)

/-- The conjunction selects nothing one of its conjuncts does not. -/
theorem select_allConjuncts_subset (hstat : stat ∈ stats) :
    corpus.select (allConjuncts asNumber stats) ⊆ corpus.select (stat.conjunct.test asNumber) :=
  corpus.select_all_subset (fun stat : ConjunctStats => stat.conjunct.test asNumber) hstat

/-- A document fails the conjunction exactly if it fails one of the conjuncts. -/
theorem mem_failing_allConjuncts {document : String} :
    document ∈ corpus.select (ProbeSide.failing.test (allConjuncts asNumber stats)) ↔
      ∃ stat ∈ stats, document ∈ corpus.select (ProbeSide.failing.test (stat.conjunct.test asNumber)) := by
  simp only [Corpus.mem_select, ProbeSide.test, allConjuncts, List.all_map, Bool.not_eq_eq_eq_not,
    Bool.not_true, List.all_eq_false, Function.comp_apply, id, Bool.not_eq_true]
  constructor
  · rintro ⟨metadata, hmeta, stat, hstat, hfails⟩
    exact ⟨stat, hstat, metadata, hmeta, hfails⟩
  · rintro ⟨stat, hstat, metadata, hmeta, hfails⟩
    exact ⟨metadata, hmeta, stat, hstat, hfails⟩

/-- A document that does not fail a test passes it. -/
theorem Corpus.mem_select_of_not_failing {test : Metadata → Bool} {id : String} (hid : id ∈ corpus.allDocs)
    (h : id ∉ corpus.select (ProbeSide.failing.test test)) : id ∈ corpus.select test := by
  by_contra hnot
  refine h ?_
  rw [ProbeSide.test, Corpus.select_not]
  exact Finset.mem_sdiff.mpr ⟨hid, hnot⟩

/-- What a choice of an anchor says about the statistics. -/
theorem denylistChoice_eq_some {choice : DenylistChoice} (h : denylistChoice stats total anchor = some choice) :
    (choice.anchor, choice.anchorIndex) = anchor ∧
      ∀ stat ∈ others stats anchor.2, stat.failingProbe.isSome = true := by
  unfold denylistChoice at h
  split at h
  · split at h
    · cases h
    · simp only at h
      split_ifs at h with hmiss
      obtain rfl := Option.some.inj h
      refine ⟨rfl, fun stat hstat => ?_⟩
      by_contra hnone
      refine hmiss (List.any_eq_true.mpr ⟨stat, hstat, ?_⟩)
      simpa using hnone
  · cases h

/-- What is outside an exact anchor and the others' failing documents are the failing side. -/
theorem failing_allConjuncts_eq (hanchor : anchor ∈ stats.zipIdx) :
    (corpus.allDocs \ corpus.select (anchor.1.conjunct.test asNumber)) ∪
        (corpus.select fun metadata => ((others stats anchor.2).map fun stat =>
          ProbeSide.failing.test (stat.conjunct.test asNumber) metadata).any id) =
      corpus.select (ProbeSide.failing.test (allConjuncts asNumber stats)) := by
  ext document
  rw [mem_failing_allConjuncts, Finset.mem_union, ← Corpus.select_not]
  simp only [Corpus.mem_select, ProbeSide.test, List.any_map, List.any_eq_true, Function.comp_apply, id]
  constructor
  · rintro (⟨metadata, hmeta, hfails⟩ | ⟨metadata, hmeta, stat, hstat, hfails⟩)
    · exact ⟨anchor.1, List.fst_mem_of_mem_zipIdx hanchor, metadata, hmeta, hfails⟩
    · exact ⟨stat, mem_of_mem_others hstat, metadata, hmeta, hfails⟩
  · rintro ⟨stat, hstat, metadata, hmeta, hfails⟩
    rcases eq_or_mem_others hanchor hstat with rfl | hother
    · exact .inl ⟨metadata, hmeta, hfails⟩
    · exact .inr ⟨metadata, hmeta, stat, hother, hfails⟩

section Plans

variable (h : Indexes corpus fields) (hstats : ∀ stat ∈ stats, stat.Sound asNumber corpus fields)

include h hstats

/-- The candidates of the most selective conjunct cover the conjunction. -/
theorem planSelectiveAnchor_plans :
    Plans corpus (allConjuncts asNumber stats) (planSelectiveAnchor asNumber fields corpus.allDocs stats) := by
  unfold planSelectiveAnchor
  simp only
  split
  · exact .none
  · rename_i anchor hanchor
    obtain ⟨hidxd, hprobe⟩ := List.mem_filter.mp (List.argmin_mem hanchor)
    have hmem := List.fst_mem_of_mem_zipIdx hidxd
    rw [Bool.and_eq_true] at hprobe
    split
    · exact .none
    · obtain ⟨docs, _, hdocs, hcands⟩ := (hstats _ hmem).docs h .matching hprobe.1
      rw [hdocs]
      exact .some ⟨(select_allConjuncts_subset hmem).trans hcands.superset, hcands.docs⟩

/-- The failing candidates of all conjuncts cover the conjunction's failing side. -/
theorem planAllUnselectiveDenylist_plans :
    Plans corpus (allConjuncts asNumber stats)
      (planAllUnselectiveDenylist asNumber fields corpus.allDocs stats) := by
  unfold planAllUnselectiveDenylist
  split
  · rename_i hsmall
    obtain ⟨failing, hfail, hcover, hsubset⟩ := uniteFailing h hstats hsmall
    rw [hfail]
    refine .some ⟨fun id hid => ?_, hsubset, by simp⟩
    obtain ⟨stat, hstat, hfails⟩ := mem_failing_allConjuncts.mp hid
    exact hcover stat hstat hfails
  · exact .none

/-- An exact anchor without the others' failing candidates holds matches only. -/
theorem planComplementKnockout_plans :
    Plans corpus (allConjuncts asNumber stats)
      (planComplementKnockout asNumber fields corpus.allDocs stats) := by
  unfold planComplementKnockout
  simp only
  split
  · exact .none
  · rename_i anchor hanchor
    obtain ⟨hidxd, hprobe⟩ := List.mem_filter.mp (List.argmin_mem hanchor)
    have hmem := List.fst_mem_of_mem_zipIdx hidxd
    rw [Bool.and_eq_true] at hprobe
    split
    · rename_i hsmall
      obtain ⟨docs, _, hdocs, hcands⟩ := (hstats _ hmem).docs h .matching hprobe.1
      obtain ⟨failing, hfail, hcover, _⟩ :=
        uniteFailing h (fun stat hstat => hstats stat (mem_of_mem_others hstat)) hsmall
      simp only [hdocs, hfail, ok_bind]
      have hanchorDocs := hcands.equal ((hstats _ hmem).matchingExact.trans (congrArg _ hprobe.2))
      refine .some ⟨hanchorDocs ▸ select_allConjuncts_subset hmem, hcands.docs, fun id hid => ?_⟩
      -- a document of the anchor that fails some conjunct fails one of the others
      obtain ⟨hin, hout⟩ := Finset.mem_sdiff.mp hid
      refine Corpus.mem_select_of_not_failing (hcands.docs hin) fun hfails => hout ?_
      obtain ⟨stat, hstat, hfailsStat⟩ := mem_failing_allConjuncts.mp hfails
      rcases eq_or_mem_others hidxd hstat with rfl | hother
      · rw [ProbeSide.test, Corpus.select_not] at hfailsStat
        exact absurd (hanchorDocs ▸ hin) (Finset.mem_sdiff.mp hfailsStat).2
      · exact hcover stat hother hfailsStat
    · exact .none

/-- The first choice with a posting gives the exact failing side. -/
theorem firstDenylist_plans {choices : List DenylistChoice}
    (hchoices : ∀ choice ∈ choices, ∃ anchor ∈ stats.zipIdx,
      denylistChoice stats corpus.allDocs.card anchor = some choice) :
    Plans corpus (allConjuncts asNumber stats)
      (firstDenylist asNumber fields corpus.allDocs stats choices) := by
  induction choices with
  | nil => exact .none
  | cons choice rest ih =>
    obtain ⟨anchor, hanchor, hchoice⟩ := hchoices choice List.mem_cons_self
    obtain ⟨rfl, hprobes⟩ := denylistChoice_eq_some hchoice
    have hvalid := (hstats _ (List.fst_mem_of_mem_zipIdx hanchor)).valid
    obtain ⟨posting, hpost, hexact⟩ := (postings_keeps asNumber h).conjunct hvalid
    simp only [firstDenylist, hpost, ok_bind]
    cases posting with
    | none => exact ih fun other hother => hchoices other (List.mem_cons_of_mem _ hother)
    | some docs =>
      have hunited := uniteFrom_eq (fun stat => ProbeSide.failing.test (stat.conjunct.test asNumber))
        (exactFailingDocs asNumber fields corpus.allDocs) (others stats choice.anchorIndex)
        (fun stat hstat => (hstats stat (mem_of_mem_others hstat)).exactFailingDocs_eq h (hprobes stat hstat))
        (complementPosting corpus.allDocs docs)
      rw [complementPosting_eq, hexact docs rfl, failing_allConjuncts_eq hanchor] at hunited
      simp only [complementPosting_eq, hexact docs rfl, hunited, ok_bind]
      exact .some ⟨Finset.Subset.refl _, corpus.select_subset _, fun _ => rfl⟩

/-- The exact denylist is the exact failing side. -/
theorem planExactFailingDenylist_plans :
    Plans corpus (allConjuncts asNumber stats)
      (planExactFailingDenylist asNumber fields corpus.allDocs stats) := by
  refine firstDenylist_plans h hstats fun choice hchoice => ?_
  rw [List.mem_insertionSort] at hchoice
  exact List.mem_filterMap.mp hchoice

end Plans

/-- The conjuncts of a validated filter together say what it says. -/
theorem conjunctiveTerms_eq (asNumber : String → Option N) (hfilter : IsFilter filter) :
    ∃ terms, conjunctiveTerms filter = .ok terms ∧ ∀ conjuncts, terms = some conjuncts →
      (∀ conjunct ∈ conjuncts, conjunct.Valid) ∧ ∀ metadata, holds asNumber metadata filter =
        (conjuncts.map fun conjunct => conjunct.test asNumber metadata).all id := by
  obtain ⟨entries, _, hents⟩ := hfilter
  simp only [conjunctiveTerms, Value.asObject_object, okOr_some, ok_bind]
  match entries with
  | [(key, spec)] =>
    have hentry := hents _ List.mem_cons_self
    by_cases hkey : key = "$and"
    · subst hkey
      obtain ⟨subs, rfl, hsubs⟩ := hentry.and_subs
      simp only [↓reduceIte, Value.asArray_array, okOr_some, ok_bind]
      refine ⟨_, rfl, fun conjuncts hconjs => ?_⟩
      obtain rfl := Option.some.inj hconjs
      refine ⟨?_, fun metadata => ?_⟩
      · intro conjunct hconj
        obtain ⟨sub, hsub, rfl⟩ := List.mem_map.mp hconj
        exact hsubs sub hsub
      · rw [holds_object hents]
        simp [holdsEntry_and hsubs, List.all_map, Function.comp_def, AndConjunct.test]
    · simp only [hkey, ↓reduceIte]
      exact ⟨none, rfl, by simp⟩
  | [] =>
    refine ⟨some [], rfl, fun conjuncts hconjs => ?_⟩
    obtain rfl := Option.some.inj hconjs
    exact ⟨by simp, fun metadata => by rw [holds_object hents]; rfl⟩
  | first :: second :: rest =>
    refine ⟨_, rfl, fun conjuncts hconjs => ?_⟩
    obtain rfl := Option.some.inj hconjs
    refine ⟨?_, fun metadata => ?_⟩
    · intro conjunct hconj
      obtain ⟨entry, hentry, rfl⟩ := List.mem_map.mp hconj
      exact hents entry hentry
    · rw [holds_object hents]
      simp only [List.map_map, List.all_map]
      rfl

/-- The statistics of validated conjuncts, in order. -/
theorem conjunctStats_mapM (asNumber : String → Option N) (h : Indexes corpus fields) {conjuncts : List AndConjunct}
    (hvalid : ∀ conjunct ∈ conjuncts, conjunct.Valid) :
    ∃ stats, conjuncts.mapM (conjunctStats asNumber fields corpus.allDocs) = .ok stats ∧
      stats.map ConjunctStats.conjunct = conjuncts ∧ ∀ stat ∈ stats, stat.Sound asNumber corpus fields := by
  induction conjuncts with
  | nil => exact ⟨[], rfl, rfl, by simp⟩
  | cons conjunct rest ih =>
    obtain ⟨stat, hstat, hconj, hsound⟩ := conjunctStats_sound asNumber h (hvalid conjunct List.mem_cons_self)
    obtain ⟨stats, hstats, hconjs, hsounds⟩ := ih fun conjunct hconj => hvalid conjunct (List.mem_cons_of_mem _ hconj)
    refine ⟨stat :: stats, ?_, ?_, ?_⟩
    · simp only [List.mapM_cons, hstat, hstats, ok_bind]
      rfl
    · rw [List.map_cons, hconj, hconjs]
    · intro other hother
      rcases List.mem_cons.mp hother with rfl | hother
      · exact hsound
      · exact hsounds other hother

/-- Planning a validated conjunction never fails, and its plan keeps its promise. -/
theorem planConjunctiveFilter_plans (asNumber : String → Option N) (h : Indexes corpus fields)
    (hfilter : IsFilter filter) :
    Plans corpus (holds asNumber · filter)
      (planConjunctiveFilter asNumber fields corpus.allDocs filter) := by
  obtain ⟨terms, hterms, hmeaning⟩ := conjunctiveTerms_eq asNumber hfilter
  simp only [planConjunctiveFilter, hterms, ok_bind]
  cases terms with
  | none => exact .none
  | some conjuncts =>
    obtain ⟨hvalid, hholds⟩ := hmeaning conjuncts rfl
    obtain ⟨stats, hstats, hconjs, hsound⟩ := conjunctStats_mapM asNumber h hvalid
    simp only
    split
    · exact .none
    · simp only [hstats, ok_bind]
      have htest : (holds asNumber · filter) = allConjuncts asNumber stats := by
        funext metadata
        rw [hholds metadata, ← hconjs, List.map_map]
        rfl
      rw [htest]
      refine Plans.first ?_
      simp only [List.mem_cons, List.not_mem_nil, or_false]
      rintro plan (rfl | rfl | rfl | rfl)
      · exact planSelectiveAnchor_plans h hsound
      · exact planExactFailingDenylist_plans h hsound
      · exact planAllUnselectiveDenylist_plans h hsound
      · exact planComplementKnockout_plans h hsound

end LodeDB.Filter
