import LodeDB.Filter.Plan

/-!
# Executing a filter request on an index

The engine splits a request into a document-id list and a metadata filter, plans the filter, and completes the plan
with the per-document predicate. A request of the grammar always gets a plan, and completing it returns exactly the
documents that the evaluator accepts and the id list names.
-/

namespace LodeDB.Filter

open ExceptRules SortedSet

variable {ids : DocSet} {value : Value}

/-- A planned document filter of the engine. -/
inductive DocumentFilterPlan
  | all
  | materialized (documentIds : DocSet)
  | candidateSet (metadataFilter : Value) (candidateIds : DocSet)
  | anchoredDenylist (metadataFilter : Value) (anchorIds failingCandidateIds : DocSet)
  | predicate (metadataFilter : Value) (matchingCount failingDocumentCount : ℕ)
      (failingDocumentIds : Option DocSet)

/-- Whether a key belongs to a structured request. -/
def isStructuredKey (key : String) : Bool := key == "metadata" || key == "document_ids"

/-- The document-id list and the metadata filter of a request. -/
def requestParts (filter : Value) : Except CoreError (Option Value × Option Value) := do
  let object ← okOr filter.asObject (invalid "filter must be an object")
  let structured := object.all (fun entry => isStructuredKey entry.1) &&
    object.any (fun entry => isStructuredKey entry.1)
  .ok (if structured then (object.lookup "document_ids", object.lookup "metadata") else (none, some filter))

/-- The listed ids that name documents; every listed id must be a non-blank string. -/
def listedIds (allDocs : DocSet) : List Value → Except CoreError DocSet
  | [] => .ok ∅
  | entry :: rest => do
    let id ← okOr entry.asStr (invalid "document_ids filter entries must be strings")
    ensure (isBlank id = false) (invalid "document_ids filter entries must be non-blank")
    let ids ← listedIds allDocs rest
    .ok (if id ∈ allDocs then insert id ids else ids)

/-- Read the document-id list of a request. -/
def parseDocumentIdFilter (allDocs : DocSet) (value : Value) : Except CoreError DocSet := do
  let array ← okOr value.asArray (invalid "document_ids filter must be a list")
  ensure (array ≠ []) (invalid "document_ids filter must not be empty")
  listedIds allDocs array

section Engine

variable {N : Type*} [LinearOrder N] (asNumber : String → Option N) (documents : Corpus)
  (fields : FieldIndexes) (allDocs : DocSet)

/-- Whether a document's metadata satisfies a filter; an unknown document does not. -/
def metadataMatches (documentId : String) (metadataFilter : Value) : Except CoreError Bool :=
  match documents[documentId]? with
  | some metadata => matchesMetadataFilter asNumber metadata metadataFilter
  | none => .ok false

/-- The candidates whose metadata satisfies a filter. -/
def filterCandidateIds (candidates : DocSet) (metadataFilter : Value) : Except CoreError DocSet :=
  keepDocs (metadataMatches asNumber documents · metadataFilter) (ascending candidates)

/-- An anchor without the failing candidates that really fail. -/
def materializeAnchorDenylist (anchorIds failingCandidateIds : DocSet) (metadataFilter : Value) :
    Except CoreError DocSet := do
  let denied ← keepDocs (fun id =>
    if id ∈ anchorIds then (metadataMatches asNumber documents id metadataFilter).map Bool.not else .ok false)
    (ascending failingCandidateIds)
  .ok (anchorIds \ denied)

/-- The matching count, failing count and failing documents of a deferred predicate. -/
def completePredicate (metadataFilter : Value) (plan : MetadataPredicatePlan) :
    Except CoreError (ℕ × ℕ × Option DocSet) :=
  match plan.failingCandidates with
  | some candidates =>
    if plan.failingExact then .ok (allDocs.card - candidates.card, candidates.card, some candidates)
    else do
      let failing ← keepDocs (fun id => (metadataMatches asNumber documents id metadataFilter).map Bool.not)
        (ascending candidates)
      .ok (allDocs.card - failing.card, failing.card, some failing)
  | none => do
    let matchingCount ← okOr plan.matchingCount (invalid "predicate plan missing matching count")
    let failingCount ← okOr plan.failingCount (invalid "predicate plan missing failing count")
    .ok (matchingCount, failingCount, none)

/-- Turn a metadata plan into a document plan. -/
def completeMetadataFilterPlan (metadataFilter : Value) (plan : MetadataFilterPlan) :
    Except CoreError DocumentFilterPlan :=
  match plan with
  | .materialized documentIds => .ok (.materialized documentIds)
  | .filteredCandidates candidateIds => .ok (.candidateSet metadataFilter candidateIds)
  | .anchoredDenylist anchor failing => .ok (.anchoredDenylist metadataFilter anchor failing)
  | .predicate predicate => do
    let (matchingCount, failingCount, failingIds) ←
      completePredicate asNumber documents allDocs metadataFilter predicate
    if matchingCount = 0 then .ok (.materialized ∅)
    else .ok (.predicate metadataFilter matchingCount failingCount failingIds)

/-- Restrict a document plan to listed ids. -/
def intersectIdCandidates (ids : DocSet) (plan : DocumentFilterPlan) : Except CoreError DocumentFilterPlan :=
  match plan with
  | .all => .ok (.materialized ids)
  | .materialized documentIds => .ok (.materialized (ids ∩ documentIds))
  | .candidateSet metadataFilter candidateIds =>
    (filterCandidateIds asNumber documents (ids ∩ candidateIds) metadataFilter).map .materialized
  | .anchoredDenylist metadataFilter anchorIds failingIds =>
    let boundedAnchor := ids ∩ anchorIds
    (materializeAnchorDenylist asNumber documents boundedAnchor (failingIds ∩ boundedAnchor)
      metadataFilter).map .materialized
  | .predicate metadataFilter matchingCount _ failingIds =>
    match failingIds with
    | none => (filterCandidateIds asNumber documents ids metadataFilter).map .materialized
    | some denied =>
      if ids.card < matchingCount then
        (filterCandidateIds asNumber documents ids metadataFilter).map .materialized
      else .ok (.materialized (ids \ denied))

/-- Execute a document plan. -/
def materializeDocumentFilter (plan : DocumentFilterPlan) : Except CoreError DocSet :=
  match plan with
  | .all => .ok allDocs
  | .materialized documentIds => .ok documentIds
  | .candidateSet metadataFilter candidateIds =>
    filterCandidateIds asNumber documents candidateIds metadataFilter
  | .anchoredDenylist metadataFilter anchorIds failingIds =>
    materializeAnchorDenylist asNumber documents anchorIds failingIds metadataFilter
  | .predicate metadataFilter _ _ failingIds =>
    match failingIds with
    | some denied => .ok (allDocs \ denied)
    | none => filterCandidateIds asNumber documents allDocs metadataFilter

/-- Plan the metadata part of a request. -/
def planMetadata (coerced : Value) : Except CoreError DocumentFilterPlan := do
  let plan ← planMetadataFilter asNumber fields allDocs coerced
  completeMetadataFilterPlan asNumber documents allDocs coerced plan

/-- Plan a filter request. -/
def planFilter (filter : Option Value) : Except CoreError DocumentFilterPlan :=
  match filter with
  | none => .ok .all
  | some filter => do
    let (documentIds, metadataFilter) ← requestParts filter
    let idCandidates ←
      match documentIds with
      | some value => (parseDocumentIdFilter allDocs value).map some
      | none => .ok none
    match metadataFilter, idCandidates with
    | none, some ids => .ok (.materialized ids)
    | none, none => .ok .all
    | some metadataFilter, some ids => do
      let coerced ← coerceSdkFilter metadataFilter
      let cardinality ← estimateMatchingCardinality asNumber fields allDocs coerced
      if ids.card < cardinality then
        (filterCandidateIds asNumber documents ids coerced).map .materialized
      else do
        let plan ← planMetadata asNumber documents fields allDocs coerced
        intersectIdCandidates asNumber documents ids plan
    | some metadataFilter, none => do
      let coerced ← coerceSdkFilter metadataFilter
      planMetadata asNumber documents fields allDocs coerced

end Engine

variable {plan : DocumentFilterPlan}

section Complete

variable {N : Type*} [LinearOrder N] {asNumber : String → Option N} {corpus : Corpus} {fields : FieldIndexes}
  {filter : Value}

/-- The verdict on a document's metadata, false for an unknown document. -/
theorem metadataMatches_eq (asNumber : String → Option N) (corpus : Corpus) (hfilter : IsFilter filter)
    (id : String) : metadataMatches asNumber corpus id filter = .ok (corpus[id]?.any (holds asNumber · filter)) := by
  unfold metadataMatches
  cases corpus[id]? with
  | none => rfl
  | some metadata => exact matchesMetadataFilter_eq hfilter metadata

/-- Checking candidates keeps the matching documents among them. -/
theorem filterCandidateIds_eq (asNumber : String → Option N) (corpus : Corpus) (hfilter : IsFilter filter)
    (candidates : DocSet) :
    filterCandidateIds asNumber corpus candidates filter =
      .ok (candidates ∩ corpus.select (holds asNumber · filter)) :=
  keepDocs_select _ fun id _ => metadataMatches_eq asNumber corpus hfilter id

/-- The verdict that a document of the corpus fails a filter. -/
theorem metadataFails_eq (asNumber : String → Option N) (hfilter : IsFilter filter) {id : String}
    (hid : id ∈ corpus.allDocs) :
    (metadataMatches asNumber corpus id filter).map Bool.not =
      .ok (corpus[id]?.any (ProbeSide.failing.test (holds asNumber · filter))) := by
  obtain ⟨metadata, hmeta⟩ := Corpus.mem_allDocs.mp hid
  rw [metadataMatches_eq asNumber corpus hfilter, hmeta]
  rfl

/-- An anchor whose failing documents are all candidates is cut to its matches. -/
theorem materializeAnchorDenylist_eq (asNumber : String → Option N) (hfilter : IsFilter filter)
    {anchor failing : DocSet} (hanchor : anchor ⊆ corpus.allDocs)
    (hfail : anchor \ failing ⊆ corpus.select (holds asNumber · filter)) :
    materializeAnchorDenylist asNumber corpus anchor failing filter =
      .ok (anchor ∩ corpus.select (holds asNumber · filter)) := by
  have hdenied : keepDocs (fun id => if id ∈ anchor then
        (metadataMatches asNumber corpus id filter).map Bool.not else .ok false) (ascending failing) =
      .ok (failing.filter fun id => id ∈ anchor ∧ id ∉ corpus.select (holds asNumber · filter)) := by
    rw [keepDocs_eq (fun id => id ∈ anchor ∧ id ∉ corpus.select (holds asNumber · filter)) fun id _ => ?_]
    · simp
    · split
      · rename_i hid
        obtain ⟨metadata, hmeta⟩ := Corpus.mem_allDocs.mp (hanchor hid)
        simp [metadataMatches_eq asNumber corpus hfilter, hmeta, hid, Except.map]
      · rename_i hid
        simp [hid]
  simp only [materializeAnchorDenylist, hdenied, ok_bind]
  congr 1
  ext id
  have hkept : id ∈ anchor → id ∉ failing → id ∈ corpus.select (holds asNumber · filter) :=
    fun hid hcand => hfail (Finset.mem_sdiff.mpr ⟨hid, hcand⟩)
  simp only [Finset.mem_sdiff, Finset.mem_filter, Finset.mem_inter]
  tauto

/-- What a document plan promises about the documents a filter selects. -/
def DocumentFilterPlan.Completes (asNumber : String → Option N) (corpus : Corpus) (filter : Value) :
    DocumentFilterPlan → Prop
  | .all => corpus.select (holds asNumber · filter) = corpus.allDocs
  | .materialized documentIds => documentIds = corpus.select (holds asNumber · filter)
  | .candidateSet metadataFilter candidateIds =>
    metadataFilter = filter ∧ corpus.select (holds asNumber · filter) ⊆ candidateIds
  | .anchoredDenylist metadataFilter anchorIds failingIds =>
    metadataFilter = filter ∧ corpus.select (holds asNumber · filter) ⊆ anchorIds ∧
      anchorIds ⊆ corpus.allDocs ∧ anchorIds \ failingIds ⊆ corpus.select (holds asNumber · filter)
  | .predicate metadataFilter _ _ failingIds =>
    metadataFilter = filter ∧ ∀ denied, failingIds = some denied →
      denied = corpus.select (ProbeSide.failing.test (holds asNumber · filter))

/-- A failing side as large as the corpus leaves nothing. -/
theorem Corpus.select_eq_empty {test : Metadata → Bool}
    (h : corpus.allDocs.card - (corpus.select (ProbeSide.failing.test test)).card = 0) : corpus.select test = ∅ := by
  have hcard := corpus.card_select_not fun metadata => !test metadata
  simp only [Bool.not_not] at hcard
  rw [ProbeSide.test] at h
  exact Finset.card_eq_zero.mp (hcard.trans h)

/-- Completing a plan that keeps its promise gives a document plan that does. -/
theorem completeMetadataFilterPlan_completes (hfilter : IsFilter filter) {plan : MetadataFilterPlan}
    (hplan : plan.Completes corpus (holds asNumber · filter)) :
    ∃ documentPlan, completeMetadataFilterPlan asNumber corpus corpus.allDocs filter plan = .ok documentPlan ∧
      documentPlan.Completes asNumber corpus filter := by
  cases plan with
  | materialized docs => exact ⟨_, rfl, hplan⟩
  | filteredCandidates docs => exact ⟨_, rfl, rfl, hplan.1⟩
  | anchoredDenylist anchor failing => exact ⟨_, rfl, rfl, hplan⟩
  | predicate predicate =>
    obtain ⟨matchingCount, failingCount, candidates, exact⟩ := predicate
    cases candidates with
    | none =>
      obtain ⟨hmatch, hfail⟩ := hplan
      simp only at hmatch hfail
      subst hmatch hfail
      simp only [completeMetadataFilterPlan, completePredicate, okOr_some, ok_bind]
      split
      · rename_i hzero
        exact ⟨_, rfl, (Finset.card_eq_zero.mp hzero).symm⟩
      · exact ⟨_, rfl, rfl, by simp⟩
    | some candidates =>
      obtain ⟨hsup, hsubset, hexact⟩ := hplan
      -- exact or refined, the failing documents are the failing side
      have hfail : completePredicate asNumber corpus corpus.allDocs filter
          ⟨matchingCount, failingCount, some candidates, exact⟩ =
          .ok (corpus.allDocs.card - (corpus.select (ProbeSide.failing.test (holds asNumber · filter))).card,
            (corpus.select (ProbeSide.failing.test (holds asNumber · filter))).card,
            some (corpus.select (ProbeSide.failing.test (holds asNumber · filter)))) := by
        simp only [completePredicate]
        split
        · rename_i hflag
          rw [hexact hflag]
        · rw [keepDocs_select _ fun id hid => metadataFails_eq asNumber hfilter (hsubset hid),
            Finset.inter_eq_right.mpr hsup]
          rfl
      simp only [completeMetadataFilterPlan, hfail, ok_bind]
      split
      · rename_i hzero
        exact ⟨_, rfl, (Corpus.select_eq_empty hzero).symm⟩
      · refine ⟨_, rfl, rfl, fun denied hdenied => ?_⟩
        exact (Option.some.inj hdenied).symm

/-- Executing a document plan that keeps its promise returns the matches. -/
theorem materializeDocumentFilter_eq (hfilter : IsFilter filter) (hplan : plan.Completes asNumber corpus filter) :
    materializeDocumentFilter asNumber corpus corpus.allDocs plan =
      .ok (corpus.select (holds asNumber · filter)) := by
  cases plan with
  | all => exact congrArg Except.ok hplan.symm
  | materialized documentIds => exact congrArg Except.ok hplan
  | candidateSet metadataFilter candidateIds =>
    obtain ⟨rfl, hsup⟩ := hplan
    rw [materializeDocumentFilter, filterCandidateIds_eq asNumber corpus hfilter, Finset.inter_eq_right.mpr hsup]
  | anchoredDenylist metadataFilter anchorIds failingIds =>
    obtain ⟨rfl, hsup, hanchor, hfail⟩ := hplan
    rw [materializeDocumentFilter, materializeAnchorDenylist_eq asNumber hfilter hanchor hfail,
      Finset.inter_eq_right.mpr hsup]
  | predicate metadataFilter matchingCount failingCount failingIds =>
    obtain ⟨rfl, hdenied⟩ := hplan
    cases failingIds with
    | none =>
      simp only [materializeDocumentFilter]
      rw [filterCandidateIds_eq asNumber corpus hfilter, Finset.inter_eq_right.mpr (corpus.select_subset _)]
    | some denied =>
      simp only [materializeDocumentFilter]
      rw [hdenied denied rfl, ProbeSide.test, ← Corpus.select_not]
      simp only [Bool.not_not]

/-- Restricting a document plan to listed ids leaves the matches among them. -/
theorem intersectIdCandidates_eq (hfilter : IsFilter filter) (hids : ids ⊆ corpus.allDocs)
    (hplan : plan.Completes asNumber corpus filter) :
    intersectIdCandidates asNumber corpus ids plan =
      .ok (.materialized (ids ∩ corpus.select (holds asNumber · filter))) := by
  cases plan with
  | all =>
    rw [show corpus.select (holds asNumber · filter) = corpus.allDocs from hplan, Finset.inter_eq_left.mpr hids]
    rfl
  | materialized documentIds =>
    rw [← show documentIds = corpus.select (holds asNumber · filter) from hplan]
    rfl
  | candidateSet metadataFilter candidateIds =>
    obtain ⟨rfl, hsup⟩ := hplan
    rw [intersectIdCandidates, filterCandidateIds_eq asNumber corpus hfilter, Finset.inter_assoc,
      Finset.inter_eq_right.mpr hsup]
    rfl
  | anchoredDenylist metadataFilter anchorIds failingIds =>
    obtain ⟨rfl, hsup, hanchor, hfail⟩ := hplan
    simp only [intersectIdCandidates]
    rw [materializeAnchorDenylist_eq asNumber hfilter (Finset.inter_subset_left.trans hids) ?_,
      Finset.inter_assoc, Finset.inter_eq_right.mpr hsup]
    · rfl
    · intro id hid
      obtain ⟨hin, hout⟩ := Finset.mem_sdiff.mp hid
      refine hfail (Finset.mem_sdiff.mpr ⟨(Finset.mem_inter.mp hin).2, fun hcand => hout ?_⟩)
      exact Finset.mem_inter.mpr ⟨hcand, hin⟩
  | predicate metadataFilter matchingCount failingCount failingIds =>
    obtain ⟨rfl, hdenied⟩ := hplan
    have hchk : (filterCandidateIds asNumber corpus ids metadataFilter).map DocumentFilterPlan.materialized =
        .ok (.materialized (ids ∩ corpus.select (holds asNumber · metadataFilter))) := by
      rw [filterCandidateIds_eq asNumber corpus hfilter]
      rfl
    cases failingIds with
    | none => exact hchk
    | some denied =>
      simp only [intersectIdCandidates]
      split
      · exact hchk
      · rw [hdenied denied rfl, ProbeSide.test, Corpus.select_not]
        congr 2
        ext id
        have hdoc := @hids id
        simp only [Finset.mem_sdiff, Finset.mem_inter]
        tauto

/-- The listed ids that name documents. -/
theorem mem_listedIds {allDocs : DocSet} {items : List Value} (h : listedIds allDocs items = .ok ids)
    (id : String) : id ∈ ids ↔ .string id ∈ items ∧ id ∈ allDocs := by
  induction items generalizing ids with
  | nil =>
    obtain rfl := Except.ok.inj h
    simp
  | cons item rest ih =>
    cases item with
    | string text =>
      simp only [listedIds, Value.asStr_string, okOr_some, ok_bind, bind_eq_ok] at h
      obtain ⟨_, _, others, hothers, h⟩ := h
      obtain rfl := Except.ok.inj h
      rw [List.mem_cons, Value.string.injEq]
      split
      · rename_i htext
        rw [Finset.mem_insert, ih hothers]
        constructor
        · rintro (rfl | ⟨hitem, hdoc⟩)
          · exact ⟨.inl rfl, htext⟩
          · exact ⟨.inr hitem, hdoc⟩
        · rintro ⟨rfl | hitem, hdoc⟩
          · exact .inl rfl
          · exact .inr ⟨hitem, hdoc⟩
      · rename_i htext
        rw [ih hothers]
        constructor
        · rintro ⟨hitem, hdoc⟩
          exact ⟨.inr hitem, hdoc⟩
        · rintro ⟨rfl | hitem, hdoc⟩
          · exact absurd hdoc htext
          · exact ⟨hitem, hdoc⟩
    | _ => simp [listedIds, Value.asStr, okOr] at h

/-- A document-id list the engine accepts selects the documents it names. -/
theorem mem_parseDocumentIdFilter {allDocs : DocSet} (h : parseDocumentIdFilter allDocs value = .ok ids)
    (id : String) : id ∈ ids ↔ (∃ items, value = .array items ∧ .string id ∈ items) ∧ id ∈ allDocs := by
  cases value with
  | array items =>
    simp only [parseDocumentIdFilter, Value.asArray_array, okOr_some, ok_bind, bind_eq_ok] at h
    obtain ⟨_, _, hlist⟩ := h
    simp [mem_listedIds hlist]
  | _ => simp [parseDocumentIdFilter, Value.asArray, okOr] at h

/-- Planning the metadata part never fails, and the plan keeps its promise. -/
theorem planMetadata_completes (asNumber : String → Option N) (h : Indexes corpus fields)
    (hfilter : IsFilter filter) :
    ∃ plan, planMetadata asNumber corpus fields corpus.allDocs filter = .ok plan ∧
      plan.Completes asNumber corpus filter := by
  obtain ⟨metadataPlan, hmetadataPlan, hcompl⟩ := planMetadataFilter_completes asNumber h hfilter
  obtain ⟨plan, hplan, hdoc⟩ := completeMetadataFilterPlan_completes hfilter hcompl
  refine ⟨plan, ?_, hdoc⟩
  simp only [planMetadata, hmetadataPlan, ok_bind, hplan]

/-- The parts of an optional request. -/
def optionalRequestParts : Option Value → Except CoreError (Option Value × Option Value)
  | none => .ok (none, none)
  | some filter => requestParts filter

/-- A request whose document-id list and metadata filter pass validation. -/
structure Accepts (corpus : Corpus) (request documentIds metadata : Option Value) : Prop where
  parts : optionalRequestParts request = .ok (documentIds, metadata)
  ids : ∀ value ∈ documentIds, ∃ ids, parseDocumentIdFilter corpus.allDocs value = .ok ids
  filter : ∀ value ∈ metadata, ∃ coerced, coerceSdkFilter value = .ok coerced

/-- Whether a document is in the id list of a request and accepted by its filter. -/
def Requested (asNumber : String → Option N) (documentIds metadata : Option Value) (id : String)
    (stored : Metadata) : Prop :=
  (∀ value ∈ documentIds, ∃ items, value = .array items ∧ .string id ∈ items) ∧
    ∀ value ∈ metadata, ∃ coerced, coerceSdkFilter value = .ok coerced ∧
      matchesMetadataFilter asNumber stored coerced = .ok true

/-- The documents a validated filter selects are those the evaluator accepts. -/
theorem mem_select_holds (h : coerceSdkFilter value = .ok filter) (id : String) :
    id ∈ corpus.select (holds asNumber · filter) ↔
      ∃ stored, corpus[id]? = some stored ∧ ∃ coerced, coerceSdkFilter value = .ok coerced ∧
        matchesMetadataFilter asNumber stored coerced = .ok true := by
  simp only [Corpus.mem_select, h, Except.ok.injEq, exists_eq_left',
    matchesMetadataFilter_eq (coerceSdkFilter_isFilter h)]

/-- The documents of a corpus that the evaluator accepts, or those it rejects. -/
def onSide (asNumber : String → Option N) (corpus : Corpus) (filter : Value) (side : ProbeSide) : DocSet :=
  corpus.select fun stored =>
    decide ((matchesMetadataFilter asNumber stored filter).toOption = some (decide (side = .matching)))

/-- **A probe that reports a bound materialises, within the bound, a superset of its side, and that side
itself where it counts as exact. An exact count is the number of matching documents, and the estimate is
never below it.** -/
theorem probe_bounds_side (asNumber : String → Option N) (corpus : Corpus) {fields : FieldIndexes} {allDocs : DocSet}
    (hbuilt : buildFieldIndexes corpus = (fields, allDocs)) {stringify : StringifyMode} {depth : ℕ} {metadata : Value}
    (h : walk stringify depth metadata = .ok filter) (side : ProbeSide) :
    (∃ result, probeInfo asNumber filter side fields allDocs = .ok result ∧ ∀ bound, result = some bound →
      ∃ found, materializeProbe asNumber filter side fields allDocs = .ok found ∧
        onSide asNumber corpus filter side ⊆ found ∧ found.card ≤ bound.count ∧
        (((probing asNumber fields allDocs.card).filter filter).exact side →
          found = onSide asNumber corpus filter side)) ∧
    (∃ result, exactMatchingCount asNumber filter fields allDocs = .ok result ∧
      ∀ count, result = some count → count = (onSide asNumber corpus filter .matching).card) ∧
    ∃ bound, estimateMatchingCardinality asNumber fields allDocs filter = .ok bound ∧
      (onSide asNumber corpus filter .matching).card ≤ bound := by
  have hfilter := walk_isFilter h
  have hindexes := indexes_buildFieldIndexes corpus
  have hdocs := buildFieldIndexes_allDocs corpus
  rw [hbuilt] at hindexes hdocs
  have hside (side : ProbeSide) : onSide asNumber corpus filter side =
      corpus.select (side.test (holds asNumber · filter)) := by
    simp only [onSide, matchesMetadataFilter_eq hfilter]
    cases side <;> simp [ProbeSide.test, Except.toOption]
  obtain rfl : allDocs = corpus.allDocs := hdocs
  rw [hside side, hside .matching]
  refine ⟨?_, exactMatchingCount_counts asNumber hindexes hfilter, estimateMatchingCardinality_ok asNumber hindexes hfilter⟩
  obtain ⟨result, hresult, hfound⟩ := probeInfo_bounds asNumber hindexes hfilter side
  refine ⟨result, hresult, fun bound hbound => ?_⟩
  obtain ⟨found, hdocs, hcandidates⟩ := hfound bound hbound
  exact ⟨found, hdocs, hcandidates.superset, hcandidates.card, hcandidates.equal⟩

/-- One of two documents is red. -/
theorem probe_bounds_side_red :
    let corpus : Corpus := (∅ : Corpus).insert "a" ((∅ : Metadata).insert "color" "red") |>.insert "b" ∅
    (onSide (fun _ => (none : Option ℕ)) corpus (.object [("color", .string "red")]) .matching).card ≤ 1 := by
  intro corpus
  obtain ⟨-, -, bound, hbound, hle⟩ := probe_bounds_side (fun _ => (none : Option ℕ)) corpus rfl
    (rfl : walk .engine 0 (.object [("color", .string "red")]) = _) .matching
  have hone : estimateMatchingCardinality (fun _ => (none : Option ℕ)) (buildFieldIndexes corpus).1
      (buildFieldIndexes corpus).2 (.object [("color", .string "red")]) = .ok 1 := by decide +kernel
  rwa [← Except.ok.inj (hone.symm.trans hbound)] at hle

/-- Every accepted request gets a plan that completes to exactly the requested documents. -/
theorem planFilter_selects (asNumber : String → Option N) (corpus : Corpus)
    {request documentIds metadata : Option Value} (h : Accepts corpus request documentIds metadata) :
    ∃ plan, planFilter asNumber corpus (buildFieldIndexes corpus).1 (buildFieldIndexes corpus).2 request = .ok plan ∧
      ∃ docs, materializeDocumentFilter asNumber corpus (buildFieldIndexes corpus).2 plan = .ok docs ∧
        ∀ id, id ∈ docs ↔
          ∃ stored, corpus[id]? = some stored ∧ Requested asNumber documentIds metadata id stored := by
  obtain ⟨hparts, hids, hmetadata⟩ := h
  rw [buildFieldIndexes_allDocs]
  have hindexes := indexes_buildFieldIndexes corpus
  cases request with
  | none =>
    obtain ⟨rfl, rfl⟩ := Prod.mk.inj (Except.ok.inj hparts)
    exact ⟨.all, rfl, corpus.allDocs, rfl, fun id => by simp [Requested]⟩
  | some filter =>
    have hrequest : requestParts filter = .ok (documentIds, metadata) := hparts
    cases metadata with
    | none =>
      cases documentIds with
      | none =>
        simp only [planFilter, hrequest, ok_bind]
        exact ⟨.all, rfl, corpus.allDocs, rfl, fun id => by simp [Requested]⟩
      | some value =>
        obtain ⟨ids, hparsed⟩ := hids value rfl
        simp only [planFilter, hrequest, ok_bind, hparsed, Except.map]
        refine ⟨_, rfl, ids, rfl, fun id => ?_⟩
        rw [mem_parseDocumentIdFilter hparsed, Corpus.mem_allDocs]
        simp [Requested, and_comm]
    | some value =>
      obtain ⟨coerced, hcoerced⟩ := hmetadata value rfl
      have hfilter := coerceSdkFilter_isFilter hcoerced
      obtain ⟨plan, hplan, hcompletes⟩ := planMetadata_completes asNumber hindexes hfilter
      cases documentIds with
      | none =>
        simp only [planFilter, hrequest, ok_bind, hcoerced]
        refine ⟨plan, hplan, _, materializeDocumentFilter_eq hfilter hcompletes, fun id => ?_⟩
        rw [mem_select_holds hcoerced]
        simp [Requested]
      | some listed =>
        obtain ⟨ids, hparsed⟩ := hids listed rfl
        obtain ⟨cardinality, hcardinality, -⟩ := estimateMatchingCardinality_ok asNumber hindexes hfilter
        have hsubset : ids ⊆ corpus.allDocs := fun id hid => ((mem_parseDocumentIdFilter hparsed id).mp hid).2
        -- both branches leave the matching documents among the listed ones
        have hboth : planFilter asNumber corpus (buildFieldIndexes corpus).1 corpus.allDocs (some filter) =
            .ok (.materialized (ids ∩ corpus.select (holds asNumber · coerced))) := by
          simp only [planFilter, hrequest, ok_bind, hparsed, Except.map, hcoerced, hcardinality]
          split
          · rw [filterCandidateIds_eq asNumber corpus hfilter]
          · rw [hplan]
            exact intersectIdCandidates_eq hfilter hsubset hcompletes
        refine ⟨_, hboth, _, rfl, fun id => ?_⟩
        rw [Finset.mem_inter, mem_parseDocumentIdFilter hparsed, mem_select_holds hcoerced, Corpus.mem_allDocs]
        simp only [Requested, Option.mem_some_iff, forall_eq']
        constructor
        · rintro ⟨⟨hlisted, _⟩, stored, hstored, hmatches⟩
          exact ⟨stored, hstored, hlisted, hmatches⟩
        · rintro ⟨stored, hstored, hlisted, hmatches⟩
          exact ⟨⟨hlisted, stored, hstored⟩, stored, hstored, hmatches⟩

/-- On two documents, one of them red: the listed ones that are not red. -/
theorem planFilter_selects_notRed :
    let corpus : Corpus := (∅ : Corpus).insert "a" ((∅ : Metadata).insert "color" "red") |>.insert "b" ∅
    let ids : Value := .array [.string "a", .string "b", .string "c"]
    let metadata : Value := .object [("$not", .object [("color", .string "red")])]
    let request : Value := .object [("document_ids", ids), ("metadata", metadata)]
    ∃ plan, planFilter (fun _ => (none : Option ℕ)) corpus (buildFieldIndexes corpus).1
        (buildFieldIndexes corpus).2 (some request) = .ok plan ∧
      ∃ docs, materializeDocumentFilter (fun _ => (none : Option ℕ)) corpus (buildFieldIndexes corpus).2 plan =
          .ok docs ∧
        ∀ id, id ∈ docs ↔ ∃ stored, corpus[id]? = some stored ∧
          Requested (fun _ => (none : Option ℕ)) (some ids) (some metadata) id stored := by
  intro corpus ids metadata request
  refine planFilter_selects _ corpus ⟨rfl, ?_, ?_⟩
  · intro value hvalue
    obtain rfl := Option.some.inj hvalue
    exact ⟨_, rfl⟩
  · intro value hvalue
    obtain rfl := Option.some.inj hvalue
    exact ⟨_, rfl⟩

end Complete

end LodeDB.Filter
