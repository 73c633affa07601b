import LodeDB.Filter.ProbeSound
import LodeDB.Lib.SortedSet

/-!
# Exact postings and evaluation against the indexes

Two more walks the conjunctive planner uses: one returns the exact matching posting of a filter
whose shape has one, the other evaluates a filter for one document from the indexes alone. Both
agree with the per-document evaluator.
-/

namespace LodeDB.Filter

open ExceptRules SortedSet

variable {test : Metadata → Bool} {ι : Type} {operator : Operator}

/-- The posting of a conjunction: only a single part has one. -/
def singlePosting (allDocs : DocSet) (parts : List (Except CoreError (Option DocSet))) :
    Except CoreError (Option DocSet) :=
  match parts with
  | [] => .ok (some allDocs)
  | [part] => part
  | _ => .ok none

/-- The posting of an operator map: only a single operator has one. -/
def onlyPosting (parts : List (Except CoreError (Option DocSet))) : Except CoreError (Option DocSet) :=
  match parts with
  | [part] => part
  | _ => .ok none

/-- The posting of a disjunction: the union, if every part has one. -/
def unitedPosting (docs : DocSet) : List (Except CoreError (Option DocSet)) → Except CoreError (Option DocSet)
  | [] => .ok (some docs)
  | part :: rest => do
    match ← part with
    | some posting => unitedPosting (docs ∪ posting) rest
    | none => .ok none

/-- Whether a document stores exactly this value of a field. -/
def indexedValueMatches (documentId field expected : String) (fields : FieldIndexes) : Bool :=
  match fields[field]? with
  | some index => documentId ∈ index.posting expected
  | none => false

section Walks

variable {N : Type*} [LinearOrder N] (asNumber : String → Option N)

/-- The exact posting of an operator; a complement has one only when it is empty. -/
def operatorPosting (index : Option FieldIndex) (allDocs : DocSet) : Operator → Option DocSet
  | .eq value => some ((index.map (·.posting value)).getD ∅)
  | .isIn values => some ((index.map (unionPostings · values)).getD ∅)
  | .exists true => some ((index.map (·.docs)).getD ∅)
  | .exists false => if index.any (·.docs.card = allDocs.card) then some ∅ else none
  | .ne value =>
    if (index.bind fun index => index.valueDocs[value]?).any (·.card = allDocs.card) then some ∅ else none
  | .notIn values =>
    if ((index.map (unionPostings · values)).getD ∅).card = allDocs.card then some ∅ else none
  | .ordered op operand => some ((index.map fun index => resolveOrdered asNumber index op operand).getD ∅)

/-- The exact posting of a single operator entry. -/
def matchingPostingForOperator (index : Option FieldIndex) (allDocs : DocSet) (entry : String × Value) :
    Except CoreError (Option DocSet) :=
  -- a field without an index skips the check of the listed values
  let values := fun op items => if index.isSome then namedValues op items else .ok []
  (readOperator values entry).map (operatorPosting asNumber index allDocs)

variable (fields : FieldIndexes)

/-- The exact posting of a field's specification: an equality or a single operator. -/
def matchingPostingForField (allDocs : DocSet) (field : String) (spec : Value) : Except CoreError (Option DocSet) :=
  let index := fields[field]?
  readFieldSpec (fun expected => .ok (some ((index.map (·.posting expected)).getD ∅)))
    (fun entries => onlyPosting (entries.map (matchingPostingForOperator asNumber index allDocs)))
    .error spec

/-- The walk that looks for an exact matching posting. -/
def postings (allDocs : DocSet) : Traversal (Except CoreError (Option DocSet)) where
  node := singlePosting allDocs
  conj := singlePosting allDocs
  disj := unitedPosting ∅
  neg _ := .ok none
  field := matchingPostingForField asNumber fields allDocs
  reject := .error

/-- Evaluate one operator for a document from the indexes. -/
def indexedOperatorMatches (documentId field : String) (entry : String × Value) : Except CoreError Bool :=
  (readOperator namedValues entry).map fun
    | .eq value => indexedValueMatches documentId field value fields
    | .ne value => !indexedValueMatches documentId field value fields
    | .isIn values => values.any fun value => indexedValueMatches documentId field value fields
    | .notIn values => !values.any fun value => indexedValueMatches documentId field value fields
    | .exists flag => (fields[field]?.any fun index => documentId ∈ index.docs) == flag
    | .ordered op operand => fields[field]?.any fun index =>
        index.valueDocs.toList.any fun entry =>
          documentId ∈ entry.2 && compareOrdered asNumber entry.1 op operand

/-- The walk that evaluates a filter for a document from the indexes. -/
def indexedEvaluation (documentId : String) : Traversal (Except CoreError Bool) where
  node parts := parts.allM id
  conj parts := (collect parts).map (List.all · id)
  disj parts := (collect parts).map (List.any · id)
  neg part := part.map Bool.not
  field name := readFieldSpec (fun expected => .ok (indexedValueMatches documentId name expected fields))
    (fun entries => (entries.map (indexedOperatorMatches asNumber fields documentId name)).allM id) .error
  reject := .error

end Walks

variable {N : Type*} [LinearOrder N] {asNumber : String → Option N} {corpus : Corpus}

/-- A posting that is given holds the documents the test selects. -/
def Posts (corpus : Corpus) (test : Metadata → Bool) (result : Except CoreError (Option DocSet)) : Prop :=
  Gives (· = corpus.select test) result

/-- A posting that only a single part has is exact. -/
theorem combines_single {combine : List (Except CoreError (Option DocSet)) → Except CoreError (Option DocSet)}
    (hsingle : ∀ part, combine [part] = part)
    (hseveral : ∀ first second rest, combine (first :: second :: rest) = .ok none) :
    Combines (Posts corpus) (List.all · id) combine := by
  intro ι parts test result hne h
  match parts with
  | [] => exact absurd rfl hne
  | [part] =>
    rw [(single_test part test).1, List.map_singleton, hsingle]
    exact h part List.mem_cons_self
  | first :: second :: rest =>
    rw [List.map_cons, List.map_cons, hseveral]
    exact .none

/-- Uniting postings, from a set on, adds what passes one of the tests. -/
theorem unitedPosting_posts {test : ι → Metadata → Bool} {result : ι → Except CoreError (Option DocSet)}
    (parts : List ι) (h : ∀ part ∈ parts, Posts corpus (test part) (result part)) (docs : DocSet) :
    ∃ posting, unitedPosting docs (parts.map result) = .ok posting ∧ ∀ united, posting = some united →
      united = docs ∪ corpus.select fun metadata => (parts.map (test · metadata)).any id := by
  induction parts generalizing docs with
  | nil => exact ⟨some docs, rfl, by simp⟩
  | cons part rest ih =>
    obtain ⟨posting, hpost, hexact⟩ := h part List.mem_cons_self
    simp only [List.map_cons, unitedPosting, hpost, ok_bind]
    cases posting with
    | none => exact ⟨none, rfl, by simp⟩
    | some found =>
      obtain ⟨united, hunited, hequal⟩ := ih (fun part hpart => h part (List.mem_cons_of_mem _ hpart)) (docs ∪ found)
      refine ⟨united, hunited, fun total htotal => ?_⟩
      rw [hequal total htotal, hexact found rfl]
      simp only [List.any_cons, id, Corpus.select_or, Finset.union_assoc]

/-- The posting of a disjunction is exact. -/
theorem combines_unitedPosting : Combines (Posts corpus) (List.any · id) (unitedPosting ∅) := by
  intro ι parts test result _ h
  obtain ⟨posting, hpost, hexact⟩ := unitedPosting_posts parts h ∅
  exact ⟨posting, hpost, fun docs hdocs => by rw [hexact docs hdocs, Finset.empty_union]⟩

/-- An operator without the values of its list. -/
def Operator.withoutValues : Operator → Operator
  | .isIn _ => .isIn []
  | .notIn _ => .notIn []
  | operator => operator

/-- Reading a validated entry without its values. -/
theorem Denotes.read_withoutValues {entry : String × Value} (h : Denotes entry operator) :
    readOperator (fun _ _ => .ok []) entry = .ok operator.withoutValues := by
  cases h with
  | ordered op text hop =>
    have hcases := hop
    simp only [isOrderedOperator, Bool.or_eq_true, beq_iff_eq] at hcases
    rcases hcases with ((rfl | rfl) | rfl) | rfl <;> rfl
  | _ => rfl

/-- A field without an index has the same postings whatever the listed values are. -/
theorem operatorPosting_withoutValues (allDocs : DocSet) (operator : Operator) :
    operatorPosting asNumber none allDocs operator.withoutValues =
      operatorPosting asNumber none allDocs operator := by
  cases operator <;> rfl

@[simp] theorem FieldIndex.posting_empty (value : String) : FieldIndex.empty.posting value = ∅ := by
  simp [FieldIndex.posting, FieldIndex.empty]

@[simp] theorem unionPostings_empty (values : List String) : unionPostings .empty values = ∅ := by
  unfold unionPostings
  induction values with
  | nil => rfl
  | cons value rest ih => simp

@[simp] theorem resolveOrdered_empty (op operand : String) : resolveOrdered asNumber .empty op operand = ∅ := by
  ext document
  simp [resolveOrdered_eq_biUnion]

/-- A test that selects every document fails none. -/
theorem Corpus.select_not_eq_empty (h : (corpus.select test).card = corpus.allDocs.card) :
    (corpus.select fun metadata => !test metadata) = ∅ := by
  rw [Corpus.select_not, Corpus.select_eq_allDocs h, Finset.sdiff_self]

/-- The posting of an operator on a reflecting index holds the documents it accepts. -/
theorem operatorPosting_eq {index : Option FieldIndex} {field : String}
    (h : Reflects corpus field (index.getD .empty)) {docs : DocSet}
    (hdocs : operatorPosting asNumber index corpus.allDocs operator = some docs) :
    docs = corpus.select fun metadata => operator.accepts asNumber metadata[field]? := by
  have hpost : ∀ value, (index.map (·.posting value)).getD ∅ = (index.getD .empty).posting value := by
    cases index <;> simp
  have hunion : ∀ values, (index.map (unionPostings · values)).getD ∅ = unionPostings (index.getD .empty) values := by
    cases index <;> simp
  cases operator with
  | eq value =>
    rw [← Option.some.inj hdocs, hpost]
    exact h.posting value
  | ne value =>
    simp only [operatorPosting] at hdocs
    split_ifs at hdocs with hfull
    have hcard : (corpus.select fun metadata => metadata[field]? == some value).card = corpus.allDocs.card := by
      rw [← h.posting value]
      cases index with
      | none => simp at hfull
      | some index =>
        simp only [Option.bind_some, Option.any_eq_true, decide_eq_true_eq] at hfull
        obtain ⟨posting, hvalue, hcard⟩ := hfull
        simpa [FieldIndex.posting, hvalue] using hcard
    rw [← Option.some.inj hdocs]
    exact (Corpus.select_not_eq_empty hcard).symm
  | isIn values =>
    rw [← Option.some.inj hdocs, hunion]
    exact h.unionPostings_eq values
  | notIn values =>
    simp only [operatorPosting, hunion, h.unionPostings_eq] at hdocs
    split_ifs at hdocs with hfull
    rw [← Option.some.inj hdocs]
    exact (Corpus.select_not_eq_empty hfull).symm
  | «exists» flag =>
    have hfield : (index.map (·.docs)).getD ∅ = (index.getD .empty).docs := by cases index <;> rfl
    cases flag with
    | true =>
      rw [← Option.some.inj hdocs, hfield, h.docs]
      simp [Operator.accepts]
    | false =>
      simp only [operatorPosting] at hdocs
      split_ifs at hdocs with hfull
      have hcard : (corpus.select fun metadata => metadata[field]?.isSome).card = corpus.allDocs.card := by
        rw [← h.docs]
        cases index with
        | none => simp at hfull
        | some index => simpa using hfull
      rw [← Option.some.inj hdocs]
      simpa [Operator.accepts] using (Corpus.select_not_eq_empty hcard).symm
  | ordered op operand =>
    have hordered : (index.map fun index => resolveOrdered asNumber index op operand).getD ∅ =
        resolveOrdered asNumber (index.getD .empty) op operand := by cases index <;> simp
    rw [← Option.some.inj hdocs, hordered]
    exact h.resolveOrdered_eq op operand

/-- Looking for the posting of a validated filter keeps every posting exact. -/
theorem postings_keeps (asNumber : String → Option N) {fields : FieldIndexes} (h : Indexes corpus fields) :
    (postings asNumber fields corpus.allDocs).Keeps asNumber (Posts corpus) where
  node := combines_single (fun _ => rfl) fun _ _ _ => rfl
  conj := combines_single (fun _ => rfl) fun _ _ _ => rfl
  disj := combines_unitedPosting
  neg _ _ _ := .none
  field name spec hname hspec := by
    refine sound_readFieldSpec hname hspec (combines_single (fun _ => rfl) fun _ _ _ => rfl) ?_ ?_
    · intro expected
      refine ⟨_, rfl, fun docs hdocs => ?_⟩
      have hpost : operatorPosting asNumber fields[name]? corpus.allDocs (.eq expected) = some docs := hdocs
      exact operatorPosting_eq (h name) hpost
    · intro entry operator hop
      unfold matchingPostingForOperator
      cases hindex : fields[name]? with
      | none =>
        have hread := hop.read_withoutValues
        simp only [Option.isSome_none, Bool.false_eq_true, ↓reduceIte, hread, Except.map]
        refine ⟨_, rfl, fun docs hdocs => ?_⟩
        rw [operatorPosting_withoutValues] at hdocs
        have hreflects := h name
        rw [FieldIndexes.index, hindex] at hreflects
        exact operatorPosting_eq hreflects hdocs
      | some index =>
        simp only [Option.isSome_some, ↓reduceIte, hop.read_named, Except.map]
        refine ⟨_, rfl, fun docs hdocs => ?_⟩
        have hreflects := h name
        rw [FieldIndexes.index, hindex] at hreflects
        exact operatorPosting_eq hreflects hdocs

/-- A short-circuit conjunction of computed results is one over what computes them. -/
theorem allM_map_id (parts : List ι) (result : ι → Except CoreError Bool) :
    (parts.map result).allM id = parts.allM result := by
  induction parts with
  | nil => rfl
  | cons part rest ih =>
    rw [List.map_cons, List.allM, List.allM, ih]
    rfl

section Document

variable {fields : FieldIndexes} {documentId : String} {metadata : Metadata}

section

variable (h : Indexes corpus fields)

include h

/-- The indexes know the value a document stores. -/
theorem indexedValueMatches_eq (hdoc : corpus[documentId]? = some metadata) (field expected : String) :
    indexedValueMatches documentId field expected fields = (metadata[field]? == some expected) := by
  have hmem : documentId ∈ (fields.index field).posting expected ↔ metadata[field]? = some expected := by
    rw [(h field).posting, Corpus.mem_select]
    simp [hdoc]
  have hequal : indexedValueMatches documentId field expected fields =
      decide (documentId ∈ (fields.index field).posting expected) := by
    unfold indexedValueMatches FieldIndexes.index
    cases fields[field]? <;> simp
  rw [hequal, Bool.eq_iff_iff, decide_eq_true_eq, hmem, beq_iff_eq]

/-- The indexes know whether a document carries a field. -/
theorem indexedExists_eq (hdoc : corpus[documentId]? = some metadata) (field : String) :
    (fields[field]?.any fun index => documentId ∈ index.docs) = metadata[field]?.isSome := by
  have hmem : documentId ∈ (fields.index field).docs ↔ metadata[field]?.isSome = true := by
    rw [(h field).docs, Corpus.mem_select]
    simp [hdoc]
  rw [Bool.eq_iff_iff, ← hmem]
  unfold FieldIndexes.index
  cases fields[field]? <;> simp [FieldIndex.empty]

/-- The indexes know how the value a document stores compares. -/
theorem indexedOrdered_eq (hdocument : corpus[documentId]? = some metadata) (field op operand : String) :
    (fields[field]?.any fun index => index.valueDocs.toList.any fun entry =>
        documentId ∈ entry.2 && compareOrdered asNumber entry.1 op operand) =
      metadata[field]?.any fun value => compareOrdered asNumber value op operand := by
  have hmem : documentId ∈ resolveOrdered asNumber (fields.index field) op operand ↔
      (metadata[field]?.any fun value => compareOrdered asNumber value op operand) = true := by
    rw [(h field).resolveOrdered_eq, Corpus.mem_select]
    simp [hdocument]
  rw [Bool.eq_iff_iff, ← hmem, resolveOrdered_eq_biUnion]
  simp only [Finset.mem_biUnion, List.mem_toFinset, mem_orderedValues]
  unfold FieldIndexes.index
  cases fields[field]? with
  | none => simp [FieldIndex.empty]
  | some index =>
    simp only [Option.any_some, List.any_eq_true, Bool.and_eq_true, decide_eq_true_eq, Option.getD_some,
      Prod.exists, Std.ExtTreeMap.mem_toList_iff_getElem?_eq_some]
    constructor
    · rintro ⟨value, docs, hvalue, hdoc, hcompare⟩
      have hpost : documentId ∈ index.posting value := by simpa [FieldIndex.posting, hvalue] using hdoc
      exact ⟨value, ⟨FieldIndex.mem_keys_of_mem_posting hpost, hcompare⟩, hpost⟩
    · rintro ⟨value, ⟨_, hcompare⟩, hpost⟩
      unfold FieldIndex.posting at hpost
      cases hvalue : index.valueDocs[value]? with
      | none => simp [hvalue] at hpost
      | some docs => exact ⟨value, docs, hvalue, by simpa [hvalue] using hpost, hcompare⟩

/-- The indexes know whether the value a document stores is listed. -/
theorem indexedAny_eq (hdoc : corpus[documentId]? = some metadata) (field : String) (values : List String) :
    (values.any fun value => indexedValueMatches documentId field value fields) =
      metadata[field]?.any fun value => values.contains value := by
  simp only [indexedValueMatches_eq h hdoc]
  cases metadata[field]? with
  | none => simp
  | some stored =>
    rw [Option.any_some, List.contains_eq_any_beq]
    rfl

end

/-- A short-circuit conjunction of results evaluates the conjunction of the tests. -/
theorem combines_allM (metadata : Metadata) :
    Combines (fun test (result : Except CoreError Bool) => result = .ok (test metadata)) (List.all · id)
      fun parts => parts.allM id := by
  intro ι parts test result _ hparts
  simp only [allM_map_id, allM_ok_all hparts, List.all_map]
  rfl

/-- Evaluating a validated filter from the indexes agrees with the metadata. -/
theorem indexedEvaluation_keeps (asNumber : String → Option N) (h : Indexes corpus fields)
    (hdoc : corpus[documentId]? = some metadata) :
    (indexedEvaluation asNumber fields documentId).Keeps asNumber
      fun test result => result = .ok (test metadata) where
  node := combines_allM metadata
  conj ι parts test result _ hparts := by
    simp only [indexedEvaluation, collect_map hparts]
    rfl
  disj ι parts test result _ hparts := by
    simp only [indexedEvaluation, collect_map hparts]
    rfl
  neg test result hr := by
    simp only [indexedEvaluation, hr]
    rfl
  field name spec hname hspec := by
    refine sound_readFieldSpec hname hspec (combines_allM metadata) ?_ ?_
    · intro expected
      rw [indexedValueMatches_eq h hdoc]
    · intro entry operator hop
      rw [indexedOperatorMatches, hop.read_named]
      refine congrArg Except.ok ?_
      cases operator with
      | eq value => exact indexedValueMatches_eq h hdoc name value
      | ne value => exact congrArg Bool.not (indexedValueMatches_eq h hdoc name value)
      | isIn values => exact indexedAny_eq h hdoc name values
      | notIn values => exact congrArg Bool.not (indexedAny_eq h hdoc name values)
      | «exists» flag => exact congrArg (· == flag) (indexedExists_eq h hdoc name)
      | ordered op operand => exact indexedOrdered_eq h hdoc name op operand

end Document

end LodeDB.Filter
