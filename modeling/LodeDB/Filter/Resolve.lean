import LodeDB.Filter.Operator

/-!
# Resolving a filter to its document set

The set-based execution: postings are intersected, united and complemented, and a conjunction
stops as soon as its running intersection is empty. On indexes that reflect a corpus the result
is the set of documents the per-document evaluator accepts.
-/

namespace LodeDB.Filter

open ExceptRules

variable {ι : Type} {field : String} {index : FieldIndex} {fields : FieldIndexes}

/-- Every index of a generation answers for its field what the corpus would. -/
def Indexes (corpus : Corpus) (fields : FieldIndexes) : Prop :=
  ∀ field, Reflects corpus field (fields.index field)

/-- The indexes the build returns. -/
theorem indexes_buildFieldIndexes (corpus : Corpus) : Indexes corpus (buildFieldIndexes corpus).1 :=
  buildFieldIndexes_reflects corpus

/-- The documents that store one of the values. -/
def unionPostings (index : FieldIndex) (values : List String) : DocSet :=
  values.foldl (fun docs value => docs ∪ index.posting value) ∅

/-- Intersect the sets of a conjunction, stopping at the first empty intersection. -/
def intersectFrom (allDocs : DocSet) (result : Option DocSet) :
    List (Except CoreError DocSet) → Except CoreError DocSet
  | [] => .ok (result.getD allDocs)
  | part :: rest => do
    let docs ← part
    let narrowed :=
      match result with
      | some previous => previous ∩ docs
      | none => docs
    if narrowed = ∅ then .ok ∅ else intersectFrom allDocs (some narrowed) rest

/-- Unite the sets of a disjunction. -/
def uniteFrom (result : DocSet) : List (Except CoreError DocSet) → Except CoreError DocSet
  | [] => .ok result
  | part :: rest => do
    let docs ← part
    uniteFrom (result ∪ docs) rest

section Resolve

variable {N : Type*} [LinearOrder N] (asNumber : String → Option N)

/-- The documents an operator accepts, from the postings of its field. -/
def operatorDocs (index : FieldIndex) (allDocs : DocSet) : Operator → DocSet
  | .eq value => index.posting value
  | .ne value => allDocs \ index.posting value
  | .isIn values => unionPostings index values
  | .notIn values => allDocs \ unionPostings index values
  | .exists flag => if flag then index.docs else allDocs \ index.docs
  | .ordered op operand => resolveOrdered asNumber index op operand

/-- Resolve one operator entry. -/
def resolveOperator (index : FieldIndex) (allDocs : DocSet) (entry : String × Value) :
    Except CoreError DocSet :=
  (readOperator namedValues entry).map (operatorDocs asNumber index allDocs)

/-- The documents a field's specification accepts. -/
def resolveField (fields : FieldIndexes) (allDocs : DocSet) (field : String) (spec : Value) :
    Except CoreError DocSet :=
  let index := fields.index field
  readFieldSpec (fun expected => .ok (index.posting expected))
    (fun entries => intersectFrom allDocs none (entries.map (resolveOperator asNumber index allDocs)))
    .error spec

/-- The walk that resolves a filter. -/
def resolution (fields : FieldIndexes) (allDocs : DocSet) : Traversal (Except CoreError DocSet) where
  node := intersectFrom allDocs none
  conj := intersectFrom allDocs none
  disj := uniteFrom ∅
  neg docs := docs.map fun docs => allDocs \ docs
  field := resolveField asNumber fields allDocs
  reject := .error

/-- Resolve a validated metadata filter to the matching document-id set. -/
def resolveFilter (filter : Value) (fields : FieldIndexes) (allDocs : DocSet) : Except CoreError DocSet :=
  (resolution asNumber fields allDocs).filter filter

end Resolve

variable {N : Type*} [LinearOrder N] {asNumber : String → Option N} {corpus : Corpus}

/-- The result of a walk is the set the test selects. -/
def Resolves (corpus : Corpus) (test : Metadata → Bool) (result : Except CoreError DocSet) : Prop :=
  result = .ok (corpus.select test)

variable (test : ι → Metadata → Bool) (result : ι → Except CoreError DocSet)

/-- Intersecting selections, from one on, selects what passes all tests. -/
theorem intersectFrom_some (parts : List ι)
    (h : ∀ part ∈ parts, Resolves corpus (test part) (result part)) (first : Metadata → Bool) :
    intersectFrom corpus.allDocs (some (corpus.select first)) (parts.map result) =
      .ok (corpus.select fun metadata => first metadata && (parts.map (test · metadata)).all id) := by
  induction parts generalizing first with
  | nil => simp [intersectFrom]
  | cons part rest ih =>
    have hrest := ih (fun part hpart => h part (List.mem_cons_of_mem _ hpart))
      fun metadata => first metadata && test part metadata
    have hequal : (fun metadata => first metadata && ((part :: rest).map (test · metadata)).all id) =
        fun metadata => (first metadata && test part metadata) && (rest.map (test · metadata)).all id := by
      funext metadata
      rw [List.map_cons, List.all_cons, id, Bool.and_assoc]
    have hpart : result part = .ok (corpus.select (test part)) := h part List.mem_cons_self
    rw [hequal]
    simp only [List.map_cons, intersectFrom, hpart, ok_bind, ← Corpus.select_and]
    split
    · rename_i hempty
      rw [Corpus.select_and, hempty, Finset.empty_inter]
    · exact hrest

/-- Intersecting the selections of tests selects what passes all of them. -/
theorem combines_intersectFrom : Combines (Resolves corpus) (List.all · id) (intersectFrom corpus.allDocs none) := by
  intro ι parts test result hne h
  cases parts with
  | nil => exact absurd rfl hne
  | cons part rest =>
    have hrest := intersectFrom_some test result rest
      (fun part hpart => h part (List.mem_cons_of_mem _ hpart)) (test part)
    have hpart : result part = .ok (corpus.select (test part)) := h part List.mem_cons_self
    simp only [Resolves, List.map_cons, intersectFrom, hpart, ok_bind, List.all_cons, id]
    split
    · rename_i hempty
      rw [Corpus.select_and, hempty, Finset.empty_inter]
    · exact hrest

/-- Uniting the selections of tests, from a set on, adds what passes one of them. -/
theorem uniteFrom_eq (parts : List ι)
    (h : ∀ part ∈ parts, Resolves corpus (test part) (result part)) (docs : DocSet) :
    uniteFrom docs (parts.map result) =
      .ok (docs ∪ corpus.select fun metadata => (parts.map (test · metadata)).any id) := by
  induction parts generalizing docs with
  | nil => simp [uniteFrom]
  | cons part rest ih =>
    have hpart : result part = .ok (corpus.select (test part)) := h part List.mem_cons_self
    simp only [List.map_cons, uniteFrom, hpart, ok_bind, List.any_cons, id,
      ih fun part hpart => h part (List.mem_cons_of_mem _ hpart), Corpus.select_or, Finset.union_assoc]

/-- Uniting the selections of tests selects what passes one of them. -/
theorem combines_uniteFrom : Combines (Resolves corpus) (List.any · id) (uniteFrom ∅) := by
  intro ι parts test result _ h
  simpa [Resolves] using uniteFrom_eq test result parts h ∅

/-- On a reflecting index, united postings select the documents with one of the values. -/
theorem Reflects.unionPostings_eq (h : Reflects corpus field index) (values : List String) :
    unionPostings index values =
      corpus.select fun metadata => metadata[field]?.any fun value => values.contains value := by
  have hfold : ∀ docs : DocSet, values.foldl (fun docs value => docs ∪ index.posting value) docs =
        docs ∪ corpus.select fun metadata => metadata[field]?.any fun value => values.contains value := by
    induction values with
    | nil =>
      intro docs
      ext id
      simp
    | cons value rest ih =>
      intro docs
      rw [List.foldl_cons, ih, Finset.union_assoc, h.posting, ← Corpus.select_or]
      congr 2
      funext metadata
      cases metadata[field]? with
      | none => rfl
      | some stored =>
        rw [Option.any_some, Option.any_some, List.contains_cons]
        rfl
  rw [unionPostings, hfold, Finset.empty_union]

/-- On a reflecting index the postings of an operator give the documents it accepts. -/
theorem Reflects.operatorDocs_eq (h : Reflects corpus field index) (operator : Operator) :
    operatorDocs asNumber index corpus.allDocs operator =
      corpus.select fun metadata => operator.accepts asNumber metadata[field]? := by
  cases operator with
  | eq value => exact h.posting value
  | ne value =>
    rw [operatorDocs, h.posting, ← Corpus.select_not]
    rfl
  | isIn values => exact h.unionPostings_eq values
  | notIn values =>
    rw [operatorDocs, h.unionPostings_eq, ← Corpus.select_not]
    rfl
  | «exists» flag =>
    cases flag with
    | true => simp [operatorDocs, Operator.accepts, h.docs]
    | false => simp [operatorDocs, Operator.accepts, h.docs, ← Corpus.select_not]
  | ordered op operand => exact h.resolveOrdered_eq op operand

/-- Resolving a validated filter keeps every selection. -/
theorem resolution_keeps (asNumber : String → Option N) (h : Indexes corpus fields) :
    (resolution asNumber fields corpus.allDocs).Keeps asNumber (Resolves corpus) where
  node := combines_intersectFrom
  conj := combines_intersectFrom
  disj := combines_uniteFrom
  neg test result hr := by
    have hok : result = .ok (corpus.select test) := hr
    simp only [resolution, hok, Except.map, ← Corpus.select_not]
    rfl
  field name spec hname hspec := by
    refine sound_readFieldSpec hname hspec combines_intersectFrom ?_ ?_
    · intro expected
      exact congrArg Except.ok ((h name).posting expected)
    · intro entry operator hop
      rw [resolveOperator, hop.read_named]
      exact congrArg Except.ok ((h name).operatorDocs_eq operator)

/-- Resolving a validated filter returns the documents the evaluator accepts. -/
theorem resolveFilter_eq (h : Indexes corpus fields) {filter : Value} (hfilter : IsFilter filter) :
    resolveFilter asNumber filter fields corpus.allDocs = .ok (corpus.select (holds asNumber · filter)) :=
  (resolution_keeps asNumber h).sound.1 filter hfilter

end LodeDB.Filter
