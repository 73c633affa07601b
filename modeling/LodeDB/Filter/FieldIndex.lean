import LodeDB.Filter.Predicate
import Mathlib.Data.Finset.Card

/-!
# Per-field value indexes

The planner never scans documents: it reads, for each metadata field, which documents carry the field and each of its
values. `Corpus.select` is the meaning of a test on a corpus, and `Reflects` says that an index answers for one field
what the corpus would.
-/

namespace LodeDB.Filter

variable {id : String} {stored : String → String → String → Prop}

/-- Document-id sets. -/
abbrev DocSet := Finset String

/-- The documents of an index with their metadata. -/
abbrev Corpus := Std.ExtTreeMap String Metadata compare

/-- Every document id of a corpus. -/
def Corpus.allDocs (corpus : Corpus) : DocSet := corpus.keys.toFinset

/-- The documents whose metadata passes a test. -/
def Corpus.select (corpus : Corpus) (test : Metadata → Bool) : DocSet :=
  corpus.allDocs.filter fun id => corpus[id]?.any test

/-- Per-key value index for one metadata field. -/
structure FieldIndex where
  docs : DocSet
  valueDocs : Std.ExtTreeMap String DocSet compare

namespace FieldIndex

/-- The index of a field no document carries. -/
def empty : FieldIndex := ⟨∅, ∅⟩

variable (index : FieldIndex)

/-- The documents that store exactly this value. -/
def posting (value : String) : DocSet := index.valueDocs[value]?.getD ∅

/-- Add one stored field value for a document. -/
def insert (documentId value : String) : FieldIndex where
  docs := Insert.insert documentId index.docs
  valueDocs := index.valueDocs.insert value (Insert.insert documentId (index.posting value))

/-- Remove one stored field value of a document, and a value nobody stores any more. -/
def remove (documentId value : String) : FieldIndex where
  docs := index.docs.erase documentId
  valueDocs :=
    match index.valueDocs[value]? with
    | none => index.valueDocs
    | some docs =>
      if docs.erase documentId = ∅ then index.valueDocs.erase value
      else index.valueDocs.insert value (docs.erase documentId)

/-- Whether no document carries the field. -/
def isEmpty : Bool := index.docs = ∅

end FieldIndex

/-- The indexes of a generation, by field. -/
abbrev FieldIndexes := Std.ExtTreeMap String FieldIndex compare

/-- The index of a field, empty if no document carries it. -/
def FieldIndexes.index (fields : FieldIndexes) (field : String) : FieldIndex :=
  fields[field]?.getD .empty

/-- Record one field of a document. -/
def FieldIndexes.insert (documentId : String) (fields : FieldIndexes) (entry : String × String) :
    FieldIndexes :=
  Std.ExtTreeMap.insert fields entry.1 ((fields.index entry.1).insert documentId entry.2)

/-- Take one field of a document out of the index of that field, if there is one. -/
def FieldIndexes.remove (documentId : String) (fields : FieldIndexes) (entry : String × String) :
    FieldIndexes :=
  match fields[entry.1]? with
  | some index => Std.ExtTreeMap.insert fields entry.1 (index.remove documentId entry.2)
  | none => fields

/-- Build the field indexes and the document-id set of a generation. -/
def buildFieldIndexes (documentMetadata : Corpus) : FieldIndexes × DocSet :=
  documentMetadata.toList.foldl (fun built document =>
    (document.2.toList.foldl (FieldIndexes.insert document.1) built.1, Insert.insert document.1 built.2)) (∅, ∅)

variable {corpus : Corpus}

@[simp] theorem Corpus.mem_allDocs : id ∈ corpus.allDocs ↔ ∃ metadata, corpus[id]? = some metadata := by
  simp [Corpus.allDocs, ← Option.isSome_iff_exists]

@[simp] theorem Corpus.mem_select {test : Metadata → Bool} :
    id ∈ corpus.select test ↔ ∃ metadata, corpus[id]? = some metadata ∧ test metadata = true := by
  simp only [Corpus.select, Finset.mem_filter, Corpus.mem_allDocs]
  cases corpus[id]? <;> simp

/-- A test that always fails selects nothing. -/
@[simp] theorem Corpus.select_false (corpus : Corpus) : (corpus.select fun _ => false) = ∅ := by
  ext id
  simp

/-- Every selection is a set of documents of the corpus. -/
theorem Corpus.select_subset (corpus : Corpus) (test : Metadata → Bool) :
    corpus.select test ⊆ corpus.allDocs := Finset.filter_subset _ _

/-- The documents that fail a test are the others. -/
theorem Corpus.select_not (corpus : Corpus) (test : Metadata → Bool) :
    (corpus.select fun metadata => !test metadata) = corpus.allDocs \ corpus.select test := by
  ext id
  simp only [mem_select, Finset.mem_sdiff, mem_allDocs]
  cases corpus[id]? <;> simp

/-- Passing two tests is passing both. -/
theorem Corpus.select_and (corpus : Corpus) (left right : Metadata → Bool) :
    (corpus.select fun metadata => left metadata && right metadata) = corpus.select left ∩ corpus.select right := by
  ext id
  simp only [mem_select, Finset.mem_inter, Bool.and_eq_true]
  cases corpus[id]? <;> simp

/-- Passing one of two tests is passing either. -/
theorem Corpus.select_or (corpus : Corpus) (left right : Metadata → Bool) :
    (corpus.select fun metadata => left metadata || right metadata) = corpus.select left ∪ corpus.select right := by
  ext id
  simp only [mem_select, Finset.mem_union, Bool.or_eq_true]
  cases corpus[id]? <;> simp

/-- An index answers for one field what the corpus would. -/
structure Reflects (corpus : Corpus) (field : String) (index : FieldIndex) : Prop where
  docs : index.docs = corpus.select fun metadata => metadata[field]?.isSome
  posting : ∀ value, index.posting value = corpus.select fun metadata => metadata[field]? == some value

/-- The indexes record exactly the given (document, field, value) triples. -/
structure Records (fields : FieldIndexes) (stored : String → String → String → Prop) : Prop where
  docs : ∀ field id, id ∈ (fields.index field).docs ↔ ∃ value, stored id field value
  posting : ∀ field value id, id ∈ (fields.index field).posting value ↔ stored id field value

variable {fields : FieldIndexes}

/-- Only which triples are stored matters. -/
theorem Records.congr {stored' : String → String → String → Prop} (h : Records fields stored)
    (hiff : ∀ id field value, stored id field value ↔ stored' id field value) : Records fields stored' := by
  have hequal : stored = stored' := by
    funext id field value
    exact propext (hiff id field value)
  exact hequal ▸ h

/-- Inserting a field adds its one triple. -/
theorem Records.insert (h : Records fields stored) (documentId : String) (entry : String × String) :
    Records (fields.insert documentId entry)
      (fun id field value => stored id field value ∨ (id = documentId ∧ (field, value) = entry)) := by
  obtain ⟨name, stored_value⟩ := entry
  have hindex : ∀ field, (FieldIndexes.insert documentId fields (name, stored_value)).index field =
      if name = field then (fields.index name).insert documentId stored_value else fields.index field := by
    intro field
    simp only [FieldIndexes.index, FieldIndexes.insert, Std.ExtTreeMap.getElem?_insert,
      Std.LawfulEqCmp.compare_eq_iff_eq]
    split <;> simp
  constructor
  · intro field id
    rw [hindex]
    split
    · rename_i hname
      subst hname
      simp only [FieldIndex.insert, Finset.mem_insert, h.docs, Prod.mk.injEq, true_and]
      aesop
    · rename_i hname
      simp [h.docs, Ne.symm hname]
  · intro field value id
    rw [hindex]
    split
    · rename_i hname
      subst hname
      simp only [FieldIndex.posting, FieldIndex.insert, Std.ExtTreeMap.getElem?_insert,
        Std.LawfulEqCmp.compare_eq_iff_eq, Prod.mk.injEq, true_and]
      split
      · rename_i hvalue
        subst hvalue
        simp only [Option.getD_some, Finset.mem_insert, and_true]
        rw [or_comm, ← h.posting]
        rfl
      · rename_i hvalue
        simp only [Ne.symm hvalue, and_false, or_false]
        exact h.posting name value id
    · rename_i hname
      simp [h.posting, Ne.symm hname]

/-- Inserting the fields of one document adds its triples. -/
theorem Records.insertAll (h : Records fields stored) (documentId : String) (entries : List (String × String)) :
    Records (entries.foldl (FieldIndexes.insert documentId) fields)
      (fun id field value => stored id field value ∨ (id = documentId ∧ (field, value) ∈ entries)) := by
  induction entries generalizing fields stored with
  | nil => simpa using h
  | cons entry rest ih =>
    have hrest := ih (h.insert documentId entry)
    simp only [or_assoc, ← and_or_left, ← List.mem_cons] at hrest
    exact hrest

variable (documents : List (String × Metadata))

/-- The build records the fields of every document it has seen, and their ids. -/
theorem buildFieldIndexes_records (built : FieldIndexes × DocSet)
    (h : Records built.1 stored) :
    Records (documents.foldl (fun built document =>
        (document.2.toList.foldl (FieldIndexes.insert document.1) built.1, Insert.insert document.1 built.2)) built).1
      (fun id field value => stored id field value ∨
        ∃ metadata, (id, metadata) ∈ documents ∧ metadata[field]? = some value) := by
  induction documents generalizing built stored with
  | nil => simpa using h
  | cons document rest ih =>
    obtain ⟨documentId, metadata⟩ := document
    refine (ih (_, _) (h.insertAll documentId metadata.toList)).congr fun id field value => ?_
    simp only [Std.ExtTreeMap.mem_toList_iff_getElem?_eq_some, List.mem_cons, Prod.mk.injEq, or_assoc]
    aesop

/-- The ids the build returns are those of the documents it has seen. -/
theorem buildFieldIndexes_ids (built : FieldIndexes × DocSet) :
    (documents.foldl (fun built document => (document.2.toList.foldl (FieldIndexes.insert document.1) built.1,
          Insert.insert document.1 built.2)) built).2 = built.2 ∪ (documents.map Prod.fst).toFinset := by
  induction documents generalizing built with
  | nil => simp
  | cons document rest ih =>
    rw [List.foldl_cons, ih]
    ext id
    simp

/-- The build returns the ids of the corpus. -/
theorem buildFieldIndexes_allDocs (corpus : Corpus) : (buildFieldIndexes corpus).2 = corpus.allDocs := by
  rw [buildFieldIndexes, buildFieldIndexes_ids]
  simp [Corpus.allDocs, Std.ExtTreeMap.map_fst_toList_eq_keys]

/-- Every index the build returns answers for its field what the corpus would. -/
theorem buildFieldIndexes_reflects (corpus : Corpus) (field : String) :
    Reflects corpus field ((buildFieldIndexes corpus).1.index field) := by
  have hempty : Records (∅ : FieldIndexes) fun _ _ _ => False := by
    constructor <;> simp [FieldIndexes.index, FieldIndex.empty, FieldIndex.posting]
  have hbuilt : Records (buildFieldIndexes corpus).1 _ := buildFieldIndexes_records corpus.toList (∅, ∅) hempty
  constructor
  · ext id
    simp only [hbuilt.docs, Std.ExtTreeMap.mem_toList_iff_getElem?_eq_some, false_or,
      Corpus.mem_select, Option.isSome_iff_exists]
    exact exists_comm.trans (by simp)
  · intro value
    ext id
    simp [hbuilt.posting, Std.ExtTreeMap.mem_toList_iff_getElem?_eq_some]

variable {index : FieldIndex}

/-- A value with a document is a stored value. -/
theorem FieldIndex.mem_keys_of_mem_posting {value : String} (h : id ∈ index.posting value) :
    value ∈ index.valueDocs.keys := by
  rw [Std.ExtTreeMap.mem_keys, Std.ExtTreeMap.mem_iff_isSome_getElem?]
  unfold FieldIndex.posting at h
  cases hdocs : index.valueDocs[value]? with
  | none => simp [hdocs] at h
  | some docs => rfl

/-- A document stores at most one value of a field. -/
theorem Reflects.posting_disjoint {field : String} (h : Reflects corpus field index) {left right : String}
    (hne : left ≠ right) : Disjoint (index.posting left) (index.posting right) := by
  rw [Finset.disjoint_left]
  intro id hleft hright
  simp only [h.posting, Corpus.mem_select, beq_iff_eq] at hleft hright
  obtain ⟨metadata, hmeta, hvalue⟩ := hleft
  obtain ⟨metadata', hmetadata', hvalue'⟩ := hright
  rw [hmeta, Option.some.injEq] at hmetadata'
  subst hmetadata'
  exact hne (Option.some.inj (hvalue.symm.trans hvalue'))

end LodeDB.Filter
