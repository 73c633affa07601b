import LodeDB.Engine.Index
import LodeDB.Lib.InverseIndex

/-!
# Documents, owners and the document-id set in step

`Indexed` is the part of the engine's state invariant that does not look at the live vector index.
-/

namespace LodeDB.Engine

open TreeMapRules InverseIndex
open LodeDB.Filter (Metadata)

variable {documents : Documents} {chunkId other : String}

/-- A chunk id of a document. -/
def HasChunk (documents : Documents) (documentId chunkId : String) : Prop :=
  ∃ record, documents[documentId]? = some record ∧ chunkId ∈ record.chunkIds

/-- The chunk ids a document has, none if it is absent. -/
def chunkIdsOf (documents : Documents) (documentId : String) : List String :=
  (documents[documentId]?.map (·.chunkIds)).getD []

variable {documentId : String}

@[simp] theorem mem_chunkIdsOf :
    chunkId ∈ chunkIdsOf documents documentId ↔ HasChunk documents documentId chunkId := by
  unfold chunkIdsOf HasChunk
  cases documents[documentId]? <;> simp

/-- Every chunk id of a set of documents. -/
def ownedChunks (documents : Documents) : Finset String :=
  (documents.toList.flatMap fun document => document.2.chunkIds).toFinset

@[simp] theorem mem_ownedChunks :
    chunkId ∈ ownedChunks documents ↔ ∃ documentId, HasChunk documents documentId chunkId := by
  simp only [ownedChunks, List.mem_toFinset, List.mem_flatMap, Prod.exists, HasChunk,
    Std.ExtTreeMap.mem_toList_iff_getElem?_eq_some]

@[simp] theorem ownedChunks_empty : ownedChunks ∅ = ∅ := by
  ext chunkId
  simp [HasChunk]

theorem hasChunk_insert {record : DocumentRecord} :
    HasChunk (documents.insert documentId record) other chunkId ↔ (other = documentId ∧ chunkId ∈ record.chunkIds) ∨
        (other ≠ documentId ∧ HasChunk documents other chunkId) := by
  simp only [HasChunk, getElem?_insert]
  by_cases heq : documentId = other
  · subst heq
    simp
  · simp [heq, Ne.symm heq]

theorem hasChunk_erase :
    HasChunk (documents.erase documentId) other chunkId ↔ other ≠ documentId ∧ HasChunk documents other chunkId := by
  simp only [HasChunk, getElem?_erase]
  by_cases heq : documentId = other
  · subst heq
    simp
  · simp [heq, Ne.symm heq]

/-- The documents, the owner map and the document-id set agree. -/
structure Indexed (index : VectorOnlyIndex) : Prop where
  nodup : ∀ documentId, (chunkIdsOf index.documents documentId).Nodup
  owner : Inverts (HasChunk index.documents) (index.chunkOwnerById[·]?)
  allDocs : index.allDocs = keySet index.documents

variable (index : VectorOnlyIndex)

/-- Every owner lists the chunks it owns. -/
def OwnersList : Prop :=
  ∀ chunkId documentId, index.chunkOwnerById[chunkId]? = some documentId → HasChunk index.documents documentId chunkId

/-- Only the document state matters. -/
theorem Indexed.of_documentState {index other : VectorOnlyIndex} (h : Indexed index)
    (hstate : other.documentState = index.documentState) : Indexed other := by
  have hdocs : other.documents = index.documents := congrArg VectorOnlyIndex.DocumentState.documents hstate
  have howner : other.chunkOwnerById = index.chunkOwnerById :=
    congrArg VectorOnlyIndex.DocumentState.chunkOwnerById hstate
  have hall : other.allDocs = index.allDocs := congrArg VectorOnlyIndex.DocumentState.allDocs hstate
  exact ⟨hdocs ▸ h.nodup, hdocs ▸ howner ▸ h.owner, hdocs ▸ hall ▸ h.allDocs⟩

/-- Put a record in place of a document, with the indexes following. -/
def VectorOnlyIndex.replaceDocument (documentId : String)
    (record : DocumentRecord) : VectorOnlyIndex :=
  let inserted := { index with documents := index.documents.insert documentId record }
  let unindexed := match index.documents[documentId]? with
    | some old => inserted.removeDocumentIndexes documentId old.metadata old.chunks
    | none => inserted
  unindexed.addDocumentIndexes documentId record.metadata record.chunks

/-- Take a document out of the documents and the indexes. -/
def VectorOnlyIndex.dropDocument (documentId : String)
    (record : DocumentRecord) : VectorOnlyIndex :=
  { index with documents := index.documents.erase documentId }.removeDocumentIndexes documentId
    record.metadata record.chunks

section Replace

variable {index : VectorOnlyIndex} {documentId : String} {record : DocumentRecord}

@[simp] theorem replaceDocument_documents :
    (index.replaceDocument documentId record).documents = index.documents.insert documentId record := by
  unfold VectorOnlyIndex.replaceDocument
  cases index.documents[documentId]? <;> rfl

theorem replaceDocument_puts : index.Puts (index.replaceDocument documentId record) := by
  unfold VectorOnlyIndex.replaceDocument
  cases index.documents[documentId]? <;> exact ⟨rfl, rfl, rfl⟩

theorem replaceDocument_allDocs :
    (index.replaceDocument documentId record).allDocs = insert documentId index.allDocs := by
  unfold VectorOnlyIndex.replaceDocument
  cases index.documents[documentId]? with
  | none => rfl
  | some old =>
    ext other
    simp only [VectorOnlyIndex.addDocumentIndexes, VectorOnlyIndex.removeDocumentIndexes,
      Finset.mem_insert, Finset.mem_erase]
    tauto

/-- The owner map after a replacement: the new chunks are the document's, its other old ones nobody's. -/
theorem replaceDocument_owner (chunkId : String) :
    (index.replaceDocument documentId record).chunkOwnerById[chunkId]? =
      if chunkId ∈ record.chunkIds then some documentId
      else if chunkId ∈ chunkIdsOf index.documents documentId then none else index.chunkOwnerById[chunkId]? := by
  have hadded : ∀ unindexed : VectorOnlyIndex,
      (unindexed.addDocumentIndexes documentId record.metadata record.chunks).chunkOwnerById[chunkId]? =
        if chunkId ∈ record.chunkIds then some documentId else unindexed.chunkOwnerById[chunkId]? := by
    intro unindexed
    rw [← getElem?_writeAll_const, DocumentRecord.chunkIds, List.map_map]
    rfl
  unfold VectorOnlyIndex.replaceDocument
  simp only [hadded]
  cases hold : index.documents[documentId]? with
  | none => simp [chunkIdsOf, hold]
  | some old =>
    simp only [VectorOnlyIndex.removeDocumentIndexes, getElem?_eraseAll, chunkIdsOf, hold,
      Option.map_some, Option.getD_some, DocumentRecord.chunkIds]

theorem OwnersList.replaceDocument (h : OwnersList index) : OwnersList (index.replaceDocument documentId record) := by
  intro chunkId owner howner
  rw [replaceDocument_owner] at howner
  rw [replaceDocument_documents, hasChunk_insert]
  split at howner
  · rename_i hnew
    cases howner
    exact .inl ⟨rfl, hnew⟩
  · split at howner
    · cases howner
    · rename_i hold
      have hlist := h chunkId owner howner
      exact .inr ⟨fun heq => hold (mem_chunkIdsOf.mpr (heq ▸ hlist)), hlist⟩

/-- The chunk ids owned after a replacement. -/
theorem ownedChunks_insert (hidxd : Indexed index) :
    ownedChunks (index.documents.insert documentId record) =
      (ownedChunks index.documents \ (chunkIdsOf index.documents documentId).toFinset) ∪
        record.chunkIds.toFinset := by
  ext chunkId
  simp only [mem_ownedChunks, hasChunk_insert, Finset.mem_union, Finset.mem_sdiff, List.mem_toFinset, mem_chunkIdsOf]
  constructor
  · rintro ⟨other, ⟨-, hnew⟩ | ⟨hne, hother⟩⟩
    · exact .inr hnew
    · exact .inl ⟨⟨other, hother⟩, fun hsame => hne (hidxd.owner.unique hother hsame)⟩
  · rintro (⟨⟨other, hother⟩, hnot⟩ | hnew)
    · exact ⟨other, .inr ⟨fun heq => hnot (heq ▸ hother), hother⟩⟩
    · exact ⟨documentId, .inl ⟨rfl, hnew⟩⟩

/-- Replacing a document by one whose chunk ids are free keeps the structures in step. -/
theorem Indexed.replaceDocument (hidxd : Indexed index) (hnodup : record.chunkIds.Nodup)
    (hfree : ∀ chunkId ∈ record.chunkIds, ∀ other, HasChunk index.documents other chunkId →
      other = documentId) : Indexed (index.replaceDocument documentId record) := by
  constructor
  · intro other
    rw [replaceDocument_documents, chunkIdsOf, getElem?_insert]
    split
    · exact hnodup
    · exact hidxd.nodup other
  · rw [replaceDocument_documents]
    apply hidxd.owner.replace (· ∈ record.chunkIds)
    · exact fun chunkId other hnew => hfree chunkId hnew other
    · exact fun other chunkId => hasChunk_insert
    · intro chunkId hnew
      rw [replaceDocument_owner, if_pos hnew]
    · intro chunkId hnew hold
      rw [replaceDocument_owner, if_neg hnew, if_pos (mem_chunkIdsOf.mpr hold)]
    · intro chunkId hnew hold
      rw [replaceDocument_owner, if_neg hnew, if_neg (mem_chunkIdsOf.not.mpr hold)]
  · rw [replaceDocument_allDocs, replaceDocument_documents, keySet_insert, hidxd.allDocs]

end Replace

section Drop

variable {index : VectorOnlyIndex} {documentId : String} {record : DocumentRecord}

theorem OwnersList.dropDocument (h : OwnersList index) (hrec : index.documents[documentId]? = some record) :
    OwnersList (index.dropDocument documentId record) := by
  intro chunkId owner howner
  obtain ⟨hnot, hkept⟩ := of_getElem?_eraseAll howner
  have hlist := h chunkId owner hkept
  refine hasChunk_erase.mpr ⟨?_, hlist⟩
  rintro rfl
  obtain ⟨other, hother, hchunk⟩ := hlist
  cases hrec.symm.trans hother
  exact hnot hchunk

/-- The chunk ids owned after a document is dropped. -/
theorem ownedChunks_erase (hidxd : Indexed index) :
    ownedChunks (index.documents.erase documentId) =
      ownedChunks index.documents \ (chunkIdsOf index.documents documentId).toFinset := by
  ext chunkId
  simp only [mem_ownedChunks, hasChunk_erase, Finset.mem_sdiff, List.mem_toFinset, mem_chunkIdsOf]
  constructor
  · rintro ⟨other, hne, hother⟩
    exact ⟨⟨other, hother⟩, fun hsame => hne (hidxd.owner.unique hother hsame)⟩
  · rintro ⟨⟨other, hother⟩, hnot⟩
    exact ⟨other, fun heq => hnot (heq ▸ hother), hother⟩

/-- Dropping a document keeps the structures in step. -/
theorem Indexed.dropDocument (hidxd : Indexed index) (hrec : index.documents[documentId]? = some record) :
    Indexed (index.dropDocument documentId record) := by
  have hids : ∀ chunkId, chunkId ∈ record.chunks.map (·.chunkId) ↔ HasChunk index.documents documentId chunkId := by
    intro chunkId
    simp [HasChunk, hrec, DocumentRecord.chunkIds]
  constructor
  · intro other
    simp only [VectorOnlyIndex.dropDocument, VectorOnlyIndex.removeDocumentIndexes, chunkIdsOf, getElem?_erase]
    split
    · simp
    · exact hidxd.nodup other
  · apply hidxd.owner.remove (fun _ _ => hasChunk_erase)
    · intro chunkId hchunk
      exact (getElem?_eraseAll _ _ _).trans (if_pos ((hids chunkId).mpr hchunk))
    · intro chunkId hchunk
      exact (getElem?_eraseAll _ _ _).trans (if_neg ((hids chunkId).not.mpr hchunk))
  · simp only [VectorOnlyIndex.dropDocument, VectorOnlyIndex.removeDocumentIndexes, keySet_erase, hidxd.allDocs]

end Drop

end LodeDB.Engine
