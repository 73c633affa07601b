import LodeDB.Engine.Consistent
import LodeDB.Engine.Mutation

/-!
# Deletes

Every id is checked before anything changes. A deleted document's sidecar payloads are recorded as
clears, so that a later re-add without them does not bring the committed ones back.
-/

namespace LodeDB.Engine

open TreeMapRules
open LodeDB.Filter (DocSet)
open Text (StableOn)

/-- The check on one document id. -/
def checkDocumentId (documentId : String) : Except CoreError Unit :=
  ExceptRules.ensure (isBlank documentId = false) (invalid "document_id is required")

/-- What the loop over the ids has done so far. -/
structure DeleteBatch where
  index : VectorOnlyIndex
  deleted : ℕ
  deletedChunks : ℕ
  changedFilterFields : Finset String

variable (index : VectorOnlyIndex)

/-- Take one document out, recording a clear for each payload it has. -/
def takeDocument (documentId : String) (record : DocumentRecord) : VectorOnlyIndex :=
  { index.dropDocument documentId record with
    pendingRawTextClears := trackClear index.pendingRawTextClears documentId false record.text.isSome
    pendingLexicalClears := trackClear index.pendingLexicalClears documentId false
      (record.tokenLists ≠ [])
    pendingMultivecClears := trackClear index.pendingMultivecClears documentId false
      record.patchMatrix.isSome }

/-- One turn of the loop. -/
def deleteDocument (batch : DeleteBatch) (documentId : String) : DeleteBatch :=
  match batch.index.documents[documentId]? with
  | none => batch
  | some record =>
    { index := (takeDocument batch.index documentId record).syncVectorIndexRemove record.chunkIds
      deleted := batch.deleted + 1
      deletedChunks := batch.deletedChunks + record.chunks.length
      changedFilterFields := batch.changedFilterFields ∪ batch.index.changedFilterFields record.metadata }

/-- The whole loop, over each distinct id once. -/
def deleteLoop (documentIds : List String) : DeleteBatch :=
  documentIds.eraseDups.foldl deleteDocument ⟨index, 0, 0, ∅⟩

/-- Close a batch that deleted something. -/
def DeleteBatch.close (batch : DeleteBatch) : VectorOnlyIndex :=
  if batch.deleted = 0 then batch.index
  else { batch.index.finalizeFilterFields batch.changedFilterFields with
    deleteCount := batch.index.deleteCount + batch.deleted
    deletedChunkCount := batch.index.deletedChunkCount + batch.deletedChunks
    generation := batch.index.generation + 1 }

/-- Delete documents. -/
def deleteDocuments (documentIds : List String) : Outcome :=
  match (do index.requireVectorsMutable; documentIds.forM checkDocumentId) with
  | .error error => ⟨index, .error error⟩
  | .ok () =>
    let batch := deleteLoop index documentIds
    let closed := batch.close
    ⟨closed, .ok {
      result := ⟨0, batch.deleted, 0, batch.deletedChunks, closed.generation⟩
      wal := if batch.deleted = 0 then none else some (.deleteDocuments documentIds) }⟩

variable {P : Primitives} {ids : Set String} {start : VectorOnlyIndex}

/-- A delete keeps what taking one document out keeps. -/
theorem deleteDocuments_lands {Inv : VectorOnlyIndex → Prop} (hcore : OfCore Inv)
    (htake : ∀ (index : VectorOnlyIndex) (documentId : String) (record : DocumentRecord), Inv index →
      index.documents[documentId]? = some record →
      Inv ((takeDocument index documentId record).syncVectorIndexRemove record.chunkIds))
    (hstart : Inv start) (documentIds : List String) : Lands Inv start (deleteDocuments start documentIds) := by
  have hloop : Inv (deleteLoop start documentIds).index ∧
      (deleteLoop start documentIds).index.generation = start.generation ∧
      ((deleteLoop start documentIds).deleted = 0 → (deleteLoop start documentIds).index = start) := by
    refine List.foldlRecOn documentIds.eraseDups deleteDocument (motive := fun batch => Inv batch.index ∧
      batch.index.generation = start.generation ∧ (batch.deleted = 0 → batch.index = start))
      (b := ⟨start, 0, 0, ∅⟩) ⟨hstart, rfl, fun _ => rfl⟩ ?_
    rintro batch ⟨hinv, hgen, hsame⟩ documentId -
    unfold deleteDocument
    split
    · exact ⟨hinv, hgen, hsame⟩
    · rename_i record hrec
      have hstate := (takeDocument batch.index documentId record).syncVectorIndexRemove_documentState record.chunkIds
      refine ⟨htake _ _ _ hinv hrec, ?_, fun hzero => absurd hzero (Nat.succ_ne_zero _)⟩
      exact (congrArg VectorOnlyIndex.DocumentState.generation hstate).trans hgen
  obtain ⟨hinv, hgen, hsame⟩ := hloop
  unfold deleteDocuments
  split
  · exact lands_of_failed hstart _
  · by_cases hzero : (deleteLoop start documentIds).deleted = 0
    · simp only [DeleteBatch.close, hzero, if_true]
      exact lands_of_ok hinv (.inl (hsame hzero)) _
    · simp only [DeleteBatch.close, hzero, if_false]
      refine lands_of_ok ?_ (.inr (congrArg (· + 1) hgen)) _
      exact hcore _ _ hinv rfl

/-- Taking a document out with its rows keeps the invariant. -/
theorem Consistent.takeDocument {index : VectorOnlyIndex} (h : Consistent P ids index)
    (hstab : StableOn P ids) {documentId : String} {record : DocumentRecord}
    (hrec : index.documents[documentId]? = some record) :
    Consistent P ids ((takeDocument index documentId record).syncVectorIndexRemove record.chunkIds) := by
  have hdrop := h.indexed.dropDocument hrec
  have howned : ownedChunks (index.documents.erase documentId) =
      ownedChunks index.documents \ record.chunkIds.toFinset := by
    rw [ownedChunks_erase h.indexed, chunkIdsOf, hrec]
    rfl
  have hunsynced : Unsynced ids index (Engine.takeDocument index documentId record) record.chunkIds [] := by
    refine ⟨⟨hdrop.nodup, hdrop.owner, hdrop.allDocs⟩, ?_, ?_, ⟨rfl, rfl, rfl⟩⟩
    · intro chunkId hchunk
      have hkept : chunkId ∈ ownedChunks (index.documents.erase documentId) := hchunk
      rw [howned] at hkept
      exact h.within chunkId (Finset.mem_sdiff.mp hkept).1
    · rw [List.map_nil, List.toFinset_nil, Finset.union_empty]
      exact howned
  exact hunsynced.consistent_removed h hstab fun hempty => by simp [hempty] at hrec

/-- A delete keeps the invariant. -/
theorem Consistent.deleteDocuments (hstart : Consistent P ids start) (hstab : StableOn P ids)
    (documentIds : List String) : Lands (Consistent P ids) start (deleteDocuments start documentIds) :=
  deleteDocuments_lands (fun _ _ h => h.of_core) (fun _ _ _ h => h.takeDocument hstab) hstart documentIds

end LodeDB.Engine
