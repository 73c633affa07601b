import LodeDB.Engine.Session

/-!
# What a call leaves alone

Whatever a public call does and returns, it keeps the shape of the index and where the index stands
on disk.
-/

namespace LodeDB.Engine

open ExceptRules TreeMapRules
open LodeDB.Filter (Metadata)

variable {P : Primitives} {policy : TextPolicy} {index : VectorOnlyIndex}

variable {chunks : List CoreVectorChunk} {synced : VectorOnlyIndex}

/-- Upserting rows leaves the documents and their structures. -/
theorem syncVectorIndexUpsert_documentState (hsync : index.syncVectorIndexUpsert P chunks = .ok synced) :
    synced.documentState = index.documentState := by
  unfold VectorOnlyIndex.syncVectorIndexUpsert at hsync
  cases hlive : index.vectorIndex with
  | none =>
    simp only [hlive, bind_eq_ok] at hsync
    obtain ⟨-, -, built, -, hsynced⟩ := hsync
    cases hsynced
    rfl
  | some live =>
    simp only [hlive, bind_eq_ok] at hsync
    obtain ⟨upserted, -, hsynced⟩ := hsync
    cases hsynced
    rfl

/-- Upserting rows leaves the bookkeeping. -/
theorem syncVectorIndexUpsert_bookkeeping (hsync : index.syncVectorIndexUpsert P chunks = .ok synced) :
    synced.bookkeeping = index.bookkeeping :=
  congrArg VectorOnlyIndex.DocumentState.bookkeeping (syncVectorIndexUpsert_documentState hsync)

section Vectors

/-- Syncing a vector batch leaves the bookkeeping, also where it fails. -/
theorem vectorBatch_sync_bookkeeping (batch : VectorBatch) :
    (batch.sync P).1.bookkeeping = batch.index.bookkeeping ∧
      ∀ synced, (batch.sync P).2 = .ok synced → synced.bookkeeping = batch.index.bookkeeping := by
  have hrem := batch.index.syncVectorIndexRemove_bookkeeping batch.removedChunkIds
  rw [VectorBatch.sync_eq]
  refine ⟨hrem, fun synced hsync => ?_⟩
  dsimp only at hsync
  split at hsync
  · cases hsync
    exact hrem
  · exact (syncVectorIndexUpsert_bookkeeping hsync).trans hrem

/-- A vector upsert leaves the bookkeeping. -/
theorem upsertVectors_bookkeeping (index : VectorOnlyIndex) (documents : List CoreVectorDocument) :
    (upsertVectors P policy index documents).index.bookkeeping = index.bookkeeping := by
  have hloop : (upsertVectorLoop P policy index documents).index.bookkeeping = index.bookkeeping :=
    (upsertVectorLoop_puts index documents).bookkeeping
  obtain ⟨hrem, hsynced⟩ := vectorBatch_sync_bookkeeping (P := P) (upsertVectorLoop P policy index documents)
  unfold upsertVectors
  split
  · rfl
  · dsimp only
    split
    · rename_i removed error hsync
      rw [hsync] at hrem
      exact hrem.trans hloop
    · rename_i removed synced hsync
      rw [hsync] at hsynced
      refine Eq.trans ?_ ((hsynced synced rfl).trans hloop)
      simp only [VectorBatch.close]
      split <;> rfl

end Vectors

section Deletes

/-- A delete leaves the bookkeeping. -/
theorem deleteDocuments_bookkeeping (index : VectorOnlyIndex) (documentIds : List String) :
    (deleteDocuments index documentIds).index.bookkeeping = index.bookkeeping := by
  have hloop : (deleteLoop index documentIds).index.bookkeeping = index.bookkeeping := by
    refine List.foldlRecOn documentIds.eraseDups deleteDocument (b := ⟨index, 0, 0, ∅⟩)
      (motive := fun batch => batch.index.bookkeeping = index.bookkeeping) rfl fun batch h documentId _ => ?_
    unfold deleteDocument
    split
    · exact h
    · exact (VectorOnlyIndex.syncVectorIndexRemove_bookkeeping _ _).trans h
  have hclose : ∀ batch : DeleteBatch, batch.close.bookkeeping = batch.index.bookkeeping := by
    intro batch
    unfold DeleteBatch.close
    split <;> rfl
  unfold deleteDocuments
  split
  · rfl
  · exact (hclose _).trans hloop

end Deletes

/-- A payload update leaves the bookkeeping. -/
theorem updateDocumentPayload_bookkeeping (index : VectorOnlyIndex) (documentId : String)
    (metadata : Option Metadata) (text : Option (Option String)) :
    (updateDocumentPayload P policy index documentId metadata text).index.bookkeeping = index.bookkeeping := by
  unfold updateDocumentPayload
  split
  · rfl
  · split
    · rfl
    · rename_i record hrec
      have hputs : index.Puts (putUpdated P policy index documentId record metadata text) := putUpdated_puts
      refine Eq.trans ?_ hputs.bookkeeping
      dsimp only
      cases text <;> (simp only [trackText]; split <;> rfl)

section Text

/-- The loop over a plan leaves the bookkeeping, wherever it stops. -/
theorem applyPlanDocuments_bookkeeping (plan : IngestPlan)
    (existing : ChunkVectors) (documents : List PlanDocument) (batch : TextBatch) :
    (applyPlanDocuments P plan existing documents batch).1.index.bookkeeping = batch.index.bookkeeping := by
  induction documents generalizing batch with
  | nil => rfl
  | cons document rest ih =>
    unfold applyPlanDocuments
    split
    · rfl
    · rename_i next hnext
      simp only [applyPlanDocument, bind_eq_ok] at hnext
      obtain ⟨resolved, -, hput⟩ := hnext
      cases hput
      rw [ih]
      exact replaceDocument_puts.bookkeeping

/-- A text upsert leaves the bookkeeping. -/
theorem applyTextUpsert_bookkeeping (index : VectorOnlyIndex) (plan : IngestPlan) (embeddings : List Embedding) :
    (applyTextUpsert P index plan embeddings).index.bookkeeping = index.bookkeeping := by
  have hloop : (applyLoop P index plan embeddings).1.index.bookkeeping = index.bookkeeping :=
    applyPlanDocuments_bookkeeping _ _ _ _
  unfold applyTextUpsert
  split
  · rfl
  · split
    · rename_i batch error hbatch
      rw [hbatch] at hloop
      exact hloop
    · rename_i batch hbatch
      rw [hbatch] at hloop
      have hrem : (batch.sync P).1.bookkeeping = index.bookkeeping :=
        (VectorOnlyIndex.syncVectorIndexRemove_bookkeeping _ _).trans hloop
      split
      · exact hloop
      · split
        · rename_i removed error hsync
          rw [hsync] at hrem
          exact hrem
        · rename_i removed synced hsync
          have hsynced : (batch.sync P).2 = .ok synced := by rw [hsync]
          exact (syncVectorIndexUpsert_bookkeeping hsynced).trans hrem

end Text

/-- A public call keeps the bookkeeping. -/
theorem Session.call_bookkeeping (session : Session) (call : Call) :
    (session.call P policy call).1.index.bookkeeping = session.index.bookkeeping := by
  cases call with
  | upsertVectors documents => exact upsertVectors_bookkeeping _ _
  | deleteDocuments documentIds => exact deleteDocuments_bookkeeping _ _
  | updateDocumentPayload documentId metadata text => exact updateDocumentPayload_bookkeeping _ _ _ _
  | prepareTextUpsert documents planPolicy chunkCharacterLimit =>
    unfold Session.call
    dsimp only
    split <;> rfl
  | applyTextUpsert plan embeddings => exact applyTextUpsert_bookkeeping _ _ _

end LodeDB.Engine
