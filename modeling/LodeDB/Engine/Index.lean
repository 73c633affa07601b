import LodeDB.Engine.NativeIndex
import LodeDB.Filter.FieldIndex
import LodeDB.Storage.Tvvf

/-!
# The in-memory index

One index of the engine with what its mutations keep in step: the documents, the document-id set, the chunk-owner
map, the metadata field indexes, the live vector index, and the sets that record what the next commit has to write.
Query caches that a mutation only drops are left out.
-/

namespace LodeDB.Engine

open TreeMapRules
open LodeDB.Filter (Metadata DocSet FieldIndex FieldIndexes)
open LodeDB.Storage (TvvfManifestEntry TvvfReader)

variable (P : Primitives)

/-- Vectors by chunk id. -/
abbrev ChunkVectors := Std.ExtTreeMap String Embedding compare

/-- A native index with its document state and pending commit sets. -/
structure VectorOnlyIndex where
  vectorDim : ℕ
  rescoreDtype : Option TvvfDtype
  annConfigured : Bool
  documents : Documents
  generation : ℕ
  appliedLsn : ℕ
  persistedAppliedLsn : ℕ
  vectorsSeeded : Bool
  vectorsResident : Bool
  deleteCount : ℕ
  deletedChunkCount : ℕ
  vectorIndex : Option TurboVecNativeIndex
  pendingRescoreUpserts : Std.ExtTreeMap UInt64 (List UInt8) compare
  tvvfReader : Option TvvfReader
  tvvfManifest : Option TvvfManifestEntry
  tvvfSidecarUnavailable : Bool
  dropTvvfManifest : Bool
  forceBaseRewrite : Bool
  fieldIndexes : Option FieldIndexes
  allDocs : DocSet
  chunkOwnerById : Std.ExtTreeMap String String compare
  baseEpoch : ℕ
  baseCalibrationFingerprint : UInt64
  pendingUpserts : DocSet
  pendingDeletes : DocSet
  pendingLexicalClears : DocSet
  pendingRawTextClears : DocSet
  pendingMultivecClears : DocSet
  pendingRemovedStableIds : Finset UInt64
  pendingNewStableIds : Finset UInt64
  pendingVectorsChanged : Bool

namespace VectorOnlyIndex

/-- A fresh index. -/
def new (vectorDim : ℕ) (rescoreDtype : Option TvvfDtype) (annConfigured : Bool := false) : VectorOnlyIndex where
  vectorDim := vectorDim
  rescoreDtype := rescoreDtype
  annConfigured := annConfigured
  documents := ∅
  generation := 0
  appliedLsn := 0
  persistedAppliedLsn := 0
  vectorsSeeded := true
  vectorsResident := true
  deleteCount := 0
  deletedChunkCount := 0
  vectorIndex := none
  pendingRescoreUpserts := ∅
  tvvfReader := none
  tvvfManifest := none
  tvvfSidecarUnavailable := false
  dropTvvfManifest := false
  forceBaseRewrite := false
  fieldIndexes := some ∅
  allDocs := ∅
  chunkOwnerById := ∅
  baseEpoch := 0
  baseCalibrationFingerprint := 0
  pendingUpserts := ∅
  pendingDeletes := ∅
  pendingLexicalClears := ∅
  pendingRawTextClears := ∅
  pendingMultivecClears := ∅
  pendingRemovedStableIds := ∅
  pendingNewStableIds := ∅
  pendingVectorsChanged := false

variable (index : VectorOnlyIndex)

/-- Mutations need the vector sidecars to be loaded. -/
def requireVectorsMutable : Except CoreError Unit :=
  if index.vectorsSeeded then .ok ()
  else .error ⟨.unsupported, "persisted vector sidecars are not yet loaded by native core"⟩

/-- Building the live index needs full-precision vectors in memory. -/
def requireVectorsResident : Except CoreError Unit :=
  if index.vectorsResident then .ok ()
  else .error ⟨.unsupported, "full-precision vectors are not resident on this read-only handle; " ++
      "the operation needs a writable (or eagerly loaded) open"⟩

/-- The number of chunks over all documents. -/
def chunkCount : ℕ :=
  index.documents.toList.foldl (fun count document => count + document.2.chunks.length) 0

/-- Every chunk with its document, in document order. -/
def vectorChunks : List CoreVectorChunk :=
  index.documents.toList.flatMap fun document =>
    document.2.chunks.map fun chunk => ⟨chunk.chunkId, document.1, chunk.vector⟩

/-- Add a document to the document-id set, field indexes, owner map and pending upserts. -/
def addDocumentIndexes (documentId : String) (metadata : Metadata)
    (chunks : List ChunkRecord) : VectorOnlyIndex :=
  { index with
    allDocs := insert documentId index.allDocs
    fieldIndexes := index.fieldIndexes.map fun fields =>
      metadata.toList.foldl (FieldIndexes.insert documentId) fields
    chunkOwnerById := writeAll index.chunkOwnerById (chunks.map fun chunk => (chunk.chunkId, documentId))
    pendingDeletes := index.pendingDeletes.erase documentId
    pendingUpserts := insert documentId index.pendingUpserts }

/-- Take a document out of the document-id set, the field indexes and the owner map, and note it. -/
def removeDocumentIndexes (documentId : String) (metadata : Metadata)
    (chunks : List ChunkRecord) : VectorOnlyIndex :=
  { index with
    allDocs := index.allDocs.erase documentId
    fieldIndexes := index.fieldIndexes.map fun fields =>
      metadata.toList.foldl (FieldIndexes.remove documentId) fields
    pendingUpserts := index.pendingUpserts.erase documentId
    pendingDeletes := insert documentId index.pendingDeletes
    chunkOwnerById := eraseAll index.chunkOwnerById (chunks.map (·.chunkId)) }

/-- The metadata fields whose index a mutation of a document touches. -/
def changedFilterFields (metadata : Metadata) : Finset String :=
  if index.fieldIndexes.isSome then keySet metadata else ∅

/-- Drop the changed fields that no document carries any more. -/
def finalizeFilterFields (changed : Finset String) : VectorOnlyIndex :=
  { index with
    fieldIndexes := index.fieldIndexes.map fun fields =>
      fields.filter fun field values => !(decide (field ∈ changed) && values.isEmpty) }

/-- Replace the live index after an upsert, and move its rows between the pending sets. -/
def recordReadded (live : TurboVecNativeIndex) (preExisting : List UInt64)
    (chunks : List CoreVectorChunk) : VectorOnlyIndex :=
  let readded := live.stableIdsForChunks (chunks.map (·.chunkId))
  { index with
    vectorIndex := some live
    pendingRemovedStableIds := index.pendingRemovedStableIds \ readded.toFinset
    pendingNewStableIds := index.pendingNewStableIds ∪ readded.toFinset.filter fun stableId =>
        stableId ∉ preExisting ∧ stableId ∉ index.pendingRemovedStableIds
    pendingRescoreUpserts :=
      match index.rescoreDtype with
      | none => index.pendingRescoreUpserts
      | some dtype => writeAll index.pendingRescoreUpserts
          (readded.zip (chunks.map fun chunk => P.encodeRow dtype chunk.embedding))
    pendingVectorsChanged := index.pendingVectorsChanged || chunks ≠ [] }

/-- Bring the live index up to date with upserted chunks, building it on first use. A failure leaves all as it was. -/
def syncVectorIndexUpsert (chunks : List CoreVectorChunk) :
    Except CoreError VectorOnlyIndex :=
  match index.vectorIndex with
  | none => do
    index.requireVectorsResident
    let built ← TurboVecNativeIndex.build P index.vectorChunks index.vectorDim
    return index.recordReadded P built [] chunks
  | some live => do
    let upserted ← live.upsertChunks P chunks
    return index.recordReadded P upserted (live.stableIdsForChunks (chunks.map (·.chunkId))) chunks

/-- Remove chunks from the live index. A row written since the last commit cancels out; others are noted. -/
def syncVectorIndexRemove (chunkIds : List String) : VectorOnlyIndex :=
  match index.vectorIndex with
  | none => index
  | some live =>
    let removed := live.stableIdsForChunks chunkIds
    { index with
      vectorIndex := some (live.removeChunks chunkIds)
      pendingRescoreUpserts := eraseAll index.pendingRescoreUpserts removed
      pendingNewStableIds := index.pendingNewStableIds \ removed.toFinset
      pendingRemovedStableIds := index.pendingRemovedStableIds ∪ (removed.toFinset \ index.pendingNewStableIds)
      pendingVectorsChanged := index.pendingVectorsChanged || removed ≠ [] }

/-- The document that owns a chunk id, with its record. -/
def documentForChunk (chunkId : String) : Option (String × DocumentRecord) := do
  let documentId ← index.chunkOwnerById[chunkId]?
  let record ← index.documents[documentId]?
  return (documentId, record)

/-- The part of an index that mutations only read: its shape and where it stands on disk. -/
structure Bookkeeping where
  vectorDim : ℕ
  rescoreDtype : Option TvvfDtype
  annConfigured : Bool
  appliedLsn : ℕ
  persistedAppliedLsn : ℕ
  vectorsSeeded : Bool
  vectorsResident : Bool
  tvvfReader : Option TvvfReader
  tvvfManifest : Option TvvfManifestEntry
  tvvfSidecarUnavailable : Bool
  dropTvvfManifest : Bool
  forceBaseRewrite : Bool
  baseEpoch : ℕ
  baseCalibrationFingerprint : UInt64

/-- The bookkeeping of an index. -/
def bookkeeping : Bookkeeping where
  vectorDim := index.vectorDim
  rescoreDtype := index.rescoreDtype
  annConfigured := index.annConfigured
  appliedLsn := index.appliedLsn
  persistedAppliedLsn := index.persistedAppliedLsn
  vectorsSeeded := index.vectorsSeeded
  vectorsResident := index.vectorsResident
  tvvfReader := index.tvvfReader
  tvvfManifest := index.tvvfManifest
  tvvfSidecarUnavailable := index.tvvfSidecarUnavailable
  dropTvvfManifest := index.dropTvvfManifest
  forceBaseRewrite := index.forceBaseRewrite
  baseEpoch := index.baseEpoch
  baseCalibrationFingerprint := index.baseCalibrationFingerprint

/-- The part of an index that syncing the live vector index leaves alone. -/
structure DocumentState where
  bookkeeping : Bookkeeping
  documents : Documents
  generation : ℕ
  fieldIndexes : Option FieldIndexes
  allDocs : DocSet
  chunkOwnerById : Std.ExtTreeMap String String compare
  pendingUpserts : DocSet
  pendingDeletes : DocSet
  pendingLexicalClears : DocSet
  pendingRawTextClears : DocSet
  pendingMultivecClears : DocSet

/-- The document state of an index. -/
def documentState : DocumentState where
  bookkeeping := index.bookkeeping
  documents := index.documents
  generation := index.generation
  fieldIndexes := index.fieldIndexes
  allDocs := index.allDocs
  chunkOwnerById := index.chunkOwnerById
  pendingUpserts := index.pendingUpserts
  pendingDeletes := index.pendingDeletes
  pendingLexicalClears := index.pendingLexicalClears
  pendingRawTextClears := index.pendingRawTextClears
  pendingMultivecClears := index.pendingMultivecClears

/-- What an index knows of its rows. -/
structure RowState where
  vectorIndex : Option TurboVecNativeIndex
  pendingRemovedStableIds : Finset UInt64
  pendingNewStableIds : Finset UInt64

/-- The row state of an index. -/
def rowState : RowState :=
  ⟨index.vectorIndex, index.pendingRemovedStableIds, index.pendingNewStableIds⟩

/-- The part of an index that the invariants of mutations speak of. -/
structure Core where
  documents : Documents
  chunkOwnerById : Std.ExtTreeMap String String compare
  allDocs : DocSet
  pendingUpserts : DocSet
  rowState : RowState
  vectorDim : ℕ
  vectorsSeeded : Bool
  vectorsResident : Bool

/-- The core of an index. -/
def core : Core :=
  ⟨index.documents, index.chunkOwnerById, index.allDocs, index.pendingUpserts, index.rowState, index.vectorDim,
    index.vectorsSeeded, index.vectorsResident⟩

/-- Putting documents leaves an index's shape, generation and rows alone. -/
structure Puts (before after : VectorOnlyIndex) : Prop where
  bookkeeping : after.bookkeeping = before.bookkeeping
  generation : after.generation = before.generation
  rowState : after.rowState = before.rowState

namespace Puts

variable {before middle after : VectorOnlyIndex}

theorem refl : Puts index index := ⟨rfl, rfl, rfl⟩

theorem trans (h : Puts before middle) (hnext : Puts middle after) : Puts before after :=
  ⟨hnext.bookkeeping.trans h.bookkeeping, hnext.generation.trans h.generation, hnext.rowState.trans h.rowState⟩

theorem vectorIndex (h : Puts before after) : after.vectorIndex = before.vectorIndex :=
  congrArg RowState.vectorIndex h.rowState

theorem vectorDim (h : Puts before after) : after.vectorDim = before.vectorDim :=
  congrArg Bookkeeping.vectorDim h.bookkeeping

end Puts

section Remove

variable (index : VectorOnlyIndex) (chunkIds : List String)

@[simp] theorem syncVectorIndexRemove_documentState :
    (index.syncVectorIndexRemove chunkIds).documentState = index.documentState := by
  unfold syncVectorIndexRemove
  cases index.vectorIndex <;> rfl

theorem syncVectorIndexRemove_documents : (index.syncVectorIndexRemove chunkIds).documents = index.documents :=
  congrArg DocumentState.documents (index.syncVectorIndexRemove_documentState chunkIds)

theorem syncVectorIndexRemove_bookkeeping : (index.syncVectorIndexRemove chunkIds).bookkeeping = index.bookkeeping :=
  congrArg DocumentState.bookkeeping (index.syncVectorIndexRemove_documentState chunkIds)

theorem syncVectorIndexRemove_vectorDim : (index.syncVectorIndexRemove chunkIds).vectorDim = index.vectorDim :=
  congrArg Bookkeeping.vectorDim (index.syncVectorIndexRemove_bookkeeping chunkIds)

theorem syncVectorIndexRemove_vectorChunks :
    (index.syncVectorIndexRemove chunkIds).vectorChunks = index.vectorChunks := by
  rw [vectorChunks, vectorChunks, syncVectorIndexRemove_documents]

/-- Removing no chunk changes nothing. -/
theorem syncVectorIndexRemove_nil : index.syncVectorIndexRemove [] = index := by
  unfold syncVectorIndexRemove
  cases hlive : index.vectorIndex with
  | none => rfl
  | some live =>
    have hsame : live.removeChunks [] = live := rfl
    have hnone : live.stableIdsForChunks [] = [] := rfl
    simp only [hsame, hnone, eraseAll, List.foldl_nil, List.toFinset_nil, Finset.sdiff_empty,
      Finset.empty_sdiff, Finset.union_empty, ne_eq, not_true_eq_false, decide_false, Bool.or_false,
      ← hlive]

theorem syncVectorIndexRemove_vectorIndex :
    (index.syncVectorIndexRemove chunkIds).vectorIndex = index.vectorIndex.map (·.removeChunks chunkIds) := by
  unfold syncVectorIndexRemove
  cases hlive : index.vectorIndex with
  | none => simpa using hlive
  | some live => rfl

end Remove

end VectorOnlyIndex

end LodeDB.Engine
