import LodeDB.Engine.Consistent
import LodeDB.Text.Ids
import Mathlib.Data.List.Flatten

/-!
# Syncing the live index never fails

A mutation validates its vectors first and brings the live index up to date last. `Serviceable` is what an index
keeps so that this last step cannot fail, whatever the digests of its chunk ids and whichever documents share one:
vectors in memory, of the right shape while the live index is still to be built from them, and owners that have what
they own.
-/

namespace LodeDB.Engine

open ExceptRules TreeMapRules
open Text (stableUint64IdsForChunkIds stableUint64IdsForChunkIds_nodup length_repairFrom)

variable {P : Primitives} {index : VectorOnlyIndex} {chunks : List CoreVectorChunk} {dim : ℕ}

variable {documentId : String} {record : DocumentRecord}

theorem length_stableUint64IdsForChunkIds (P : Primitives) (chunkIds : List String) :
    (stableUint64IdsForChunkIds P chunkIds).length = chunkIds.length := by
  rw [stableUint64IdsForChunkIds, Text.repairStableUint64Candidates, length_repairFrom, List.length_map]

/-- The rows of a batch of chunks, under their repaired ids. -/
def batchRows (P : Primitives) (chunks : List CoreVectorChunk) : List (UInt64 × Embedding) :=
  (stableUint64IdsForChunkIds P (chunks.map (·.chunkId))).zip (chunks.map (·.embedding))

section Batch

variable (hacc : ∀ chunk ∈ chunks, Accepted dim chunk.embedding) (hroom : chunks.length < 2 ^ 64)

include hacc hroom

/-- The kernel accepts every batch of accepted chunks, whatever their ids. -/
theorem checkBatch_batchRows : IdMapIndex.checkBatch (batchRows P chunks) = .ok () := by
  have hlen : (stableUint64IdsForChunkIds P (chunks.map (·.chunkId))).length = (chunks.map (·.embedding)).length := by
    rw [length_stableUint64IdsForChunkIds, List.length_map, List.length_map]
  have hids : (batchRows P chunks).map Prod.fst = stableUint64IdsForChunkIds P (chunks.map (·.chunkId)) :=
    List.map_fst_zip hlen.le
  have hvecs : (batchRows P chunks).all (fun entry => entry.2.all validCoord) = true := by
    rw [List.all_eq_true]
    intro entry hentry
    obtain ⟨chunk, hchunk, hemb⟩ := List.mem_map.mp (List.of_mem_zip hentry).2
    rw [← hemb]
    exact (hacc chunk hchunk).2
  rw [IdMapIndex.checkBatch, hids,
    if_pos (stableUint64IdsForChunkIds_nodup P (by rwa [List.length_map])), if_pos hvecs]

theorem addWithIds_batchRows (calibration : Option Calibration) :
    ∃ added, IdMapIndex.addWithIds P ⟨∅, calibration⟩ (batchRows P chunks) = .ok added := by
  have hfresh : ((batchRows P chunks).any fun entry =>
      (∅ : Std.ExtTreeMap UInt64 EncodedRow compare).contains entry.1) = false := by simp
  rw [IdMapIndex.addWithIds, hfresh, if_neg Bool.false_ne_true, checkBatch_batchRows hacc hroom]
  by_cases hnone : batchRows P chunks = []
  · exact ⟨_, by rw [if_pos hnone]; rfl⟩
  · exact ⟨_, by rw [if_neg hnone]; rfl⟩

theorem upsertWithIds_batchRows (kernel : IdMapIndex) :
    ∃ upserted, kernel.upsertWithIds P (batchRows P chunks) = .ok upserted := by
  rw [IdMapIndex.upsertWithIds]
  split
  · rename_i hempty
    obtain ⟨added, hadded⟩ := addWithIds_batchRows (P := P) hacc hroom kernel.calibration
    rw [← Std.ExtTreeMap.isEmpty_iff.mp hempty] at hadded
    exact ⟨added, hadded⟩
  · rw [checkBatch_batchRows hacc hroom]
    exact ⟨_, rfl⟩

/-- Building from accepted chunks succeeds. -/
theorem build_succeeds : ∃ built, TurboVecNativeIndex.build P chunks dim = .ok built ∧ built.dim = dim := by
  obtain ⟨added, hadded⟩ := addWithIds_batchRows (P := P) hacc hroom none
  rw [batchRows] at hadded
  rw [TurboVecNativeIndex.build, checkDim_accepted hacc, ok_bind]
  dsimp only
  rw [hadded]
  exact ⟨_, rfl, rfl⟩

/-- Upserting accepted chunks succeeds. -/
theorem upsertChunks_succeeds {live : TurboVecNativeIndex} (hdim : live.dim = dim) :
    ∃ upserted, live.upsertChunks P chunks = .ok upserted ∧ upserted.dim = dim := by
  rw [TurboVecNativeIndex.upsertChunks]
  by_cases hnone : chunks = []
  · exact ⟨live, by rw [if_pos hnone]; rfl, hdim⟩
  · obtain ⟨upserted, hups⟩ := upsertWithIds_batchRows (P := P) hacc hroom live.index
    rw [batchRows] at hups
    rw [if_neg hnone, hdim, checkDim_accepted hacc, ok_bind]
    dsimp only
    rw [hups]
    exact ⟨_, rfl, rfl⟩

end Batch

/-- An index whose live index can always be brought up to date. -/
structure Serviceable (index : VectorOnlyIndex) : Prop where
  resident : index.vectorsResident = true
  unbuilt : index.vectorIndex = none → ∀ (documentId : String) (record : DocumentRecord),
    index.documents[documentId]? = some record → ∀ chunk ∈ record.chunks, Accepted index.vectorDim chunk.vector
  built : ∀ live, index.vectorIndex = some live → live.dim = index.vectorDim
  owner : OwnersList index

/-- Only the core of an index matters. -/
theorem Serviceable.of_core {other : VectorOnlyIndex} (h : Serviceable index) (hcore : other.core = index.core) :
    Serviceable other := by
  obtain ⟨hdocs, howner, -, -, hrows, hdim, -, hres⟩ := VectorOnlyIndex.Core.mk.inj hcore
  have hlive : other.vectorIndex = index.vectorIndex := congrArg VectorOnlyIndex.RowState.vectorIndex hrows
  refine ⟨hres.trans h.resident, ?_, ?_, ?_⟩
  · rw [hlive, hdocs, hdim]
    exact h.unbuilt
  · rw [hlive, hdim]
    exact h.built
  · unfold OwnersList
    rw [howner, hdocs]
    exact h.owner

theorem serviceable_new (vectorDim : ℕ) (rescoreDtype : Option TvvfDtype) (annConfigured : Bool) :
    Serviceable (VectorOnlyIndex.new vectorDim rescoreDtype annConfigured) where
  resident := rfl
  unbuilt := by simp [VectorOnlyIndex.new]
  built := by simp [VectorOnlyIndex.new]
  owner := by simp [OwnersList, VectorOnlyIndex.new]

/-- Putting a document with fit vectors keeps the index serviceable. -/
theorem Serviceable.replaceDocument (h : Serviceable index)
    (hacc : index.vectorIndex = none → ∀ chunk ∈ record.chunks, Accepted index.vectorDim chunk.vector) :
    Serviceable (index.replaceDocument documentId record) := by
  have hputs : index.Puts (index.replaceDocument documentId record) := replaceDocument_puts
  refine ⟨(congrArg VectorOnlyIndex.Bookkeeping.vectorsResident hputs.bookkeeping).trans h.resident, ?_, ?_,
    h.owner.replaceDocument⟩
  · intro hnone other found hfound
    rw [hputs.vectorIndex] at hnone
    rw [replaceDocument_documents] at hfound
    rw [hputs.vectorDim]
    rcases of_getElem?_insert hfound with ⟨_, rfl⟩ | hfound
    · exact hacc hnone
    · exact h.unbuilt hnone other found hfound
  · rw [hputs.vectorIndex, hputs.vectorDim]
    exact h.built

/-- Dropping a document keeps the index serviceable. -/
theorem Serviceable.dropDocument (h : Serviceable index) (hrec : index.documents[documentId]? = some record) :
    Serviceable (index.dropDocument documentId record) := by
  refine ⟨h.resident, ?_, h.built, h.owner.dropDocument hrec⟩
  intro hnone other found hfound
  exact h.unbuilt hnone other found (of_getElem?_erase hfound).2

/-- A record with the same chunks changes nothing. -/
theorem Serviceable.insert_same (h : Serviceable index) {updated : DocumentRecord}
    (hrec : index.documents[documentId]? = some record) (hchunks : updated.chunks = record.chunks) :
    Serviceable { index with documents := index.documents.insert documentId updated } := by
  refine ⟨h.resident, ?_, h.built, ?_⟩
  · intro hnone other found hfound
    rcases of_getElem?_insert hfound with ⟨_, rfl⟩ | hbefore
    · rw [hchunks]
      exact h.unbuilt hnone documentId record hrec
    · exact h.unbuilt hnone other found hbefore
  · intro chunkId owner howner
    obtain ⟨found, hfound, hchunk⟩ := h.owner chunkId owner howner
    by_cases hself : owner = documentId
    · subst hself
      cases hrec.symm.trans hfound
      refine hasChunk_insert.mpr (.inl ⟨rfl, ?_⟩)
      rw [DocumentRecord.chunkIds, hchunks]
      exact hchunk
    · exact hasChunk_insert.mpr (.inr ⟨hself, found, hfound, hchunk⟩)

theorem Serviceable.syncVectorIndexRemove (h : Serviceable index) (chunkIds : List String) :
    Serviceable (index.syncVectorIndexRemove chunkIds) := by
  have hres := congrArg VectorOnlyIndex.Bookkeeping.vectorsResident (index.syncVectorIndexRemove_bookkeeping chunkIds)
  have howner : (index.syncVectorIndexRemove chunkIds).chunkOwnerById = index.chunkOwnerById :=
    congrArg VectorOnlyIndex.DocumentState.chunkOwnerById (index.syncVectorIndexRemove_documentState chunkIds)
  refine ⟨hres.trans h.resident, ?_, ?_, ?_⟩
  · rw [index.syncVectorIndexRemove_vectorIndex, Option.map_eq_none_iff, index.syncVectorIndexRemove_documents,
      index.syncVectorIndexRemove_vectorDim]
    exact h.unbuilt
  · intro live hlive
    rw [index.syncVectorIndexRemove_vectorIndex] at hlive
    obtain ⟨before, hbefore, rfl⟩ := Option.map_eq_some_iff.mp hlive
    rw [TurboVecNativeIndex.removeChunks_dim, index.syncVectorIndexRemove_vectorDim]
    exact h.built before hbefore
  · unfold OwnersList
    rw [howner, index.syncVectorIndexRemove_documents]
    exact h.owner

theorem length_vectorChunks (index : VectorOnlyIndex) : index.vectorChunks.length = index.chunkCount := by
  have hfold : ∀ (entries : List (String × DocumentRecord)) (count : ℕ),
      entries.foldl (fun count document => count + document.2.chunks.length) count =
        count + (entries.flatMap fun document =>
          document.2.chunks.map fun chunk => CoreVectorChunk.mk chunk.chunkId document.1 chunk.vector).length := by
    intro entries
    induction entries with
    | nil => exact fun count => rfl
    | cons entry rest ih =>
      intro count
      rw [List.foldl_cons, ih, List.flatMap_cons, List.length_append, List.length_map, Nat.add_assoc]
  rw [VectorOnlyIndex.chunkCount, hfold, Nat.zero_add]
  rfl

/-- Syncing a serviceable index with accepted chunks keeps it serviceable. -/
theorem Serviceable.syncVectorIndexUpsert (h : Serviceable index)
    (hacc : ∀ chunk ∈ chunks, Accepted index.vectorDim chunk.embedding)
    (hroom : chunks.length < 2 ^ 64) (hcount : index.chunkCount < 2 ^ 64) :
    ∃ synced, index.syncVectorIndexUpsert P chunks = .ok synced ∧ Serviceable synced ∧
      synced.documentState = index.documentState := by
  have hkept : ∀ (live : TurboVecNativeIndex) (preExisting : List UInt64), live.dim = index.vectorDim →
      Serviceable (index.recordReadded P live preExisting chunks) := by
    intro live preExisting hdim
    refine ⟨h.resident, fun hnone => absurd hnone (Option.some_ne_none live), ?_, h.owner⟩
    intro other hother
    cases Option.some.inj hother
    exact hdim
  rcases Option.eq_none_or_eq_some index.vectorIndex with hnone | ⟨live, hlive⟩
  · have hvecs : ∀ chunk ∈ index.vectorChunks, Accepted index.vectorDim chunk.embedding := by
      intro chunk hchunk
      obtain ⟨documentId, record, hrec, stored, hsto, rfl⟩ := mem_vectorChunks.mp hchunk
      exact h.unbuilt hnone documentId record hrec stored hsto
    obtain ⟨built, hbuilt, hdim⟩ := build_succeeds (P := P) hvecs (by rwa [length_vectorChunks])
    refine ⟨index.recordReadded P built [] chunks, ?_, hkept built [] hdim, rfl⟩
    simp only [VectorOnlyIndex.syncVectorIndexUpsert, hnone, VectorOnlyIndex.requireVectorsResident,
      h.resident, if_true, hbuilt]
    rfl
  · obtain ⟨upserted, hups, hdim⟩ := upsertChunks_succeeds (P := P) hacc hroom (h.built live hlive)
    refine ⟨index.recordReadded P upserted (live.stableIdsForChunks (chunks.map (·.chunkId))) chunks, ?_,
      hkept upserted _ hdim, rfl⟩
    simp only [VectorOnlyIndex.syncVectorIndexUpsert, hlive, hups]
    rfl

/-- Removing rows and then syncing with accepted chunks succeeds too. -/
theorem Serviceable.resync (h : Serviceable index) (removed : List String)
    (hacc : ∀ chunk ∈ chunks, Accepted index.vectorDim chunk.embedding)
    (hroom : chunks.length < 2 ^ 64) (hcount : index.chunkCount < 2 ^ 64) :
    ∃ synced, (index.syncVectorIndexRemove removed).syncVectorIndexUpsert P chunks = .ok synced ∧
      Serviceable synced ∧ synced.documentState = index.documentState := by
  obtain ⟨synced, hsync, hserv, hsame⟩ := (h.syncVectorIndexRemove removed).syncVectorIndexUpsert (P := P)
    (fun chunk hchunk => (index.syncVectorIndexRemove_vectorDim removed).symm ▸ hacc chunk hchunk) hroom
    (by rwa [VectorOnlyIndex.chunkCount, index.syncVectorIndexRemove_documents])
  exact ⟨synced, hsync, hserv, hsame.trans (index.syncVectorIndexRemove_documentState removed)⟩

/-- A put adds at most the chunks of its record. -/
theorem chunkCount_replaceDocument_le (index : VectorOnlyIndex) (documentId : String) (record : DocumentRecord) :
    (index.replaceDocument documentId record).chunkCount ≤ index.chunkCount + record.chunks.length := by
  rw [← length_vectorChunks, ← length_vectorChunks, VectorOnlyIndex.vectorChunks, VectorOnlyIndex.vectorChunks,
    replaceDocument_documents, ((toList_insert_perm index.documents documentId record).flatMap_right _).length_eq,
    List.flatMap_cons, List.length_append, List.length_map, Nat.add_comm]
  refine Nat.add_le_add_right ?_ _
  exact (List.filter_sublist.flatMap _).length_le

end LodeDB.Engine
