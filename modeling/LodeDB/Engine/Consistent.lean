import LodeDB.Engine.Mirrors
import LodeDB.Engine.Ownership

/-!
# The engine's state invariant

The live index is brought up to date by two operations, a removal and an upsert of chunks. Each is
described here once, by the set of chunk ids that have a row afterwards.
-/

namespace LodeDB.Engine

open TreeMapRules InverseIndex
open Text (stableUint64ForText StableOn)
open VectorOnlyIndex (Bookkeeping Core RowState)

variable {P : Primitives} {ids : Set String} {index : VectorOnlyIndex} {owned : Finset String}
  {dim : ℕ}

variable {other : VectorOnlyIndex} {live : TurboVecNativeIndex}

/-- The live index, if there is one, holds one row for each chunk id of a set. -/
def RowsMirror (P : Primitives) (index : VectorOnlyIndex) (dim : ℕ) (owned : Finset String) : Prop :=
  ∀ live, index.vectorIndex = some live → Mirrors P live owned ∧ live.dim = dim

theorem RowsMirror.congr_dim {other : ℕ} (h : RowsMirror P index dim owned) (hdim : dim = other) :
    RowsMirror P index other owned := hdim ▸ h

/-- The state invariant: documents, owner map and document-id set agree, and a live index has one row for each chunk
id. -/
structure Consistent (P : Primitives) (ids : Set String) (index : VectorOnlyIndex) : Prop where
  indexed : Indexed index
  within : ∀ chunkId ∈ ownedChunks index.documents, chunkId ∈ ids
  unbuilt : index.vectorIndex = none → index.documents = ∅
  built : RowsMirror P index index.vectorDim (ownedChunks index.documents)
  seeded : index.vectorsSeeded = true
  resident : index.vectorsResident = true

/-- Records may change as long as the owned chunk ids and the live index stay. -/
theorem Consistent.of_owned (h : Consistent P ids index) (hidxd : Indexed other)
    (howned : ownedChunks other.documents = ownedChunks index.documents)
    (hempty : index.documents = ∅ → other.documents = ∅) (hputs : index.Puts other) : Consistent P ids other where
  indexed := hidxd
  within := howned ▸ h.within
  unbuilt := fun hnone => hempty (h.unbuilt (hputs.vectorIndex ▸ hnone))
  built := by
    intro live hother
    rw [howned, hputs.vectorDim]
    exact h.built live (hputs.vectorIndex ▸ hother)
  seeded := (congrArg Bookkeeping.vectorsSeeded hputs.bookkeeping).trans h.seeded
  resident := (congrArg Bookkeeping.vectorsResident hputs.bookkeeping).trans h.resident

/-- Only the core matters. -/
theorem Consistent.of_core (h : Consistent P ids index) (hcore : other.core = index.core) : Consistent P ids other := by
  obtain ⟨hdocs, howner, hall, -, hrows, hdim, hseeded, hres⟩ := Core.mk.inj hcore
  have hlive : other.vectorIndex = index.vectorIndex := congrArg RowState.vectorIndex hrows
  refine ⟨⟨?_, ?_, ?_⟩, hdocs ▸ h.within, ?_, ?_, hseeded.trans h.seeded, hres.trans h.resident⟩
  · exact hdocs ▸ h.indexed.nodup
  · exact hdocs ▸ howner ▸ h.indexed.owner
  · exact hdocs ▸ hall ▸ h.indexed.allDocs
  · exact hlive ▸ hdocs ▸ h.unbuilt
  · intro live hother
    rw [hdocs, hdim]
    exact h.built live (hlive ▸ hother)

theorem Consistent.owners (h : Consistent P ids index) : OwnersList index := fun chunkId documentId =>
  (h.indexed.owner chunkId documentId).mp

/-- A fresh index. -/
theorem consistent_new (vectorDim : ℕ) (rescoreDtype : Option TvvfDtype) (annConfigured : Bool) :
    Consistent P ids (VectorOnlyIndex.new vectorDim rescoreDtype annConfigured) where
  indexed := by
    refine ⟨?_, ?_, ?_⟩
    · simp [VectorOnlyIndex.new, chunkIdsOf]
    · intro chunkId documentId
      simp [VectorOnlyIndex.new, HasChunk]
    · simp [VectorOnlyIndex.new]
  within := by simp [VectorOnlyIndex.new]
  unbuilt := fun _ => rfl
  built := by simp [RowsMirror, VectorOnlyIndex.new]
  seeded := rfl
  resident := rfl

/-- Removing chunks takes their rows away. -/
theorem RowsMirror.syncVectorIndexRemove (h : RowsMirror P index dim owned) (hstab : StableOn P ids)
    (hids : ∀ c ∈ owned, c ∈ ids) (chunkIds : List String) :
    RowsMirror P (index.syncVectorIndexRemove chunkIds) dim (owned \ chunkIds.toFinset) := by
  intro live hlive
  rw [VectorOnlyIndex.syncVectorIndexRemove_vectorIndex, Option.map_eq_some_iff] at hlive
  obtain ⟨before, hbefore, rfl⟩ := hlive
  obtain ⟨hmir, hdim⟩ := h before hbefore
  exact ⟨hmir.removeChunks hstab hids chunkIds, by rw [before.removeChunks_dim, hdim]⟩

/-- The chunks of an index are the chunks of its documents. -/
theorem mem_vectorChunks {chunk : CoreVectorChunk} : chunk ∈ index.vectorChunks ↔
    ∃ documentId record, index.documents[documentId]? = some record ∧
      ∃ stored ∈ record.chunks, chunk = ⟨stored.chunkId, documentId, stored.vector⟩ := by
  simp only [VectorOnlyIndex.vectorChunks, List.mem_flatMap, Prod.exists, List.mem_map,
    Std.ExtTreeMap.mem_toList_iff_getElem?_eq_some, eq_comm]

/-- The chunk ids of all documents, in document order. -/
theorem vectorChunks_chunkIds (index : VectorOnlyIndex) :
    index.vectorChunks.map (·.chunkId) = index.documents.toList.flatMap fun document => document.2.chunkIds := by
  simp [VectorOnlyIndex.vectorChunks, List.map_flatMap, DocumentRecord.chunkIds, Function.comp_def]

/-- No chunk id occurs twice if none does in a document and none is shared. -/
theorem vectorChunks_nodup_of (hnodup : ∀ documentId, (chunkIdsOf index.documents documentId).Nodup)
    (hunique : ∀ chunkId left right, HasChunk index.documents left chunkId →
      HasChunk index.documents right chunkId → left = right) : (index.vectorChunks.map (·.chunkId)).Nodup := by
  rw [vectorChunks_chunkIds, List.nodup_flatMap]
  have hrec : ∀ document ∈ index.documents.toList,
      index.documents[document.1]? = some document.2 := fun document hdoc =>
    Std.ExtTreeMap.mem_toList_iff_getElem?_eq_some.mp hdoc
  refine ⟨?_, ?_⟩
  · intro document hdoc
    have hdist := hnodup document.1
    rwa [chunkIdsOf, hrec document hdoc] at hdist
  · have hdist := index.documents.distinct_keys_toList
    refine hdist.imp_of_mem ?_
    intro left right hleft hright hne chunkId hinLeft hinRight
    have hsame := hunique chunkId left.1 right.1 ⟨left.2, hrec left hleft, hinLeft⟩
      ⟨right.2, hrec right hright, hinRight⟩
    exact hne (Std.LawfulEqCmp.compare_eq_iff_eq.mpr hsame)

/-- No chunk id occurs twice among all documents. -/
theorem Indexed.vectorChunks_nodup (h : Indexed index) : (index.vectorChunks.map (·.chunkId)).Nodup :=
  vectorChunks_nodup_of h.nodup fun _ _ _ hleft hright => h.owner.unique hleft hright

/-- The chunk ids of all documents are the owned ones. -/
theorem vectorChunks_toFinset (index : VectorOnlyIndex) :
    (index.vectorChunks.map (·.chunkId)).toFinset = ownedChunks index.documents := by
  rw [vectorChunks_chunkIds, ownedChunks]

section Upsert

variable {chunks : List CoreVectorChunk} (hstab : StableOn P ids)

include hstab

/-- Upserting accepted chunks into a live index gives each of them one row. -/
theorem syncVectorIndexUpsert_live (hlive : index.vectorIndex = some live)
    (hrows : RowsMirror P index dim owned) (hids : ∀ c ∈ owned, c ∈ ids)
    (hchunks : ∀ c ∈ chunks.map (·.chunkId), c ∈ ids) (hnodup : (chunks.map (·.chunkId)).Nodup)
    (hacc : ∀ chunk ∈ chunks, Accepted dim chunk.embedding) :
    ∃ upserted, index.syncVectorIndexUpsert P chunks = .ok (index.recordReadded P upserted
        (live.stableIdsForChunks (chunks.map (·.chunkId))) chunks) ∧
      Mirrors P upserted (owned ∪ (chunks.map (·.chunkId)).toFinset) ∧ upserted.dim = dim := by
  obtain ⟨hmir, hdim⟩ := hrows live hlive
  obtain ⟨upserted, hups, hupsertedDim, hupsertedMirrors⟩ := hmir.upsertChunks hstab hchunks hnodup hacc hids hdim
  refine ⟨upserted, ?_, hupsertedMirrors, hupsertedDim⟩
  simp only [VectorOnlyIndex.syncVectorIndexUpsert, hlive, hups]
  rfl

/-- Without a live index, one is built from all documents. -/
theorem syncVectorIndexUpsert_build (hnone : index.vectorIndex = none) (hres : index.vectorsResident = true)
    (hnodup : (index.vectorChunks.map (·.chunkId)).Nodup) (hids : ∀ c ∈ ownedChunks index.documents, c ∈ ids)
    (hacc : ∀ chunk ∈ index.vectorChunks, Accepted index.vectorDim chunk.embedding) :
    ∃ built, index.syncVectorIndexUpsert P chunks = .ok (index.recordReadded P built [] chunks) ∧
      Mirrors P built (ownedChunks index.documents) ∧ built.dim = index.vectorDim := by
  rw [← vectorChunks_toFinset] at hids ⊢
  obtain ⟨built, hbuilt, hdim, hmir⟩ :=
    build_mirrors hstab (fun c hc => hids c (List.mem_toFinset.mpr hc)) hnodup hacc
  refine ⟨built, ?_, hmir, hdim⟩
  simp only [VectorOnlyIndex.syncVectorIndexUpsert, hnone, VectorOnlyIndex.requireVectorsResident, hres, if_true,
    hbuilt]
  rfl

end Upsert

/-- An index whose live index was just brought up to date. -/
theorem consistent_recordReadded (hidxd : Indexed index)
    (hin : ∀ chunkId ∈ ownedChunks index.documents, chunkId ∈ ids) (hseeded : index.vectorsSeeded = true)
    (hres : index.vectorsResident = true) (hmir : Mirrors P live (ownedChunks index.documents))
    (hdim : live.dim = index.vectorDim) (preExisting : List UInt64) (chunks : List CoreVectorChunk) :
    Consistent P ids (index.recordReadded P live preExisting chunks) where
  indexed := hidxd.of_documentState rfl
  within := hin
  unbuilt := fun hnone => absurd hnone (Option.some_ne_none live)
  built := by
    intro other hother
    cases Option.some.inj hother
    exact ⟨hmir, hdim⟩
  seeded := hseeded
  resident := hres

/-- A change the live index has not seen: the rows to remove and to upsert are the difference. -/
structure Unsynced (ids : Set String) (start middle : VectorOnlyIndex)
    (removed : List String) (chunks : List CoreVectorChunk) : Prop where
  indexed : Indexed middle
  within : ∀ chunkId ∈ ownedChunks middle.documents, chunkId ∈ ids
  rows : ownedChunks middle.documents =
    (ownedChunks start.documents \ removed.toFinset) ∪ (chunks.map (·.chunkId)).toFinset
  puts : start.Puts middle

section Resync

variable {start middle : VectorOnlyIndex} {removed : List String} {chunks : List CoreVectorChunk}

/-- The rows left once the removed ones are gone. -/
theorem Unsynced.removed_rows (h : Unsynced ids start middle removed chunks)
    (hstart : Consistent P ids start) (hstab : StableOn P ids) :
    RowsMirror P (middle.syncVectorIndexRemove removed) start.vectorDim
      (ownedChunks start.documents \ removed.toFinset) := by
  have hrows : RowsMirror P middle start.vectorDim (ownedChunks start.documents) :=
    fun live hlive => hstart.built live (h.puts.vectorIndex ▸ hlive)
  exact hrows.syncVectorIndexRemove hstab hstart.within removed

/-- With no row to upsert, removing the old rows is enough. -/
theorem Unsynced.consistent_removed (h : Unsynced ids start middle removed [])
    (hstart : Consistent P ids start) (hstab : StableOn P ids)
    (hempty : start.documents = ∅ → middle.documents = ∅) :
    Consistent P ids (middle.syncVectorIndexRemove removed) := by
  have hdocs := middle.syncVectorIndexRemove_documents removed
  have hbook := (middle.syncVectorIndexRemove_bookkeeping removed).trans h.puts.bookkeeping
  have hrows := h.rows
  rw [List.map_nil, List.toFinset_nil, Finset.union_empty] at hrows
  constructor
  · exact h.indexed.of_documentState (middle.syncVectorIndexRemove_documentState removed)
  · exact hdocs ▸ h.within
  · intro hnone
    rw [VectorOnlyIndex.syncVectorIndexRemove_vectorIndex, Option.map_eq_none_iff, h.puts.vectorIndex] at hnone
    exact hdocs.trans (hempty (hstart.unbuilt hnone))
  · rw [hdocs, hrows]
    exact (h.removed_rows hstart hstab).congr_dim (congrArg Bookkeeping.vectorDim hbook).symm
  · exact (congrArg Bookkeeping.vectorsSeeded hbook).trans hstart.seeded
  · exact (congrArg Bookkeeping.vectorsResident hbook).trans hstart.resident

/-- Removing the old rows and upserting the new ones leaves a consistent index. -/
theorem Unsynced.resync (h : Unsynced ids start middle removed chunks)
    (hstart : Consistent P ids start) (hstab : StableOn P ids) (hnodup : (chunks.map (·.chunkId)).Nodup)
    (hacc : ∀ chunk ∈ chunks, Accepted start.vectorDim chunk.embedding)
    (hbuild : start.documents = ∅ → ∀ chunk ∈ middle.vectorChunks, Accepted start.vectorDim chunk.embedding) :
    ∃ synced, (middle.syncVectorIndexRemove removed).syncVectorIndexUpsert P chunks = .ok synced ∧
      Consistent P ids synced ∧ synced.documentState = middle.documentState := by
  have hstate := middle.syncVectorIndexRemove_documentState removed
  have hdocs := middle.syncVectorIndexRemove_documents removed
  have hbook := (middle.syncVectorIndexRemove_bookkeeping removed).trans h.puts.bookkeeping
  have hdim : (middle.syncVectorIndexRemove removed).vectorDim = start.vectorDim := congrArg Bookkeeping.vectorDim hbook
  have hseeded := (congrArg Bookkeeping.vectorsSeeded hbook).trans hstart.seeded
  have hres := (congrArg Bookkeeping.vectorsResident hbook).trans hstart.resident
  have hidxd := h.indexed.of_documentState hstate
  have hin := hdocs ▸ h.within
  cases hlive : (middle.syncVectorIndexRemove removed).vectorIndex with
  | none =>
    have hnone := hlive
    rw [VectorOnlyIndex.syncVectorIndexRemove_vectorIndex, Option.map_eq_none_iff, h.puts.vectorIndex] at hnone
    obtain ⟨built, hbuilt, hmir, hbuiltDim⟩ := syncVectorIndexUpsert_build hstab hlive hres
      hidxd.vectorChunks_nodup hin (by
        rw [VectorOnlyIndex.syncVectorIndexRemove_vectorChunks, hdim]
        exact hbuild (hstart.unbuilt hnone))
    exact ⟨_, hbuilt, consistent_recordReadded hidxd hin hseeded hres hmir hbuiltDim _ _, hstate⟩
  | some live =>
    obtain ⟨upserted, hups, hmir, hupsertedDim⟩ := syncVectorIndexUpsert_live hstab hlive
      (h.removed_rows hstart hstab) (fun c hc => hstart.within c (Finset.mem_sdiff.mp hc).1)
      (fun c hc => h.within c (by rw [h.rows]; simp [hc])) hnodup hacc
    rw [← h.rows, ← hdocs] at hmir
    exact ⟨_, hups, consistent_recordReadded hidxd hin hseeded hres hmir
      (hupsertedDim.trans hdim.symm) _ _, hstate⟩

end Resync

end LodeDB.Engine
