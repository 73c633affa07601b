import LodeDB.Engine.RowsTracked

/-!
# Following the rows through a mutation

`Followed` is what every mutation keeps whichever chunk ids its documents share: an owner lists its chunks, the live
index holds one row for each chunk id of some set, and the pending rows are the difference to the committed ones.
Unlike `Consistent` it does not say which chunk ids have a row.
-/

namespace LodeDB.Engine

open TreeMapRules
open Text (stableUint64ForText StableOn)
open VectorOnlyIndex (Bookkeeping DocumentState Core RowState)

/-- The live index, if there is one, holds one row for each chunk id of some set. -/
def Shaped (P : Primitives) (ids : Set String) (index : VectorOnlyIndex) : Prop :=
  ∀ live, index.vectorIndex = some live →
    ∃ owned, (∀ c ∈ owned, c ∈ ids) ∧ Mirrors P live owned ∧ live.dim = index.vectorDim

/-- What every mutation keeps, with the rows of the last commit. -/
structure Followed (P : Primitives) (ids : Set String) (committed : Rows) (index : VectorOnlyIndex) : Prop where
  owner : OwnersList index
  within : ∀ chunkId ∈ ownedChunks index.documents, chunkId ∈ ids
  unbuilt : index.vectorIndex = none → index.documents = ∅
  uncommitted : index.vectorIndex = none → committed = ∅
  shape : Shaped P ids index
  seeded : index.vectorsSeeded = true
  resident : index.vectorsResident = true
  tracked : RowsTracked P committed index { c | c ∈ pendingChunks index }

variable {P : Primitives} {ids : Set String} {committed : Rows} {start middle : VectorOnlyIndex}

/-- A fresh index. -/
theorem followed_new (vectorDim : ℕ) (rescoreDtype : Option TvvfDtype) (annConfigured : Bool) :
    Followed P ids ∅ (VectorOnlyIndex.new vectorDim rescoreDtype annConfigured) where
  owner := by
    intro chunkId documentId howner
    simp [VectorOnlyIndex.new] at howner
  within := by simp [VectorOnlyIndex.new]
  unbuilt := fun _ => rfl
  uncommitted := fun _ => rfl
  shape := by
    intro live hlive
    cases hlive
  seeded := rfl
  resident := rfl
  tracked := by
    have hrows : (VectorOnlyIndex.new vectorDim rescoreDtype annConfigured).liveRows = ∅ := rfl
    exact hrows ▸ rowsTracked_committed rfl rfl

/-- Chunks of pending documents are among the ids. -/
theorem Followed.pendingChunks_within (h : Followed P ids committed start) :
    ∀ chunkId ∈ pendingChunks start, chunkId ∈ ids := by
  intro chunkId hchunk
  obtain ⟨documentId, -, hlist⟩ := mem_pendingChunks.mp hchunk
  exact h.within chunkId (mem_ownedChunks.mpr ⟨documentId, hlist⟩)

/-- Only the core matters. -/
theorem Followed.of_core {other : VectorOnlyIndex} (h : Followed P ids committed start)
    (hcore : other.core = start.core) : Followed P ids committed other := by
  obtain ⟨hdocs, howner, -, hpend, hrows, hdim, hseeded, hres⟩ := Core.mk.inj hcore
  have hlive : other.vectorIndex = start.vectorIndex := congrArg RowState.vectorIndex hrows
  have hchunks : pendingChunks other = pendingChunks start := by
    rw [pendingChunks, pendingChunks, hdocs, hpend]
  refine ⟨?_, hdocs ▸ h.within, ?_, hlive ▸ h.uncommitted, ?_, hseeded.trans h.seeded,
    hres.trans h.resident, hchunks ▸ h.tracked.of_rowState hrows⟩
  · unfold OwnersList
    rw [howner, hdocs]
    exact h.owner
  · rw [hlive, hdocs]
    exact h.unbuilt
  · unfold Shaped
    rw [hlive, hdim]
    exact h.shape

/-- The documents have changed, the live index has not: what pending documents no longer list is to go. -/
structure Behind (ids : Set String) (start middle : VectorOnlyIndex) (removed : List String) : Prop where
  owner : OwnersList middle
  within : ∀ chunkId ∈ ownedChunks middle.documents, chunkId ∈ ids
  covered : ∀ chunkId ∈ pendingChunks start, chunkId ∈ pendingChunks middle ∨ chunkId ∈ removed
  puts : start.Puts middle

section Resync

variable {removed : List String} {chunks : List CoreVectorChunk}

section

variable (h : Behind ids start middle removed)

include h

section

variable (hstart : Followed P ids committed start)

include hstart

/-- What follows from the document state of an index whose rows are followed. -/
theorem followed_of_documentState {synced : VectorOnlyIndex} (hstate : synced.documentState = middle.documentState)
    (hunbuilt : synced.vectorIndex = none → start.vectorIndex = none ∧ middle.documents = ∅)
    (hshape : Shaped P ids synced) (htracked : RowsTracked P committed synced { c | c ∈ pendingChunks middle }) :
    Followed P ids committed synced := by
  have hdocs : synced.documents = middle.documents := congrArg DocumentState.documents hstate
  have howner : synced.chunkOwnerById = middle.chunkOwnerById := congrArg DocumentState.chunkOwnerById hstate
  have hpend : synced.pendingUpserts = middle.pendingUpserts := congrArg DocumentState.pendingUpserts hstate
  have hbook : synced.bookkeeping = start.bookkeeping :=
    (congrArg DocumentState.bookkeeping hstate).trans h.puts.bookkeeping
  have hchunks : pendingChunks synced = pendingChunks middle := by
    rw [pendingChunks, pendingChunks, hdocs, hpend]
  refine ⟨?_, hdocs ▸ h.within, fun hnone => hdocs.trans (hunbuilt hnone).2,
    fun hnone => hstart.uncommitted (hunbuilt hnone).1, hshape,
    (congrArg Bookkeeping.vectorsSeeded hbook).trans hstart.seeded,
    (congrArg Bookkeeping.vectorsResident hbook).trans hstart.resident, hchunks ▸ htracked⟩
  unfold OwnersList
  rw [howner, hdocs]
  exact h.owner

/-- The live index once the old rows are gone. -/
theorem Behind.shaped_removed (hstab : StableOn P ids) : Shaped P ids (middle.syncVectorIndexRemove removed) := by
  intro live hsome
  rw [VectorOnlyIndex.syncVectorIndexRemove_vectorIndex, Option.map_eq_some_iff, h.puts.vectorIndex] at hsome
  obtain ⟨before, hbefore, rfl⟩ := hsome
  obtain ⟨owned, howned, hmir, hbeforeDim⟩ := hstart.shape before hbefore
  refine ⟨_, ?_, hmir.removeChunks hstab howned removed, ?_⟩
  · exact fun c hc => howned c (Finset.mem_sdiff.mp hc).1
  · rw [before.removeChunks_dim, hbeforeDim, VectorOnlyIndex.syncVectorIndexRemove_vectorDim, h.puts.vectorDim]

/-- The pending rows once the old rows are gone: pending documents cover what differs. -/
theorem Behind.tracked_removed (hstab : StableOn P ids) :
    RowsTracked P committed (middle.syncVectorIndexRemove removed) { c | c ∈ pendingChunks middle } := by
  have hshape : ∀ live, middle.vectorIndex = some live → ∃ owned, (∀ c ∈ owned, c ∈ ids) ∧ Mirrors P live owned := by
    intro live hsome
    obtain ⟨owned, howned, hmir, -⟩ := hstart.shape live (h.puts.vectorIndex ▸ hsome)
    exact ⟨owned, howned, hmir⟩
  have hmiddle := hstart.tracked.of_rowState h.puts.rowState
  refine (hmiddle.syncVectorIndexRemove hstab hstart.pendingChunks_within hshape removed).weaken ?_
  rintro chunkId ⟨hpend, hkept⟩
  exact (h.covered chunkId hpend).resolve_right hkept

end

/-- Without a live index after the removal there was none at the start. -/
theorem Behind.unbuilt (hnone : (middle.syncVectorIndexRemove removed).vectorIndex = none) :
    start.vectorIndex = none := by
  rwa [VectorOnlyIndex.syncVectorIndexRemove_vectorIndex, Option.map_eq_none_iff, h.puts.vectorIndex] at hnone

/-- With no row to upsert, removing the old rows is enough. -/
theorem Behind.followed_removed (hstart : Followed P ids committed start) (hstab : StableOn P ids)
    (hempty : start.documents = ∅ → middle.documents = ∅) :
    Followed P ids committed (middle.syncVectorIndexRemove removed) :=
  followed_of_documentState h hstart (middle.syncVectorIndexRemove_documentState removed)
    (fun hnone => ⟨h.unbuilt hnone, hempty (hstart.unbuilt (h.unbuilt hnone))⟩)
    (h.shaped_removed hstart hstab) (h.tracked_removed hstart hstab)

end

/-- Upserting chunks writes the rows of these chunks only. -/
theorem upsertChunks_other {live upserted : TurboVecNativeIndex} (hstab : StableOn P ids)
    (hchunks : ∀ c ∈ chunks.map (·.chunkId), c ∈ ids) (hnodup : (chunks.map (·.chunkId)).Nodup)
    (hups : live.upsertChunks P chunks = .ok upserted) {stableId : UInt64}
    (hother : ∀ chunkId ∈ chunks.map (·.chunkId), stableUint64ForText P chunkId ≠ stableId) :
    upserted.index.rows[stableId]? = live.index.rows[stableId]? := by
  unfold TurboVecNativeIndex.upsertChunks at hups
  split at hups
  · cases hups
    rfl
  · simp only [zip_stableIds hstab hchunks hnodup, ExceptRules.bind_eq_ok] at hups
    obtain ⟨-, -, index, hindex, hups⟩ := hups
    cases hups
    apply upsertWithIds_other hindex
    intro hmem
    obtain ⟨entry, hentry, heq⟩ := List.mem_map.mp hmem
    obtain ⟨chunk, hchunk, rfl⟩ := List.mem_map.mp hentry
    exact hother _ (List.mem_map_of_mem hchunk) heq

/-- Removing the old rows and upserting the new ones succeeds and follows the rows. -/
theorem Behind.resync (h : Behind ids start middle removed) (hstart : Followed P ids committed start)
    (hstab : StableOn P ids) (hpend : ∀ chunkId ∈ chunks.map (·.chunkId), chunkId ∈ pendingChunks middle)
    (hnodup : (chunks.map (·.chunkId)).Nodup) (hacc : ∀ chunk ∈ chunks, Accepted start.vectorDim chunk.embedding)
    (hbuild : start.documents = ∅ → (middle.vectorChunks.map (·.chunkId)).Nodup ∧
      ∀ chunk ∈ middle.vectorChunks, Accepted start.vectorDim chunk.embedding ∧
        chunk.chunkId ∈ chunks.map (·.chunkId)) :
    ∃ synced, (middle.syncVectorIndexRemove removed).syncVectorIndexUpsert P chunks = .ok synced ∧
      Followed P ids committed synced ∧ synced.documentState = middle.documentState := by
  have hstate := middle.syncVectorIndexRemove_documentState removed
  have hdim : (middle.syncVectorIndexRemove removed).vectorDim = start.vectorDim :=
    (middle.syncVectorIndexRemove_vectorDim removed).trans h.puts.vectorDim
  have htracked := h.tracked_removed hstart hstab
  have howned : ∀ c ∈ chunks.map (·.chunkId), c ∈ ownedChunks middle.documents := by
    intro c hc
    obtain ⟨documentId, -, hlist⟩ := mem_pendingChunks.mp (hpend c hc)
    exact mem_ownedChunks.mpr ⟨documentId, hlist⟩
  have hids : ∀ c ∈ chunks.map (·.chunkId), c ∈ ids := fun c hc => h.within c (howned c hc)
  -- both ways of bringing the rows up to date leave one for each chunk of a set and each upserted one
  have hfol : ∀ {live : TurboVecNativeIndex} {preExisting : List UInt64} {before : Finset String},
      (∀ c ∈ before, c ∈ ids) → Mirrors P live (before ∪ (chunks.map (·.chunkId)).toFinset) →
      live.dim = start.vectorDim → RowsTracked P committed
        ((middle.syncVectorIndexRemove removed).recordReadded P live preExisting chunks)
        { c | c ∈ pendingChunks middle } →
      Followed P ids committed ((middle.syncVectorIndexRemove removed).recordReadded P live preExisting chunks) := by
    intro live preExisting before hbefore hmir hliveDim hreadded
    refine followed_of_documentState h hstart hstate (fun hnone => absurd hnone (Option.some_ne_none _)) ?_ hreadded
    intro other hother
    cases Option.some.inj hother
    refine ⟨_, ?_, hmir, hliveDim.trans hdim.symm⟩
    intro c hc
    rw [Finset.mem_union, List.mem_toFinset] at hc
    exact hc.elim (hbefore c) (hids c)
  cases hlive : (middle.syncVectorIndexRemove removed).vectorIndex with
  | some live =>
    obtain ⟨owned, hin, hmir, hliveDim⟩ := h.shaped_removed hstart hstab live hlive
    obtain ⟨upserted, hups, hupsertedDim, hupsertedMirrors⟩ := hmir.upsertChunks hstab hids hnodup
      hacc hin (hliveDim.trans hdim)
    have hrows := liveRows_of_live hlive
    refine ⟨_, ?_, hfol hin hupsertedMirrors hupsertedDim (htracked.recordReadded hstab hin hids
      (hrows ▸ hmir.rows) hupsertedMirrors (hmir.mem_stableIdsForChunks _) ?_ hpend), hstate⟩
    · simp only [VectorOnlyIndex.syncVectorIndexUpsert, hlive, hups]
      rfl
    · intro stableId hother
      rw [hrows]
      exact upsertChunks_other hstab hids hnodup hups hother
  | none =>
    obtain ⟨hbuiltNodup, hbuiltChunks⟩ := hbuild (hstart.unbuilt (h.unbuilt hlive))
    have hres : (middle.syncVectorIndexRemove removed).vectorsResident = true := (congrArg Bookkeeping.vectorsResident
        ((middle.syncVectorIndexRemove_bookkeeping removed).trans h.puts.bookkeeping)).trans hstart.resident
    have hsame := middle.syncVectorIndexRemove_vectorChunks removed
    have hall : (middle.vectorChunks.map (·.chunkId)).toFinset = ∅ ∪ (chunks.map (·.chunkId)).toFinset := by
      rw [Finset.empty_union]
      ext c
      constructor
      · intro hc
        obtain ⟨chunk, hchunk, rfl⟩ := List.mem_map.mp (List.mem_toFinset.mp hc)
        exact List.mem_toFinset.mpr (hbuiltChunks chunk hchunk).2
      · rw [List.mem_toFinset, vectorChunks_toFinset]
        exact howned c
    obtain ⟨built, hbuilt, hmir, hbuiltDim⟩ := syncVectorIndexUpsert_build hstab hlive hres
      (hsame ▸ hbuiltNodup) (by rw [VectorOnlyIndex.syncVectorIndexRemove_documents]; exact h.within)
      (by rw [hsame, hdim]; exact fun chunk hchunk => (hbuiltChunks chunk hchunk).1)
    rw [VectorOnlyIndex.syncVectorIndexRemove_documents, ← vectorChunks_toFinset, hall] at hmir
    have hrows : (middle.syncVectorIndexRemove removed).liveRows = ∅ := by simp [VectorOnlyIndex.liveRows, hlive]
    refine ⟨_, hbuilt, hfol (by simp) hmir (hbuiltDim.trans hdim) (htracked.recordReadded hstab (by simp)
      hids (by simp [hrows]) hmir (by simp) ?_ hpend), hstate⟩
    intro stableId hother
    rw [hrows, Std.ExtTreeMap.getElem?_empty, Option.eq_none_iff_forall_ne_some]
    intro row hrow
    have hkey := mem_keySet.mpr ⟨row, hrow⟩
    rw [hmir.rows, Finset.empty_union, Finset.mem_image] at hkey
    obtain ⟨c, hc, hid⟩ := hkey
    exact hother c (List.mem_toFinset.mp hc) hid

end Resync

end LodeDB.Engine
