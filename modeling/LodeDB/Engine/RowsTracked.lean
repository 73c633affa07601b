import LodeDB.Engine.Consistent
import LodeDB.Lib.SortedSet

/-!
# The pending rows are the difference to the committed ones

Between two commits the index keeps the rows it dropped, the rows it has new, and the documents it upserted.
`RowsTracked` says what these mean against the rows of the last commit. A row that differs is the row of a chunk that
a covering set names; during a mutation that set is larger than the pending documents' chunks, and bringing the live
index up to date closes the gap.
-/

namespace LodeDB.Engine

open ExceptRules TreeMapRules
open SortedSet (ascending)
open Text (stableUint64ForText StableOn)
open VectorOnlyIndex (RowState)

/-- Compact rows by stable id. -/
abbrev Rows := Std.ExtTreeMap UInt64 EncodedRow compare

/-- The compact rows of an index; without a live index there are none. -/
def VectorOnlyIndex.liveRows (index : VectorOnlyIndex) : Rows := (index.vectorIndex.map (·.index.rows)).getD ∅

/-- The rows of a live index. -/
theorem liveRows_of_live {index : VectorOnlyIndex} {live : TurboVecNativeIndex} (hlive : index.vectorIndex = some live) :
    index.liveRows = live.index.rows := by
  rw [VectorOnlyIndex.liveRows, hlive]
  rfl

/-- The chunk ids of the documents that wait for a commit. -/
def pendingChunks (index : VectorOnlyIndex) : List String :=
  (ascending index.pendingUpserts).flatMap (chunkIdsOf index.documents)

theorem mem_pendingChunks {index : VectorOnlyIndex} {chunkId : String} :
    chunkId ∈ pendingChunks index ↔ ∃ documentId ∈ index.pendingUpserts, HasChunk index.documents documentId chunkId := by
  simp [pendingChunks]

/-- The pending row sets are the difference between the committed rows and the live ones, and a row that differs is a
chunk's of a covering set. -/
structure RowsTracked (P : Primitives) (committed : Rows) (index : VectorOnlyIndex) (cover : Set String) :
    Prop where
  removed : index.pendingRemovedStableIds = keySet committed \ keySet index.liveRows
  fresh : index.pendingNewStableIds = keySet index.liveRows \ keySet committed
  covered : ∀ (stableId : UInt64) (row : EncodedRow), index.liveRows[stableId]? = some row →
    committed[stableId]? ≠ some row → ∃ chunkId ∈ cover, stableUint64ForText P chunkId = stableId

variable {P : Primitives} {ids : Set String} {committed : Rows} {index : VectorOnlyIndex} {cover : Set String}

theorem RowsTracked.weaken {larger : Set String} (h : RowsTracked P committed index cover) (hlarger : cover ⊆ larger) :
    RowsTracked P committed index larger := by
  refine ⟨h.removed, h.fresh, ?_⟩
  intro stableId row hrow hdiffers
  obtain ⟨chunkId, hchunk, hid⟩ := h.covered stableId row hrow hdiffers
  exact ⟨chunkId, hlarger hchunk, hid⟩

/-- Only the row state matters. -/
theorem RowsTracked.of_rowState {other : VectorOnlyIndex} (h : RowsTracked P committed index cover)
    (hstate : other.rowState = index.rowState) : RowsTracked P committed other cover := by
  have hindex : other.vectorIndex = index.vectorIndex := congrArg RowState.vectorIndex hstate
  have hlive : other.liveRows = index.liveRows := by
    rw [VectorOnlyIndex.liveRows, VectorOnlyIndex.liveRows, hindex]
  have hrem : other.pendingRemovedStableIds = index.pendingRemovedStableIds :=
    congrArg RowState.pendingRemovedStableIds hstate
  have hfresh : other.pendingNewStableIds = index.pendingNewStableIds := congrArg RowState.pendingNewStableIds hstate
  exact ⟨by rw [hrem, hlive, h.removed], by rw [hfresh, hlive, h.fresh], by rw [hlive]; exact h.covered⟩

/-- Right after a commit of the live rows nothing is pending. -/
theorem rowsTracked_committed (hrem : index.pendingRemovedStableIds = ∅) (hfresh : index.pendingNewStableIds = ∅) :
    RowsTracked P index.liveRows index cover := by
  refine ⟨by simp [hrem], by simp [hfresh], ?_⟩
  intro stableId row hrow hdiffers
  exact absurd hrow hdiffers

section Sync

/-- Removing chunks erases their rows. -/
theorem removeChunks_rows (live : TurboVecNativeIndex) (chunkIds : List String) :
    (live.removeChunks chunkIds).index.rows = eraseAll live.index.rows (live.stableIdsForChunks chunkIds) := by
  simp only [TurboVecNativeIndex.removeChunks, TurboVecNativeIndex.foldl_detach_index, IdMapIndex.removeMany_rows]

/-- Removing chunks from the live index. The removed chunks need no cover any more. -/
theorem RowsTracked.syncVectorIndexRemove (h : RowsTracked P committed index cover) (hstab : StableOn P ids)
    (hcover : ∀ chunkId ∈ cover, chunkId ∈ ids)
    (hshape : ∀ live, index.vectorIndex = some live → ∃ owned, (∀ c ∈ owned, c ∈ ids) ∧ Mirrors P live owned)
    (chunkIds : List String) :
    RowsTracked P committed (index.syncVectorIndexRemove chunkIds) { c | c ∈ cover ∧ c ∉ chunkIds } := by
  unfold VectorOnlyIndex.syncVectorIndexRemove
  cases hlive : index.vectorIndex with
  | none =>
    refine ⟨h.removed, h.fresh, ?_⟩
    intro stableId row hrow
    simp [VectorOnlyIndex.liveRows, hlive] at hrow
  | some live =>
    obtain ⟨owned, howned, hmir⟩ := hshape live hlive
    have hrows := liveRows_of_live hlive
    have hkeys : ∀ stableId ∈ live.stableIdsForChunks chunkIds, stableId ∈ keySet live.index.rows := by
      intro stableId hmem
      obtain ⟨chunkId, -, hchunk, rfl⟩ := (hmir.mem_stableIdsForChunks chunkIds stableId).mp hmem
      rw [hmir.rows]
      exact Finset.mem_image_of_mem _ hchunk
    have hrem := h.removed
    have hfresh := h.fresh
    rw [hrows] at hrem hfresh
    refine ⟨?_, ?_, ?_⟩
    · simp only [VectorOnlyIndex.liveRows, Option.map_some, Option.getD_some, removeChunks_rows, keySet_eraseAll,
        hrem, hfresh]
      ext stableId
      have := hkeys stableId
      simp only [Finset.mem_union, Finset.mem_sdiff, List.mem_toFinset]
      tauto
    · simp only [VectorOnlyIndex.liveRows, Option.map_some, Option.getD_some, removeChunks_rows, keySet_eraseAll,
        hfresh]
      ext stableId
      simp only [Finset.mem_sdiff, List.mem_toFinset]
      tauto
    · intro stableId row hrow hdiffers
      simp only [VectorOnlyIndex.liveRows, Option.map_some, Option.getD_some, removeChunks_rows] at hrow
      obtain ⟨hkept, hrow⟩ := of_getElem?_eraseAll hrow
      obtain ⟨chunkId, hchunk, rfl⟩ := h.covered stableId row (hrows ▸ hrow) hdiffers
      refine ⟨chunkId, ⟨hchunk, ?_⟩, rfl⟩
      intro hlist
      -- the row is there, so its chunk is one of the live ones and would have been removed
      have hpres := mem_keySet.mpr ⟨row, hrow⟩
      rw [hmir.rows, Finset.mem_image] at hpres
      obtain ⟨other, hother, hid⟩ := hpres
      have hsame := hstab.injOn other (howned other hother) chunkId (hcover chunkId hchunk) hid
      exact hkept ((hmir.mem_stableIdsForChunks chunkIds _).mpr ⟨chunkId, hlist, hsame ▸ hother, rfl⟩)

/-- Putting a live index in place that holds the upserted chunks besides those of before, and differs in their rows
only. -/
theorem RowsTracked.recordReadded (h : RowsTracked P committed index cover) (hstab : StableOn P ids)
    {live : TurboVecNativeIndex} {preExisting : List UInt64} {chunks : List CoreVectorChunk} {before : Finset String}
    (hin : ∀ c ∈ before, c ∈ ids) (hids : ∀ c ∈ chunks.map (·.chunkId), c ∈ ids)
    (hbefore : keySet index.liveRows = before.image (stableUint64ForText P))
    (hmir : Mirrors P live (before ∪ (chunks.map (·.chunkId)).toFinset))
    (hpreExisting : ∀ stableId, stableId ∈ preExisting ↔
      ∃ c ∈ chunks.map (·.chunkId), c ∈ before ∧ stableId = stableUint64ForText P c)
    (hother : ∀ stableId, (∀ c ∈ chunks.map (·.chunkId), stableUint64ForText P c ≠ stableId) →
      live.index.rows[stableId]? = index.liveRows[stableId]?) (hcover : ∀ c ∈ chunks.map (·.chunkId), c ∈ cover) :
    RowsTracked P committed (index.recordReadded P live preExisting chunks) cover := by
  have hrows : (index.recordReadded P live preExisting chunks).liveRows = live.index.rows := rfl
  have hreadded : ∀ stableId, stableId ∈ live.stableIdsForChunks (chunks.map (·.chunkId)) ↔
      ∃ c ∈ chunks.map (·.chunkId), stableUint64ForText P c = stableId := by
    intro stableId
    rw [hmir.mem_stableIdsForChunks]
    constructor
    · rintro ⟨c, hc, -, rfl⟩
      exact ⟨c, hc, rfl⟩
    · rintro ⟨c, hc, rfl⟩
      exact ⟨c, hc, Finset.mem_union_right _ (List.mem_toFinset.mpr hc), rfl⟩
  have hkeys : keySet live.index.rows =
      keySet index.liveRows ∪ (live.stableIdsForChunks (chunks.map (·.chunkId))).toFinset := by
    rw [hmir.rows, hbefore, Finset.image_union]
    congr 1
    ext stableId
    rw [List.mem_toFinset, hreadded, Finset.mem_image]
    simp only [List.mem_toFinset]
  have hlist : ∀ stableId ∈ live.stableIdsForChunks (chunks.map (·.chunkId)),
      stableId ∈ preExisting ↔ stableId ∈ keySet index.liveRows := by
    intro stableId hmem
    obtain ⟨c, hc, rfl⟩ := (hreadded stableId).mp hmem
    rw [hpreExisting, hbefore, Finset.mem_image]
    constructor
    · rintro ⟨other, -, hold, heq⟩
      exact ⟨other, hold, heq.symm⟩
    · rintro ⟨other, hold, heq⟩
      exact ⟨c, hc, hstab.injOn other (hin other hold) c (hids c hc) heq ▸ hold, rfl⟩
  refine ⟨?_, ?_, ?_⟩
  · rw [hrows, hkeys]
    simp only [VectorOnlyIndex.recordReadded, h.removed]
    ext stableId
    simp only [Finset.mem_sdiff, Finset.mem_union, List.mem_toFinset]
    tauto
  · rw [hrows, hkeys]
    simp only [VectorOnlyIndex.recordReadded, h.removed, h.fresh]
    ext stableId
    have := hlist stableId
    simp only [Finset.mem_sdiff, Finset.mem_union, List.mem_toFinset, Finset.mem_filter]
    tauto
  · intro stableId row hrow hdiffers
    rw [hrows] at hrow
    by_cases hmem : ∃ c ∈ chunks.map (·.chunkId), stableUint64ForText P c = stableId
    · obtain ⟨c, hc, hid⟩ := hmem
      exact ⟨c, hcover c hc, hid⟩
    · rw [hother stableId fun c hc hid => hmem ⟨c, hc, hid⟩] at hrow
      exact h.covered stableId row hrow hdiffers

/-- An upsert writes the listed rows only. -/
theorem upsertWithIds_other {start upserted : IdMapIndex} {entries : List (UInt64 × Embedding)}
    (hups : start.upsertWithIds P entries = .ok upserted) {stableId : UInt64}
    (hother : stableId ∉ entries.map Prod.fst) : upserted.rows[stableId]? = start.rows[stableId]? := by
  have hwr : ∀ calibration : Calibration, (writeAll start.rows (entries.map fun entry =>
      (entry.1, P.encodeVector calibration entry.2)))[stableId]? = start.rows[stableId]? := by
    intro calibration
    apply getElem?_writeAll_of_notMem
    simpa [Function.comp_def] using hother
  unfold IdMapIndex.upsertWithIds at hups
  split at hups
  · unfold IdMapIndex.addWithIds at hups
    split at hups
    · cases hups
    · rw [bind_eq_ok] at hups
      obtain ⟨-, -, hups⟩ := hups
      split at hups
      · cases hups
        rfl
      · cases hups
        exact hwr _
  · rw [bind_eq_ok] at hups
    obtain ⟨-, -, hups⟩ := hups
    cases hups
    exact hwr _

end Sync

end LodeDB.Engine
