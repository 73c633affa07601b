import LodeDB.Engine.NativeIndex

/-!
# One row for each chunk id

`Mirrors live owned` says that the live index holds exactly one row for each chunk id of a set and
no other row. Building, upserting and removing chunks keep it, over chunk ids whose 64-bit digests
do not collide.
-/

namespace LodeDB.Engine

open ExceptRules TreeMapRules
open Text (stableUint64ForText stableUint64IdsForChunkIds StableOn)

variable (P : Primitives)

/-- The id maps of a live index record the chunk ids of a set, under their plain digests. -/
structure MapsMirror (live : TurboVecNativeIndex) (owned : Finset String) : Prop where
  stableId : ∀ chunkId, live.stableIdByChunkId[chunkId]? =
    if chunkId ∈ owned then some (stableUint64ForText P chunkId) else none
  chunkId : ∀ stableId chunkId, live.chunkIdsByStableId[stableId]? = some chunkId ↔
    chunkId ∈ owned ∧ stableId = stableUint64ForText P chunkId

/-- The live index holds one row for each chunk id of a set and no other row. -/
structure Mirrors (live : TurboVecNativeIndex) (owned : Finset String) : Prop extends
    MapsMirror P live owned where
  rows : keySet live.index.rows = owned.image (stableUint64ForText P)

variable {P} {ids : Set String} {live : TurboVecNativeIndex} {owned : Finset String}

/-- The stable ids found for chunk ids are those of the chunks that are present. -/
theorem MapsMirror.mem_stableIdsForChunks (h : MapsMirror P live owned) (chunkIds : List String) (stableId : UInt64) :
    stableId ∈ live.stableIdsForChunks chunkIds ↔
      ∃ chunkId ∈ chunkIds, chunkId ∈ owned ∧ stableId = stableUint64ForText P chunkId := by
  simp only [TurboVecNativeIndex.stableIdsForChunks, List.mem_eraseDups, List.mem_filterMap, h.stableId]
  constructor
  · rintro ⟨chunkId, hmem, hfound⟩
    split at hfound
    · rename_i howned
      exact ⟨chunkId, hmem, howned, (Option.some.inj hfound).symm⟩
    · cases hfound
  · rintro ⟨chunkId, hmem, howned, rfl⟩
    exact ⟨chunkId, hmem, by rw [if_pos howned]⟩

/-- Removing rows erases exactly the listed ids. -/
theorem IdMapIndex.removeMany_rows (index : IdMapIndex) (stableIds : List UInt64) :
    (index.removeMany stableIds).1 = { index with rows := eraseAll index.rows stableIds } := by
  induction stableIds generalizing index with
  | nil => rfl
  | cons stableId rest ih =>
    have hstep : eraseAll index.rows (stableId :: rest) = eraseAll (index.rows.erase stableId) rest := rfl
    rw [IdMapIndex.removeMany, hstep]
    split
    · rw [ih]
    · rename_i habsent
      have hkeep : index.rows.erase stableId = index.rows := by
        apply erase_eq_self
        rwa [← Option.not_isSome_iff_eq_none, Option.isSome_iff_exists, ← contains_iff]
      rw [ih, hkeep]

/-- Dropping one stable id leaves the maps of the other chunks. -/
theorem MapsMirror.detach (h : MapsMirror P live owned) (hstab : StableOn P ids)
    (hids : ∀ c ∈ owned, c ∈ ids) (stableId : UInt64) :
    MapsMirror P (live.detach stableId)
      (owned.filter fun chunkId => stableUint64ForText P chunkId ≠ stableId) := by
  constructor
  · intro chunkId
    simp only [TurboVecNativeIndex.detach, Finset.mem_filter]
    cases hfound : live.chunkIdsByStableId[stableId]? with
    | none =>
      have hother : chunkId ∈ owned → stableUint64ForText P chunkId ≠ stableId := by
        intro howned heq
        rw [(h.chunkId stableId chunkId).mpr ⟨howned, heq.symm⟩] at hfound
        cases hfound
      simp only [h.stableId]
      by_cases howned : chunkId ∈ owned
      · rw [if_pos howned, if_pos ⟨howned, hother howned⟩]
      · rw [if_neg howned, if_neg fun hand => howned hand.1]
    | some dropped =>
      obtain ⟨hdrop, heq⟩ := (h.chunkId stableId dropped).mp hfound
      subst heq
      simp only [getElem?_erase, h.stableId]
      by_cases hsame : dropped = chunkId
      · subst hsame
        simp
      · rw [if_neg hsame]
        by_cases howned : chunkId ∈ owned
        · have hne : stableUint64ForText P chunkId ≠ stableUint64ForText P dropped := fun heq =>
            hsame (hstab.injOn _ (hids _ howned) _ (hids _ hdrop) heq).symm
          rw [if_pos howned, if_pos ⟨howned, hne⟩]
        · rw [if_neg howned, if_neg fun hand => howned hand.1]
  · intro other chunkId
    simp only [TurboVecNativeIndex.detach, getElem?_erase, Finset.mem_filter]
    split
    · rename_i heq
      subst heq
      constructor
      · simp
      · rintro ⟨⟨-, hne⟩, heq⟩
        exact absurd heq.symm hne
    · rename_i hne
      rw [h.chunkId]
      constructor
      · rintro ⟨howned, rfl⟩
        exact ⟨⟨howned, fun heq => hne heq.symm⟩, rfl⟩
      · rintro ⟨⟨howned, -⟩, heq⟩
        exact ⟨howned, heq⟩

/-- Dropping a list of stable ids leaves the maps of the other chunks. -/
theorem MapsMirror.foldl_detach (h : MapsMirror P live owned) (hstab : StableOn P ids)
    (hids : ∀ c ∈ owned, c ∈ ids) (stableIds : List UInt64) :
    MapsMirror P (stableIds.foldl TurboVecNativeIndex.detach live)
      (owned.filter fun chunkId => stableUint64ForText P chunkId ∉ stableIds) := by
  induction stableIds generalizing live owned with
  | nil => simpa using h
  | cons stableId rest ih =>
    have hrest := ih (h.detach hstab hids stableId)
      (fun c hc => hids c (Finset.mem_filter.mp hc).1)
    rw [Finset.filter_filter] at hrest
    simpa only [List.foldl_cons, List.mem_cons, not_or] using hrest

/-- Dropping stable ids from the maps does not touch the rows. -/
theorem TurboVecNativeIndex.foldl_detach_index (live : TurboVecNativeIndex) (stableIds : List UInt64) :
    (stableIds.foldl TurboVecNativeIndex.detach live).index = live.index := by
  induction stableIds generalizing live with
  | nil => rfl
  | cons stableId rest ih => rw [List.foldl_cons, ih]; rfl

theorem TurboVecNativeIndex.foldl_detach_dim (live : TurboVecNativeIndex) (stableIds : List UInt64) :
    (stableIds.foldl TurboVecNativeIndex.detach live).dim = live.dim := by
  induction stableIds generalizing live with
  | nil => rfl
  | cons stableId rest ih => rw [List.foldl_cons, ih]; rfl

@[simp] theorem TurboVecNativeIndex.removeChunks_dim (live : TurboVecNativeIndex)
    (chunkIds : List String) : (live.removeChunks chunkIds).dim = live.dim :=
  TurboVecNativeIndex.foldl_detach_dim _ _

/-- Removing chunks leaves one row for each remaining chunk id. -/
theorem Mirrors.removeChunks (h : Mirrors P live owned) (hstab : StableOn P ids)
    (hids : ∀ c ∈ owned, c ∈ ids) (chunkIds : List String) :
    Mirrors P (live.removeChunks chunkIds) (owned \ chunkIds.toFinset) := by
  have hmem := h.mem_stableIdsForChunks chunkIds
  have hkept : (owned.filter fun chunkId =>
      stableUint64ForText P chunkId ∉ live.stableIdsForChunks chunkIds) = owned \ chunkIds.toFinset := by
    ext chunkId
    rw [Finset.mem_filter, Finset.mem_sdiff, List.mem_toFinset]
    refine and_congr_right fun howned => not_congr ?_
    rw [hmem]
    constructor
    · rintro ⟨other, hother, hotherOwned, heq⟩
      rw [hstab.injOn _ (hids _ howned) _ (hids _ hotherOwned) heq]
      exact hother
    · exact fun hlist => ⟨chunkId, hlist, howned, rfl⟩
  have hmaps : MapsMirror P
      { live with index := (live.index.removeMany (live.stableIdsForChunks chunkIds)).1 } owned :=
    ⟨h.stableId, h.chunkId⟩
  refine ⟨hkept ▸ hmaps.foldl_detach hstab hids _, ?_⟩
  simp only [TurboVecNativeIndex.removeChunks, TurboVecNativeIndex.foldl_detach_index,
    IdMapIndex.removeMany_rows, keySet_eraseAll, h.rows]
  rw [← hkept]
  ext stableId
  simp only [Finset.mem_sdiff, Finset.mem_image, List.mem_toFinset, Finset.mem_filter]
  constructor
  · rintro ⟨⟨chunkId, howned, rfl⟩, hnot⟩
    exact ⟨chunkId, ⟨howned, hnot⟩, rfl⟩
  · rintro ⟨chunkId, ⟨howned, hnot⟩, rfl⟩
    exact ⟨⟨chunkId, howned, rfl⟩, hnot⟩

/-- The entries a batch of chunks attaches to the maps. -/
def attachEntries (P : Primitives) (chunks : List CoreVectorChunk) : List (UInt64 × String × String) :=
  chunks.map fun chunk => (stableUint64ForText P chunk.chunkId, chunk.chunkId, chunk.documentId)

/-- Attaching a batch of distinct chunks adds them to the maps. -/
theorem MapsMirror.attach (h : MapsMirror P live owned) (hstab : StableOn P ids)
    (hids : ∀ c ∈ owned, c ∈ ids) (chunks : List CoreVectorChunk)
    (hchunks : ∀ c ∈ chunks.map (·.chunkId), c ∈ ids) (hnodup : (chunks.map (·.chunkId)).Nodup) :
    MapsMirror P (live.attach (attachEntries P chunks)) (owned ∪ (chunks.map (·.chunkId)).toFinset) := by
  have hbyChunk : ((attachEntries P chunks).map fun entry => (entry.2.1, entry.1)).map Prod.fst =
      chunks.map (·.chunkId) := by
    simp [attachEntries, Function.comp_def]
  have hbyStable : ((attachEntries P chunks).map fun entry => (entry.1, entry.2.1)).map Prod.fst =
      (chunks.map (·.chunkId)).map (stableUint64ForText P) := by
    simp [attachEntries, Function.comp_def]
  have hstableNodup := List.Nodup.map_on (fun a ha b hb => hstab.injOn a (hchunks a ha) b (hchunks b hb)) hnodup
  have hentry : ∀ chunk ∈ chunks, (stableUint64ForText P chunk.chunkId, chunk.chunkId) ∈
      (attachEntries P chunks).map fun entry => (entry.1, entry.2.1) := fun chunk hchunk =>
    List.mem_map.mpr ⟨_, List.mem_map_of_mem hchunk, rfl⟩
  constructor
  · intro chunkId
    simp only [TurboVecNativeIndex.attach, Finset.mem_union, List.mem_toFinset]
    by_cases hnew : chunkId ∈ chunks.map (·.chunkId)
    · obtain ⟨chunk, hchunk, rfl⟩ := List.mem_map.mp hnew
      have hwr : (chunk.chunkId, stableUint64ForText P chunk.chunkId) ∈
          (attachEntries P chunks).map fun entry => (entry.2.1, entry.1) :=
        List.mem_map.mpr ⟨_, List.mem_map_of_mem hchunk, rfl⟩
      rw [if_pos (Or.inr hnew)]
      exact getElem?_writeAll_of_mem _ _ (hbyChunk ▸ hnodup) hwr
    · rw [getElem?_writeAll_of_notMem _ _ _ (hbyChunk ▸ hnew), h.stableId]
      simp [hnew]
  · intro stableId chunkId
    simp only [TurboVecNativeIndex.attach, Finset.mem_union, List.mem_toFinset]
    by_cases hnew : stableId ∈ (chunks.map (·.chunkId)).map (stableUint64ForText P)
    · obtain ⟨written, hwr, rfl⟩ := List.mem_map.mp hnew
      obtain ⟨chunk, hchunk, rfl⟩ := List.mem_map.mp hwr
      rw [getElem?_writeAll_of_mem _ _ (hbyStable ▸ hstableNodup) (hentry chunk hchunk), Option.some_inj]
      constructor
      · rintro rfl
        exact ⟨Or.inr hwr, rfl⟩
      · rintro ⟨hmem, heq⟩
        exact hstab.injOn _ (hchunks _ hwr) _ (hmem.elim (hids _) (hchunks _)) heq
    · rw [getElem?_writeAll_of_notMem _ _ _ (hbyStable ▸ hnew), h.chunkId]
      constructor
      · rintro ⟨howned, heq⟩
        exact ⟨Or.inl howned, heq⟩
      · rintro ⟨howned | hlist, rfl⟩
        · exact ⟨howned, rfl⟩
        · exact absurd (List.mem_map_of_mem hlist) hnew

/-- Embeddings the kernel accepts: the right dimension and no invalid coordinate. -/
def Accepted (dim : ℕ) (embedding : Embedding) : Prop :=
  embedding.length = dim ∧ embedding.all validCoord = true

instance (dim : ℕ) (embedding : Embedding) : Decidable (Accepted dim embedding) := by
  unfold Accepted
  infer_instance

/-- The rows a batch of chunks adds or overwrites. -/
def rowEntries (P : Primitives) (chunks : List CoreVectorChunk) : List (UInt64 × Embedding) :=
  chunks.map fun chunk => (stableUint64ForText P chunk.chunkId, chunk.embedding)

section Batch

variable {chunks : List CoreVectorChunk} {dim : ℕ} (hstab : StableOn P ids)
  (hchunks : ∀ c ∈ chunks.map (·.chunkId), c ∈ ids) (hnodup : (chunks.map (·.chunkId)).Nodup)
  (hacc : ∀ chunk ∈ chunks, Accepted dim chunk.embedding)

include hacc in
theorem checkDim_accepted : TurboVecNativeIndex.checkDim dim chunks = .ok () := by
  rw [TurboVecNativeIndex.checkDim, if_pos]
  simpa using fun chunk hchunk => (hacc chunk hchunk).1

theorem rowEntries_fst : (rowEntries P chunks).map Prod.fst =
    (chunks.map (·.chunkId)).map (stableUint64ForText P) := by
  simp [rowEntries, Function.comp_def]

include hstab hchunks hnodup hacc in
theorem checkBatch_accepted : IdMapIndex.checkBatch (rowEntries P chunks) = .ok () := by
  have hdist : ((rowEntries P chunks).map Prod.fst).Nodup := by
    rw [rowEntries_fst]
    exact List.Nodup.map_on (fun a ha b hb => hstab.injOn a (hchunks a ha) b (hchunks b hb)) hnodup
  rw [IdMapIndex.checkBatch, if_pos hdist, if_pos]
  simpa [rowEntries] using fun chunk hchunk => (hacc chunk hchunk).2

include hstab hchunks hnodup in
/-- The zipped batches of the source are the plain entries of the chunks. -/
theorem zip_stableIds {β : Type*} (project : CoreVectorChunk → β) :
    (stableUint64IdsForChunkIds P (chunks.map (·.chunkId))).zip (chunks.map project) =
      chunks.map fun chunk => (stableUint64ForText P chunk.chunkId, project chunk) := by
  rw [hstab.stableUint64IdsForChunkIds_eq hchunks hnodup, List.map_map, List.zip_map']
  rfl

include hstab hchunks hnodup hacc in
/-- Adding accepted chunks to an empty index succeeds and writes their rows. -/
theorem addWithIds_accepted (index : IdMapIndex) (hempty : keySet index.rows = ∅) :
    ∃ added, index.addWithIds P (rowEntries P chunks) = .ok added ∧
      keySet added.rows = (chunks.map (·.chunkId)).toFinset.image (stableUint64ForText P) := by
  have hfresh : ((rowEntries P chunks).any fun entry => index.rows.contains entry.1) = false := by
    simp [eq_empty_of_keySet _ hempty]
  have hchk := checkBatch_accepted hstab hchunks hnodup hacc
  rw [IdMapIndex.addWithIds, hfresh, hchk, if_neg Bool.false_ne_true]
  by_cases hnone : rowEntries P chunks = []
  · have hnil : chunks = [] := by simpa [rowEntries] using hnone
    refine ⟨index, by rw [if_pos hnone]; rfl, ?_⟩
    simp [hempty, hnil]
  · rw [if_neg hnone]
    refine ⟨_, rfl, ?_⟩
    simp only [keySet_writeAll, hempty, List.map_map, Finset.empty_union]
    ext stableId
    simp [rowEntries]

include hstab hchunks hnodup hacc in
/-- Upserting accepted chunks succeeds and adds or overwrites their rows. -/
theorem upsertWithIds_accepted (index : IdMapIndex) :
    ∃ upserted, index.upsertWithIds P (rowEntries P chunks) = .ok upserted ∧ keySet upserted.rows =
        keySet index.rows ∪ (chunks.map (·.chunkId)).toFinset.image (stableUint64ForText P) := by
  rw [IdMapIndex.upsertWithIds]
  split
  · rename_i hempty
    have hrows : keySet index.rows = ∅ := by
      rw [Std.ExtTreeMap.isEmpty_iff.mp hempty, keySet_empty]
    obtain ⟨added, hadded, hkeys⟩ := addWithIds_accepted hstab hchunks hnodup hacc index hrows
    exact ⟨added, hadded, by rw [hkeys, hrows, Finset.empty_union]⟩
  · rw [checkBatch_accepted hstab hchunks hnodup hacc]
    refine ⟨_, rfl, ?_⟩
    simp only [keySet_writeAll, List.map_map]
    ext stableId
    simp [rowEntries]

include hstab hchunks hnodup hacc in
/-- Upserting a batch of accepted chunks gives each of them one row. -/
theorem Mirrors.upsertChunks (h : Mirrors P live owned) (hids : ∀ c ∈ owned, c ∈ ids) (hdim : live.dim = dim) :
    ∃ upserted, live.upsertChunks P chunks = .ok upserted ∧ upserted.dim = dim ∧
      Mirrors P upserted (owned ∪ (chunks.map (·.chunkId)).toFinset) := by
  subst hdim
  rw [TurboVecNativeIndex.upsertChunks]
  by_cases hnone : chunks = []
  · refine ⟨live, by rw [if_pos hnone]; rfl, rfl, ?_⟩
    simpa [hnone] using h
  · obtain ⟨index, hindex, hrows⟩ := upsertWithIds_accepted hstab hchunks hnodup hacc live.index
    have hmaps : MapsMirror P { live with index := index } owned := ⟨h.stableId, h.chunkId⟩
    rw [if_neg hnone, checkDim_accepted hacc, ok_bind]
    simp only [zip_stableIds hstab hchunks hnodup]
    rw [← rowEntries, hindex]
    refine ⟨_, rfl, rfl, hmaps.attach hstab hids chunks hchunks hnodup, ?_⟩
    simp only [TurboVecNativeIndex.attach]
    rw [hrows, h.rows, Finset.image_union]

include hstab hchunks hnodup hacc in
/-- Building an index from accepted chunks gives each of them one row. -/
theorem build_mirrors :
    ∃ built, TurboVecNativeIndex.build P chunks dim = .ok built ∧ built.dim = dim ∧
      Mirrors P built (chunks.map (·.chunkId)).toFinset := by
  obtain ⟨index, hindex, hrows⟩ := addWithIds_accepted hstab hchunks hnodup hacc ⟨∅, none⟩
    keySet_empty
  have hmaps : MapsMirror P ⟨index, ∅, ∅, ∅, dim⟩ ∅ := ⟨by simp, by simp⟩
  rw [TurboVecNativeIndex.build, checkDim_accepted hacc, ok_bind]
  simp only [TurboVecNativeIndex.fromIdParts, zip_stableIds hstab hchunks hnodup]
  rw [← rowEntries, hindex]
  refine ⟨_, rfl, rfl, ?_, hrows⟩
  have hattached := hmaps.attach hstab (by simp) chunks hchunks hnodup
  rwa [Finset.empty_union] at hattached

end Batch

end LodeDB.Engine
