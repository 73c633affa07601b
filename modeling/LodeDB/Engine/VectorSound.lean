import LodeDB.Engine.Consistent
import LodeDB.Engine.VectorUpsert

/-!
# Vector upserts keep one row for each chunk

The loop's invariant compares the batch with the index it started from: the chunk ids owned so far
are the starting ones, without the rows to remove, with the rows to upsert.
-/

namespace LodeDB.Engine

open TreeMapRules InverseIndex
open Text (sha256F32Le stableUint64ForText StableOn)

variable {P : Primitives} {policy : TextPolicy} {ids : Set String}

variable {synced : VectorOnlyIndex}

/-- The vector batches that keep the invariant: no id is another document's chunk id, and a document with the
vector's content hash has its own id as its only chunk. -/
structure VectorBatchFits (P : Primitives) (ids : Set String) (index : VectorOnlyIndex)
    (documents : List CoreVectorDocument) : Prop where
  within : ∀ document ∈ documents, document.documentId ∈ ids
  ownId : ∀ document ∈ documents, ∀ other,
    HasChunk index.documents other document.documentId → other = document.documentId
  sameHash : ∀ document ∈ documents, ∀ record, index.documents[document.documentId]? = some record →
    record.contentHash = sha256F32Le P document.vector → record.chunkIds = [document.documentId]

/-- A document a batch has put: one accepted chunk under its own id. -/
def IsVectorRecord (dim : ℕ) (documentId : String) (record : DocumentRecord) : Prop :=
  record.chunkIds = [documentId] ∧ ∀ chunk ∈ record.chunks, Accepted dim chunk.vector

/-- What the loop has put so far. -/
structure VectorRun (start : VectorOnlyIndex) (batch : VectorBatch) : Prop where
  documents : ∀ documentId record, batch.index.documents[documentId]? = some record →
    start.documents[documentId]? = some record ∨ IsVectorRecord start.vectorDim documentId record
  upserted : ∀ chunk ∈ batch.upsertedChunks, chunk.documentId = chunk.chunkId ∧
    HasChunk batch.index.documents chunk.chunkId chunk.chunkId ∧ Accepted start.vectorDim chunk.embedding
  fromEmpty : start.documents = ∅ → ∀ documentId record, batch.index.documents[documentId]? = some record →
    documentId ∈ batch.upsertedChunks.map (·.chunkId)

/-- What the loop keeps. -/
structure VectorLoop (ids : Set String) (start : VectorOnlyIndex) (batch : VectorBatch) : Prop extends
    VectorRun start batch where
  indexed : Indexed batch.index
  within : ∀ chunkId ∈ ownedChunks batch.index.documents, chunkId ∈ ids
  rows : ownedChunks batch.index.documents = (ownedChunks start.documents \ batch.removedChunkIds.toFinset) ∪
      (batch.upsertedChunks.map (·.chunkId)).toFinset

section PutVectorDocument

variable {index : VectorOnlyIndex} {document : CoreVectorDocument}

@[simp] theorem vectorRecord_chunkIds :
    (vectorRecord P policy document).chunkIds = [document.documentId] := rfl

theorem Indexed.putVectorDocument (hidxd : Indexed index)
    (hfree : ∀ other, HasChunk index.documents other document.documentId → other = document.documentId) :
    Indexed (putVectorDocument P policy index document) := by
  have hrepl : Indexed (index.replaceDocument document.documentId (vectorRecord P policy document)) :=
    hidxd.replaceDocument (by simp) (by simpa using hfree)
  exact ⟨hrepl.nodup, hrepl.owner, hrepl.allDocs⟩

@[simp] theorem putVectorDocument_documents :
    (putVectorDocument P policy index document).documents =
      index.documents.insert document.documentId (vectorRecord P policy document) :=
  replaceDocument_documents

theorem putVectorDocument_puts : index.Puts (putVectorDocument P policy index document) := by
  have hputs := @replaceDocument_puts index document.documentId (vectorRecord P policy document)
  exact ⟨hputs.bookkeeping, hputs.generation, hputs.rowState⟩

/-- The loop leaves the shape of the index, its generation and its rows alone. -/
theorem upsertVectorLoop_puts (start : VectorOnlyIndex) (documents : List CoreVectorDocument) :
    start.Puts (upsertVectorLoop P policy start documents).index := by
  refine List.foldlRecOn documents (upsertVector P policy) (motive := fun batch => start.Puts batch.index)
    (b := ⟨start, 0, [], ∅, [], []⟩) (.refl start) fun batch h document _ => ?_
  unfold upsertVector
  split
  · exact h
  · exact h.trans putVectorDocument_puts

end PutVectorDocument

section Step

variable {start : VectorOnlyIndex} {batch : VectorBatch} {document : CoreVectorDocument}
  {documents : List CoreVectorDocument}

/-- While the loop runs, a batch document's id is a chunk id of that document only. -/
theorem VectorLoop.ownId (h : VectorLoop ids start batch) (hfits : VectorBatchFits P ids start documents)
    (hdoc : document ∈ documents) (other : String)
    (hother : HasChunk batch.index.documents other document.documentId) : other = document.documentId := by
  obtain ⟨record, hrec, hchunk⟩ := hother
  rcases h.documents other record hrec with hstart | hput
  · exact hfits.ownId document hdoc other ⟨record, hstart, hchunk⟩
  · rw [hput.1, List.mem_singleton] at hchunk
    exact hchunk.symm

/-- While the loop runs, a batch document whose content hash is right has its own id as its only chunk. -/
theorem VectorLoop.sameHash (h : VectorLoop ids start batch) (hfits : VectorBatchFits P ids start documents)
    (hdoc : document ∈ documents) (hsame : vectorUnchanged P batch.index document = true) :
    chunkIdsOf batch.index.documents document.documentId = [document.documentId] := by
  obtain ⟨record, hrec, hhash⟩ := (Option.any_eq_true _ _).mp hsame
  have hids : chunkIdsOf batch.index.documents document.documentId = record.chunkIds := by
    simp [chunkIdsOf, hrec]
  rw [hids]
  rcases h.documents _ record hrec with hstart | hput
  · exact hfits.sameHash document hdoc record hstart (of_decide_eq_true hhash)
  · exact hput.1

/-- One turn of the loop keeps the count of rows. -/
theorem VectorLoop.step_rows (h : VectorLoop ids start batch) (hfits : VectorBatchFits P ids start documents)
    (hdoc : document ∈ documents) :
    ownedChunks (batch.index.documents.insert document.documentId (vectorRecord P policy document)) =
      (ownedChunks start.documents \ (batch.removedChunkIds ++
        (chunkIdsOf batch.index.documents document.documentId).filter (· ≠ document.documentId)).toFinset) ∪
      ((if vectorUnchanged P batch.index document then batch.upsertedChunks else batch.upsertedChunks ++
          [⟨document.documentId, document.documentId, document.vector⟩]).map (·.chunkId)).toFinset := by
  -- a row waiting to be upserted is a document of its own, so it is no old chunk of another one
  have hdisj : ∀ chunkId, chunkId ∈ batch.upsertedChunks.map (·.chunkId) →
      chunkId ≠ document.documentId → chunkId ∉ chunkIdsOf batch.index.documents document.documentId := by
    intro chunkId hchunk hne hold
    obtain ⟨chunk, hmem, rfl⟩ := List.mem_map.mp hchunk
    exact hne (h.indexed.owner.unique (h.upserted chunk hmem).2.1 (mem_chunkIdsOf.mp hold))
  have hrows : ∀ chunkId, chunkId ∈ ownedChunks batch.index.documents ↔
      (chunkId ∈ ownedChunks start.documents ∧ chunkId ∉ batch.removedChunkIds) ∨
        chunkId ∈ batch.upsertedChunks.map (·.chunkId) := by
    intro chunkId
    rw [h.rows, Finset.mem_union, Finset.mem_sdiff, List.mem_toFinset, List.mem_toFinset]
  rw [ownedChunks_insert h.indexed, vectorRecord_chunkIds]
  ext chunkId
  simp only [Finset.mem_union, Finset.mem_sdiff, List.mem_toFinset, List.mem_append, List.mem_filter,
    decide_eq_true_eq, List.mem_singleton, hrows]
  by_cases hself : chunkId = document.documentId
  · subst hself
    split
    · rename_i hsame
      have hown : document.documentId ∈ ownedChunks batch.index.documents :=
        mem_ownedChunks.mpr ⟨_, mem_chunkIdsOf.mp (by rw [h.sameHash hfits hdoc hsame]; simp)⟩
      rw [hrows] at hown
      tauto
    · simp
  · have := hdisj chunkId
    split
    · tauto
    · simp only [List.map_append, List.mem_append, List.map_cons, List.map_nil, List.mem_singleton]
      tauto

/-- One turn of the loop. -/
theorem VectorRun.step (h : VectorRun start batch) (hacc : Accepted start.vectorDim document.vector) :
    VectorRun start (upsertVector P policy batch document) := by
  unfold upsertVector
  split
  · exact h
  have hold : ∀ chunk ∈ batch.upsertedChunks, chunk.documentId = chunk.chunkId ∧
      HasChunk (putVectorDocument P policy batch.index document).documents chunk.chunkId chunk.chunkId ∧
      Accepted start.vectorDim chunk.embedding := by
    intro chunk hchunk
    obtain ⟨hown, hlist, hemb⟩ := h.upserted chunk hchunk
    refine ⟨hown, ?_, hemb⟩
    rw [putVectorDocument_documents, hasChunk_insert]
    by_cases hself : chunk.chunkId = document.documentId
    · exact .inl ⟨hself, by simp [hself]⟩
    · exact .inr ⟨hself, hlist⟩
  constructor
  · intro documentId record hrec
    rw [putVectorDocument_documents] at hrec
    rcases of_getElem?_insert hrec with ⟨hself, rfl⟩ | hrec
    · exact .inr ⟨by simp [hself], by simpa [vectorRecord] using hacc⟩
    · exact h.documents documentId record hrec
  · intro chunk hchunk
    simp only at hchunk
    split at hchunk
    · exact hold chunk hchunk
    · rcases List.mem_append.mp hchunk with hchunk | hnew
      · exact hold chunk hchunk
      · rw [List.mem_singleton] at hnew
        subst hnew
        rw [putVectorDocument_documents]
        exact ⟨rfl, hasChunk_insert.mpr (.inl ⟨rfl, by simp⟩), hacc⟩
  · intro hempty documentId record hrec
    rw [putVectorDocument_documents, getElem?_insert] at hrec
    -- a document put into an empty index either has its row waiting already or gets it now
    split
    · rename_i hsame
      obtain ⟨old, hold, -⟩ := (Option.any_eq_true _ _).mp hsame
      split at hrec
      · rename_i hself
        exact h.fromEmpty hempty documentId old (hself ▸ hold)
      · exact h.fromEmpty hempty documentId record hrec
    · rw [List.map_append, List.mem_append]
      split at hrec
      · rename_i hself
        exact .inr (by simp [hself])
      · exact .inl (h.fromEmpty hempty documentId record hrec)

theorem vectorRun_initial (start : VectorOnlyIndex) : VectorRun start ⟨start, 0, [], ∅, [], []⟩ := by
  refine ⟨fun _ _ h => .inl h, by simp, ?_⟩
  intro hempty documentId record hrec
  simp [hempty] at hrec

/-- One turn of the loop keeps its invariant. -/
theorem VectorLoop.step (h : VectorLoop ids start batch) (hfits : VectorBatchFits P ids start documents)
    (hdoc : document ∈ documents) (hacc : Accepted start.vectorDim document.vector) :
    VectorLoop ids start (upsertVector P policy batch document) := by
  have hrun : VectorRun start (upsertVector P policy batch document) := h.toVectorRun.step hacc
  unfold upsertVector at hrun ⊢
  by_cases hsame : fullyUnchanged P policy batch.index document = true
  · rw [if_pos hsame]
    exact h
  rw [if_neg hsame] at hrun ⊢
  refine ⟨hrun, h.indexed.putVectorDocument (h.ownId hfits hdoc), ?_, ?_⟩
  · intro chunkId howned
    simp only [putVectorDocument_documents, ownedChunks_insert h.indexed, Finset.mem_union,
      Finset.mem_sdiff, vectorRecord_chunkIds, List.mem_toFinset, List.mem_singleton] at howned
    rcases howned with ⟨howned, -⟩ | rfl
    · exact h.within chunkId howned
    · exact hfits.within document hdoc
  · rw [putVectorDocument_documents]
    exact h.step_rows hfits hdoc

/-- The loop keeps its invariant over the whole batch. -/
theorem vectorLoop_upsertVectorLoop (hidxd : Indexed start)
    (hin : ∀ chunkId ∈ ownedChunks start.documents, chunkId ∈ ids) (hfits : VectorBatchFits P ids start documents)
    (hacc : ∀ document ∈ documents, Accepted start.vectorDim document.vector) :
    VectorLoop ids start (upsertVectorLoop P policy start documents) :=
  List.foldlRecOn documents (upsertVector P policy) ⟨vectorRun_initial start, hidxd, hin, by simp⟩
    fun _ h document hdoc => h.step hfits hdoc (hacc document hdoc)

end Step

section Upsert

variable {start : VectorOnlyIndex} {documents : List CoreVectorDocument}

/-- The validation accepts exactly the batches whose documents all pass. -/
theorem forM_checkVectorDocument_eq_ok {vectorDim : ℕ} :
    documents.forM (checkVectorDocument vectorDim) = .ok () ↔
      ∀ document ∈ documents, isBlank document.documentId = false ∧ Accepted vectorDim document.vector := by
  simp [checkVectorDocument, Accepted]

/-- The removal of old rows, also when there is none to remove. -/
theorem VectorBatch.sync_eq (batch : VectorBatch) :
    batch.sync P = (batch.index.syncVectorIndexRemove batch.removedChunkIds,
      if batch.upsertedChunks = [] then .ok (batch.index.syncVectorIndexRemove batch.removedChunkIds)
      else (batch.index.syncVectorIndexRemove batch.removedChunkIds).syncVectorIndexUpsert P
        (Occurrence.keepLast (·.documentId) batch.upsertedChunks)) := by
  unfold VectorBatch.sync
  by_cases hnone : batch.removedChunkIds = []
  · simp only [hnone, if_true, VectorOnlyIndex.syncVectorIndexRemove_nil]
  · simp only [hnone, if_false]

variable {batch : VectorBatch}

/-- If the index had no document, every document is one the batch has put. -/
theorem VectorRun.put_of_empty (h : VectorRun start batch)
    (hempty : start.documents = ∅) {documentId : String} {record : DocumentRecord}
    (hrec : batch.index.documents[documentId]? = some record) :
    IsVectorRecord start.vectorDim documentId record := by
  rcases h.documents documentId record hrec with hstart | hput
  · simp [hempty] at hstart
  · exact hput

/-- The documents put into an empty index are all waiting for their rows. -/
theorem VectorRun.documents_empty (h : VectorRun start batch)
    (hempty : start.documents = ∅) (hnone : batch.upsertedChunks = []) : batch.index.documents = ∅ := by
  apply eq_empty_of_keySet
  rw [Finset.eq_empty_iff_forall_notMem]
  intro documentId hdoc
  obtain ⟨record, hrec⟩ := mem_keySet.mp hdoc
  simpa [hnone] using h.fromEmpty hempty documentId record hrec

/-- The rows to upsert are accepted. -/
theorem VectorRun.accepted (h : VectorRun start batch) (chunk : CoreVectorChunk)
    (hchunk : chunk ∈ Occurrence.keepLast (·.documentId) batch.upsertedChunks) :
    Accepted start.vectorDim chunk.embedding :=
  (h.upserted chunk (Occurrence.keepLast_subset _ _ hchunk)).2.2

/-- The last chunk of each document, when every chunk carries its document's id. -/
theorem keepLast_chunkIds {chunks : List CoreVectorChunk}
    (hown : ∀ chunk ∈ chunks, chunk.documentId = chunk.chunkId) :
    ((Occurrence.keepLast (·.documentId) chunks).map (·.chunkId)).Nodup ∧
      ∀ chunkId, chunkId ∈ (Occurrence.keepLast (·.documentId) chunks).map (·.chunkId) ↔
        chunkId ∈ chunks.map (·.chunkId) := by
  have hsame : ∀ kept : List CoreVectorChunk, kept ⊆ chunks →
      kept.map (·.chunkId) = kept.map (·.documentId) := fun kept hsubset =>
    List.map_congr_left fun chunk hchunk => (hown chunk (hsubset hchunk)).symm
  rw [hsame _ (Occurrence.keepLast_subset _ _), hsame _ (List.Subset.refl _)]
  exact ⟨Occurrence.nodup_map_keepLast _ _, fun documentId => Occurrence.mem_map_keepLast _ _ _⟩

/-- The rows handed to the live index: one for each document to upsert. -/
theorem VectorLoop.kept_chunkIds (h : VectorLoop ids start batch) :
    ((Occurrence.keepLast (·.documentId) batch.upsertedChunks).map (·.chunkId)).Nodup ∧
      ((Occurrence.keepLast (·.documentId) batch.upsertedChunks).map (·.chunkId)).toFinset =
        (batch.upsertedChunks.map (·.chunkId)).toFinset := by
  obtain ⟨hnodup, hmem⟩ := keepLast_chunkIds fun chunk hchunk => (h.upserted chunk hchunk).1
  refine ⟨hnodup, ?_⟩
  ext chunkId
  rw [List.mem_toFinset, List.mem_toFinset, hmem]

/-- Bringing the live index up to date with a batch leaves a consistent index. -/
theorem VectorLoop.sync {batch : VectorBatch} (h : VectorLoop ids start batch) (hputs : start.Puts batch.index)
    (hstart : Consistent P ids start) (hstab : StableOn P ids) :
    ∃ synced, (batch.sync P).2 = .ok synced ∧ Consistent P ids synced ∧
      synced.documentState = batch.index.documentState := by
  have hunsynced : Unsynced ids start batch.index batch.removedChunkIds
      (Occurrence.keepLast (·.documentId) batch.upsertedChunks) :=
    ⟨h.indexed, h.within, by rw [h.kept_chunkIds.2, h.rows], hputs⟩
  rw [VectorBatch.sync_eq]
  by_cases hnone : batch.upsertedChunks = []
  · refine ⟨_, if_pos hnone, ?_, batch.index.syncVectorIndexRemove_documentState _⟩
    rw [hnone] at hunsynced
    exact hunsynced.consistent_removed hstart hstab fun hempty => h.documents_empty hempty hnone
  · have hbuild : start.documents = ∅ → ∀ chunk ∈ batch.index.vectorChunks,
        Accepted start.vectorDim chunk.embedding := by
      intro hempty chunk hchunk
      obtain ⟨documentId, record, hrec, stored, hsto, rfl⟩ := mem_vectorChunks.mp hchunk
      exact (h.put_of_empty hempty hrec).2 stored hsto
    obtain ⟨synced, hsync, hkept⟩ := hunsynced.resync hstart hstab h.kept_chunkIds.1 h.accepted hbuild
    exact ⟨synced, (if_neg hnone).trans hsync, hkept⟩

/-- Until a document of the batch changes something, the loop has done nothing. -/
theorem upsertVectorLoop_unchanged (hsame : (upsertVectorLoop P policy start documents).changed = 0) :
    upsertVectorLoop P policy start documents = ⟨start, 0, [], ∅, [], []⟩ := by
  have hrun : ∀ (rest : List CoreVectorDocument) (batch : VectorBatch),
      (batch.changed = 0 → batch = ⟨start, 0, [], ∅, [], []⟩) →
      (rest.foldl (upsertVector P policy) batch).changed = 0 →
      rest.foldl (upsertVector P policy) batch = ⟨start, 0, [], ∅, [], []⟩ := by
    intro rest
    induction rest with
    | nil => exact fun _ h => h
    | cons document rest ih =>
      intro batch h
      apply ih
      unfold upsertVector
      split
      · exact h
      · exact fun hzero => absurd hzero (Nat.succ_ne_zero _)
  exact hrun documents _ (fun _ => rfl) hsame

/-- A batch that changed something moves to the next generation. -/
theorem advances_close (hsync : ((upsertVectorLoop P policy start documents).sync P).2 = .ok synced)
    (hgen : synced.generation = start.generation) :
    Advances start ((upsertVectorLoop P policy start documents).close synced) := by
  by_cases hzero : (upsertVectorLoop P policy start documents).changed = 0
  · left
    have hnothing := upsertVectorLoop_unchanged hzero
    rw [hnothing] at hsync ⊢
    simpa [VectorBatch.sync, VectorBatch.close, eq_comm] using hsync
  · right
    simp only [VectorBatch.close, if_neg hzero, hgen]

/-- A vector upsert that passes its checks and syncs the live index succeeds. -/
theorem upsertVectors_ok
    (hchk : (do start.requireVectorsMutable; documents.forM (checkVectorDocument start.vectorDim)) = .ok ())
    (hsync : ((upsertVectorLoop P policy start documents).sync P).2 = .ok synced) :
    ∃ mutated, upsertVectors P policy start documents =
      ⟨(upsertVectorLoop P policy start documents).close synced, .ok mutated⟩ := by
  obtain ⟨removed, hpair⟩ : ∃ removed, (upsertVectorLoop P policy start documents).sync P = (removed, .ok synced) :=
    ⟨_, Prod.ext rfl hsync⟩
  simp only [upsertVectors, hchk, hpair]
  exact ⟨_, rfl⟩

/-- A vector upsert keeps what bringing the live index up to date keeps. -/
theorem upsertVectors_lands {Inv : VectorOnlyIndex → Prop} (hcore : OfCore Inv) (hstart : Inv start)
    (hsync : (∀ document ∈ documents, Accepted start.vectorDim document.vector) →
      ∃ synced, ((upsertVectorLoop P policy start documents).sync P).2 = .ok synced ∧ Inv synced ∧
        synced.documentState = (upsertVectorLoop P policy start documents).index.documentState) :
    Lands Inv start (upsertVectors P policy start documents) := by
  cases hchk : (do start.requireVectorsMutable; documents.forM (checkVectorDocument start.vectorDim)) with
  | error error =>
    simp only [upsertVectors, hchk]
    exact lands_of_failed hstart error
  | ok checked =>
    obtain ⟨-, -, hdocs⟩ := ExceptRules.bind_eq_ok.mp hchk
    obtain ⟨synced, hsynced, hinv, hstate⟩ := hsync fun document hdoc =>
      (forM_checkVectorDocument_eq_ok.mp hdocs document hdoc).2
    obtain ⟨mutated, hout⟩ := upsertVectors_ok hchk hsynced
    rw [hout]
    refine lands_of_ok ?_ (advances_close hsynced ?_) mutated
    · unfold VectorBatch.close
      split
      · exact hinv
      · exact hcore _ _ hinv rfl
    · exact (congrArg VectorOnlyIndex.DocumentState.generation hstate).trans (upsertVectorLoop_puts start documents).generation

/-- A vector upsert that fits keeps the invariant. -/
theorem Consistent.upsertVectors (hstart : Consistent P ids start) (hstab : StableOn P ids)
    (hfits : VectorBatchFits P ids start documents) :
    Lands (Consistent P ids) start (upsertVectors P policy start documents) :=
  upsertVectors_lands (fun _ _ h => h.of_core) hstart fun hacc =>
    (vectorLoop_upsertVectorLoop hstart.indexed hstart.within hfits hacc).sync (upsertVectorLoop_puts _ _) hstart
      hstab

end Upsert

end LodeDB.Engine
