import LodeDB.Engine.TextSound

/-!
# Applying a plan

The loop's invariant speaks of the planned documents that are done: they have their chunks, the
others are as they were at the start. It is what the sync after the loop needs to leave exactly one
row for each chunk.
-/

namespace LodeDB.Engine

open TreeMapRules InverseIndex
open Text (StableOn)

variable {P : Primitives} {ids : Set String} {start : VectorOnlyIndex} {plan : IngestPlan}
  {embeddings : List Embedding}

variable {chunkId : String} {chunk : PlanDocumentChunk}

variable {Inv : List PlanDocument → TextBatch → Prop} {record : DocumentRecord}

/-- The chunk ids of planned documents. -/
def plannedChunkIds (documents : List PlanDocument) : List String := documents.flatMap (·.chunkIds)

variable (fresh existing : ChunkVectors)

/-- The chunks of a planned document with their vectors. -/
def plannedRecords (document : PlanDocument) :
    List ChunkRecord :=
  document.chunks.map fun chunk => ⟨chunk.chunkId, vectorFor fresh existing chunk.chunkId⟩

/-- The chunks of a planned document that were embedded for this plan. -/
def embeddedChunks (document : PlanDocument) :
    List CoreVectorChunk :=
  (document.chunks.filter fun chunk => fresh.contains chunk.chunkId).map fun chunk =>
    ⟨chunk.chunkId, document.documentId, vectorFor fresh existing chunk.chunkId⟩

theorem plannedRecords_chunkIds (document : PlanDocument) :
    (plannedRecords fresh existing document).map (·.chunkId) = document.chunkIds := by
  simp [plannedRecords, PlanDocument.chunkIds, Function.comp_def]

/-- What the loop has put, once the given documents are done. -/
structure TextRun (start : VectorOnlyIndex) (fresh existing : ChunkVectors)
    (done : List PlanDocument) (batch : TextBatch) : Prop where
  documents : ∀ (documentId : String) (record : DocumentRecord), batch.index.documents[documentId]? = some record →
    start.documents[documentId]? = some record ∨ ∃ document ∈ done, document.documentId = documentId ∧
      record.chunks = plannedRecords fresh existing document
  active : batch.activeChunkIds = (plannedChunkIds done).toFinset
  added : batch.addedVectorChunks = done.flatMap (embeddedChunks fresh existing)
  puts : start.Puts batch.index

/-- What the loop keeps, once the given documents are done. -/
structure TextLoop (ids : Set String) (start : VectorOnlyIndex)
    (fresh existing : ChunkVectors) (done : List PlanDocument)
    (batch : TextBatch) : Prop extends TextRun start fresh existing done batch where
  indexed : Indexed batch.index
  within : ∀ chunkId ∈ ownedChunks batch.index.documents, chunkId ∈ ids
  untouched : ∀ documentId, documentId ∉ done.map (·.documentId) →
    batch.index.documents[documentId]? = start.documents[documentId]?
  rows : ownedChunks batch.index.documents =
    (ownedChunks start.documents \ batch.removedChunkIds) ∪ batch.activeChunkIds

section Step

variable {fresh existing : ChunkVectors} {done rest : List PlanDocument}
  {batch : TextBatch} {document : PlanDocument}

/-- A chunk planned for a document is not planned before it, nor is the document. -/
theorem PlanDistinct.split (hdist : PlanDistinct ids plan) (hplan : plan.documents = done ++ document :: rest) :
    document.documentId ∉ done.map (·.documentId) ∧ document.chunkIds.Nodup ∧
      ∀ chunkId ∈ document.chunkIds, chunkId ∉ plannedChunkIds done := by
  have hdocs := hdist.documentIds
  have hchunks := hdist.chunkIds
  rw [hplan, List.map_append, List.map_cons, List.nodup_append] at hdocs
  rw [hplan, List.flatMap_append, List.flatMap_cons, List.nodup_append, List.nodup_append] at hchunks
  refine ⟨fun hmem => hdocs.2.2 _ hmem _ (by simp) rfl, hchunks.2.1.1, ?_⟩
  intro chunkId hchunk hdone
  exact hchunks.2.2 _ hdone _ (by simp [hchunk]) rfl

/-- No chunk of the documents that are done is an old chunk of the next one. -/
theorem PlanFits.disjoint_old (hfits : PlanFits ids start plan)
    (hplan : plan.documents = done ++ document :: rest) (hdone : chunkId ∈ plannedChunkIds done) :
    ¬ HasChunk start.documents document.documentId chunkId := by
  intro hold
  obtain ⟨other, hother, hchunk⟩ := List.mem_flatMap.mp hdone
  have hsame := hfits.ownIds other (by simp [hplan, hother]) chunkId hchunk _ hold
  exact (hfits.distinct.split hplan).1 (hsame ▸ List.mem_map_of_mem hother)

/-- A planned document with its vectors, when the documents before it have taken theirs. -/
def resolvedAfter (P : Primitives) (fresh existing : ChunkVectors)
    (done : List PlanDocument) (document : PlanDocument) : Resolved where
  chunks := plannedRecords fresh existing document
  newEmbeddings := eraseAll fresh (plannedChunkIds (done ++ [document]))
  added := embeddedChunks fresh existing document
  addedWal := (resolvedChunks P fresh existing document.documentId document.chunks).addedWal

/-- Resolving the next document takes its embeddings from the ones of the plan. -/
theorem applyPlanDocument_eq (hnodup : document.chunkIds.Nodup)
    (hnew : ∀ chunkId ∈ document.chunkIds, chunkId ∉ plannedChunkIds done)
    (hembs : batch.newEmbeddings = eraseAll fresh (plannedChunkIds done))
    (hfound : ∀ chunk ∈ document.chunks, fresh[chunk.chunkId]? = none →
      ∃ vector, existing[chunk.chunkId]? = some vector) :
    applyPlanDocument P plan existing batch document =
      .ok (batch.put P plan document (resolvedAfter P fresh existing done document)) := by
  have hsame : ∀ chunk ∈ document.chunks, batch.newEmbeddings[chunk.chunkId]? = fresh[chunk.chunkId]? := by
    intro chunk hchunk
    rw [hembs, getElem?_eraseAll, if_neg (hnew _ (List.mem_map_of_mem hchunk))]
  have hids : plannedChunkIds (done ++ [document]) = plannedChunkIds done ++ document.chunks.map (·.chunkId) := by
    simp [plannedChunkIds, PlanDocument.chunkIds]
  rw [applyPlanDocument, resolveChunks_eq document.chunks hnodup fun chunk hchunk hnone =>
    hfound chunk hchunk (hsame chunk hchunk ▸ hnone), resolvedChunks_congr hsame, hembs,
    ← eraseAll_append, ← hids]
  rfl

/-- The loop runs through a plan whose chunks are all embedded or resident, and keeps what every turn keeps. -/
theorem applyPlanDocuments_runs (hdist : PlanDistinct ids plan)
    (hfound : ∀ document ∈ plan.documents, ∀ chunk ∈ document.chunks, fresh[chunk.chunkId]? = none →
      ∃ vector, existing[chunk.chunkId]? = some vector)
    (hstep : ∀ (done rest : List PlanDocument) (document : PlanDocument) (batch : TextBatch),
      plan.documents = done ++ document :: rest → Inv done batch →
      Inv (done ++ [document]) (batch.put P plan document (resolvedAfter P fresh existing done document)))
    (hplan : plan.documents = done ++ rest)
    (hembs : batch.newEmbeddings = eraseAll fresh (plannedChunkIds done)) (h : Inv done batch) :
    ∃ last, applyPlanDocuments P plan existing rest batch = (last, .ok ()) ∧ Inv plan.documents last := by
  induction rest generalizing done batch with
  | nil =>
    rw [List.append_nil] at hplan
    exact ⟨batch, rfl, hplan ▸ h⟩
  | cons document rest ih =>
    obtain ⟨-, hnodup, hnew⟩ := hdist.split hplan
    have hdoc := hfound document (by simp [hplan])
    have hnext : plan.documents = done ++ [document] ++ rest := by simp [hplan]
    rw [applyPlanDocuments, applyPlanDocument_eq hnodup hnew hembs hdoc]
    exact ih hnext rfl (hstep done rest document batch hplan h)

theorem putTextDocument_documents {chunks : List ChunkRecord} {index : VectorOnlyIndex} :
    (putTextDocument P plan index document chunks).documents =
      index.documents.insert document.documentId (textRecord P document chunks) :=
  replaceDocument_documents

/-- One turn of the loop. -/
theorem TextRun.step (h : TextRun start fresh existing done batch) (plan : IngestPlan) :
    TextRun start fresh existing (done ++ [document])
      (batch.put P plan document (resolvedAfter P fresh existing done document)) := by
  have hputs : batch.index.Puts (batch.index.replaceDocument document.documentId
    (textRecord P document (plannedRecords fresh existing document))) := replaceDocument_puts
  refine ⟨?_, ?_, ?_, h.puts.trans ⟨hputs.bookkeeping, hputs.generation, hputs.rowState⟩⟩
  · intro documentId record hrec
    rw [TextBatch.put, putTextDocument_documents] at hrec
    rcases of_getElem?_insert hrec with ⟨hself, rfl⟩ | hrec
    · exact .inr ⟨document, by simp, hself, rfl⟩
    · refine (h.documents documentId record hrec).imp_right ?_
      rintro ⟨before, hbefore, hplanned⟩
      exact ⟨before, by simp [hbefore], hplanned⟩
  · simp [TextBatch.put, h.active, plannedChunkIds]
  · simp [TextBatch.put, h.added, resolvedAfter]

/-- One turn of the loop keeps the count of rows. -/
theorem TextLoop.step_rows (h : TextLoop ids start fresh existing done batch) (hfits : PlanFits ids start plan)
    (hplan : plan.documents = done ++ document :: rest) (hrec : record.chunkIds = document.chunkIds) :
    ownedChunks (batch.index.documents.insert document.documentId record) =
      (ownedChunks start.documents \ (batch.removedChunkIds ∪
        (chunkIdsOf batch.index.documents document.documentId).toFinset)) ∪
      (batch.activeChunkIds ∪ document.chunkIds.toFinset) := by
  have hold : chunkIdsOf batch.index.documents document.documentId =
      chunkIdsOf start.documents document.documentId := by
    rw [chunkIdsOf, chunkIdsOf, h.untouched _ (hfits.distinct.split hplan).1]
  have hdisj : ∀ chunkId ∈ batch.activeChunkIds, chunkId ∉ chunkIdsOf start.documents document.documentId := by
    intro chunkId hactive hchunk
    rw [h.active, List.mem_toFinset] at hactive
    exact hfits.disjoint_old hplan hactive (mem_chunkIdsOf.mp hchunk)
  rw [ownedChunks_insert h.indexed, h.rows, hold, hrec]
  ext chunkId
  have := hdisj chunkId
  simp only [Finset.mem_union, Finset.mem_sdiff, List.mem_toFinset]
  tauto

/-- One turn of the loop keeps its invariant. -/
theorem TextLoop.step (h : TextLoop ids start fresh existing done batch)
    (hfits : PlanFits ids start plan) (hplan : plan.documents = done ++ document :: rest) :
    TextLoop ids start fresh existing (done ++ [document])
      (batch.put P plan document (resolvedAfter P fresh existing done document)) := by
  obtain ⟨hnotDone, hnodup, hnew⟩ := hfits.distinct.split hplan
  have hdoc : document ∈ plan.documents := by simp [hplan]
  have hchunks : (textRecord P document (plannedRecords fresh existing document)).chunkIds =
      document.chunkIds := plannedRecords_chunkIds fresh existing document
  have hput : (batch.put P plan document (resolvedAfter P fresh existing done document)).index.documents =
      batch.index.documents.insert document.documentId
        (textRecord P document (plannedRecords fresh existing document)) := putTextDocument_documents
  -- another document that has one of the new chunks would have had it at the start
  have hfree : ∀ chunkId ∈ document.chunkIds, ∀ other, HasChunk batch.index.documents other chunkId →
      other = document.documentId := by
    intro chunkId hchunk other hother
    obtain ⟨record, hrec, hmem⟩ := hother
    rcases h.documents other record hrec with hstart | ⟨before, hbefore, -, hplanned⟩
    · exact hfits.ownIds document hdoc chunkId hchunk other ⟨record, hstart, hmem⟩
    · rw [DocumentRecord.chunkIds, hplanned, plannedRecords_chunkIds] at hmem
      exact absurd (List.mem_flatMap.mpr ⟨before, hbefore, hmem⟩) (hnew chunkId hchunk)
  have hrepl := h.indexed.replaceDocument (hchunks ▸ hnodup) (hchunks ▸ hfree)
  refine ⟨h.toTextRun.step plan, ⟨hrepl.nodup, hrepl.owner, hrepl.allDocs⟩, ?_, ?_, ?_⟩
  · intro chunkId howned
    rw [hput, ownedChunks_insert h.indexed, hchunks, Finset.mem_union, Finset.mem_sdiff, List.mem_toFinset] at howned
    rcases howned with ⟨howned, -⟩ | hchunk
    · exact h.within chunkId howned
    · exact hfits.within document hdoc chunkId (List.mem_toFinset.mp hchunk)
  · intro documentId hdone
    rw [List.map_append, List.mem_append, not_or, List.map_singleton, List.mem_singleton] at hdone
    rw [hput, getElem?_insert, if_neg (Ne.symm hdone.2)]
    exact h.untouched documentId hdone.1
  · rw [hput]
    exact h.step_rows hfits hplan hchunks

end Step

/-- The chunks to upsert are the planned ones that were embedded. -/
theorem embeddedChunks_chunkIds
    (done : List PlanDocument) :
    (done.flatMap (embeddedChunks fresh existing)).map (·.chunkId) =
      (plannedChunkIds done).filter fun chunkId => fresh.contains chunkId := by
  rw [plannedChunkIds, List.filter_flatMap, List.map_flatMap]
  simp only [embeddedChunks, List.map_map, PlanDocument.chunkIds, List.filter_map]
  rfl

theorem TextRun.added_chunkIds {fresh existing : ChunkVectors}
    {done : List PlanDocument} {batch : TextBatch} (h : TextRun start fresh existing done batch) :
    batch.addedVectorChunks.map (·.chunkId) =
      (plannedChunkIds done).filter fun chunkId => fresh.contains chunkId := by
  rw [h.added, embeddedChunks_chunkIds]

section Apply

variable (howners : OwnersList start) (hreuses : PlanReuses start plan)
  (hgen : start.generation = plan.baseGeneration)
  (hcount : embeddings.length = plan.chunksToEmbed.length)

/-- The vectors the loop may reuse. -/
def existingVectors (start : VectorOnlyIndex) (plan : IngestPlan) (embeddings : List Embedding) :
    ChunkVectors :=
  reusableChunkVectors start (plannedChunkIds plan.documents) (newEmbeddings plan embeddings)

/-- The loop over a plan before its first turn. -/
def TextBatch.initial (start : VectorOnlyIndex) (plan : IngestPlan) (embeddings : List Embedding) : TextBatch :=
  ⟨start, Engine.newEmbeddings plan embeddings, ∅, ∅, [], [], [], ∅⟩

theorem textRun_initial (start : VectorOnlyIndex) (plan : IngestPlan) (embeddings : List Embedding) :
    TextRun start (newEmbeddings plan embeddings) (existingVectors start plan embeddings) []
      (.initial start plan embeddings) :=
  ⟨fun _ _ h => .inl h, rfl, rfl, .refl start⟩

include hreuses hgen hcount in
/-- A planned chunk without a new embedding has an owner. -/
theorem PlanReuses.owner {document : PlanDocument} (hdoc : document ∈ plan.documents)
    (hchunk : chunk ∈ document.chunks) (hnone : (newEmbeddings plan embeddings)[chunk.chunkId]? = none) :
    ∃ owner, start.chunkOwnerById[chunk.chunkId]? = some owner := by
  refine hreuses.resident hgen.symm document hdoc chunk hchunk ?_
  cases hneeds : chunk.needsEmbedding with
  | false => rfl
  | true =>
    exfalso
    have hlist : chunk.chunkId ∈ plan.chunksToEmbed.map (·.chunkId) := by
      rw [hreuses.toEmbed]
      simp only [chunksToEmbed, List.map_flatMap, List.mem_flatMap, List.map_map, List.mem_map]
      exact ⟨document, hdoc, chunk, by simp [hchunk, hneeds], rfl⟩
    have hkeys : chunk.chunkId ∈ keySet (newEmbeddings plan embeddings) := by
      rw [newEmbeddings, keySet_writeAll, List.map_fst_zip (by simp [hcount])]
      simpa using hlist
    obtain ⟨vector, hvec⟩ := mem_keySet.mp hkeys
    rw [hnone] at hvec
    cases hvec

include howners hreuses hgen hcount

/-- A planned chunk without a new embedding is resident. -/
theorem owned_of_not_embedded {document : PlanDocument} (hdoc : document ∈ plan.documents)
    (hchunk : chunk ∈ document.chunks) (hnone : (newEmbeddings plan embeddings)[chunk.chunkId]? = none) :
    chunk.chunkId ∈ ownedChunks start.documents := by
  obtain ⟨owner, howner⟩ := hreuses.owner hgen hcount hdoc hchunk hnone
  exact mem_ownedChunks.mpr ⟨owner, howners _ _ howner⟩

/-- Every planned chunk is embedded or has a vector to reuse. -/
theorem exists_existingVectors (document : PlanDocument) (hdoc : document ∈ plan.documents)
    (chunk : PlanDocumentChunk) (hchunk : chunk ∈ document.chunks)
    (hnone : (newEmbeddings plan embeddings)[chunk.chunkId]? = none) :
    ∃ vector, (existingVectors start plan embeddings)[chunk.chunkId]? = some vector := by
  obtain ⟨owner, howner⟩ := hreuses.owner hgen hcount hdoc hchunk hnone
  obtain ⟨vector, hvec⟩ := exists_residentVector howner (howners _ _ howner)
  have hplanned : chunk.chunkId ∈ plannedChunkIds plan.documents :=
    List.mem_flatMap.mpr ⟨document, hdoc, List.mem_map_of_mem hchunk⟩
  exact ⟨vector, by rw [existingVectors, getElem?_reusableChunkVectors, if_pos ⟨hplanned, hnone⟩, hvec]⟩

/-- Applying a plan runs through all its documents, with every turn's invariant. -/
theorem applyLoop_runs (hdist : PlanDistinct ids plan)
    (hstep : ∀ (done rest : List PlanDocument) (document : PlanDocument) (batch : TextBatch),
      plan.documents = done ++ document :: rest → Inv done batch →
      Inv (done ++ [document]) (batch.put P plan document (resolvedAfter P (newEmbeddings plan embeddings)
        (existingVectors start plan embeddings) done document))) (hinit : Inv [] (.initial start plan embeddings)) :
    ∃ batch, applyLoop P start plan embeddings = (batch, .ok ()) ∧ Inv plan.documents batch :=
  applyPlanDocuments_runs hdist (exists_existingVectors howners hreuses hgen hcount) hstep rfl rfl hinit

omit howners hreuses hgen hcount

/-- Every new embedding is one the caller gave. -/
theorem mem_of_newEmbeddings {embedding : Embedding}
    (h : (newEmbeddings plan embeddings)[chunkId]? = some embedding) : embedding ∈ embeddings := by
  rcases mem_or_of_getElem?_writeAll h with hmem | hnone
  · exact (List.of_mem_zip hmem).2
  · simp at hnone

/-- The vector of an embedded chunk is one the caller gave. -/
theorem vectorFor_mem {existing : ChunkVectors}
    (h : (newEmbeddings plan embeddings).contains chunkId = true) :
    vectorFor (newEmbeddings plan embeddings) existing chunkId ∈ embeddings := by
  obtain ⟨embedding, hemb⟩ := (contains_iff _ _).mp h
  rw [vectorFor, hemb]
  exact mem_of_newEmbeddings hemb

section Batch

variable {batch : TextBatch} (h : TextRun start (Engine.newEmbeddings plan embeddings)
    (existingVectors start plan embeddings) plan.documents batch)
  (hacc : ∀ embedding ∈ embeddings, Accepted start.vectorDim embedding)

include h hacc

/-- The rows to upsert are accepted. -/
theorem TextRun.accepted (chunk : CoreVectorChunk) (hchunk : chunk ∈ batch.addedVectorChunks) :
    Accepted start.vectorDim chunk.embedding := by
  rw [h.added, List.mem_flatMap] at hchunk
  obtain ⟨document, hdoc, hchunk⟩ := hchunk
  obtain ⟨planned, hplanned, rfl⟩ := List.mem_map.mp hchunk
  exact hacc _ (vectorFor_mem (List.mem_filter.mp hplanned).2)

include howners hreuses hgen hcount in
/-- In an empty index nothing is resident, so every chunk was embedded. -/
theorem TextRun.fromEmpty (hempty : start.documents = ∅) {documentId : String}
    (hrec : batch.index.documents[documentId]? = some record) :
    ∃ document ∈ plan.documents, document.documentId = documentId ∧ record.chunkIds = document.chunkIds ∧
      ∀ stored ∈ record.chunks, Accepted start.vectorDim stored.vector ∧
        stored.chunkId ∈ batch.addedVectorChunks.map (·.chunkId) := by
  rcases h.documents documentId record hrec with hold | ⟨document, hdoc, hid, hplanned⟩
  · simp [hempty] at hold
  · refine ⟨document, hdoc, hid, ?_, ?_⟩
    · rw [DocumentRecord.chunkIds, hplanned, plannedRecords_chunkIds]
    · intro stored hsto
      rw [hplanned] at hsto
      obtain ⟨planned, hmem, rfl⟩ := List.mem_map.mp hsto
      cases hfresh : (Engine.newEmbeddings plan embeddings)[planned.chunkId]? with
      | none =>
        have howned := owned_of_not_embedded howners hreuses hgen hcount hdoc hmem hfresh
        simp [hempty] at howned
      | some embedding =>
        have hhas := (contains_iff (Engine.newEmbeddings plan embeddings) planned.chunkId).mpr
          ⟨embedding, hfresh⟩
        refine ⟨hacc _ (vectorFor_mem hhas), ?_⟩
        rw [h.added_chunkIds, List.mem_filter]
        exact ⟨List.mem_flatMap.mpr ⟨document, hdoc, List.mem_map_of_mem hmem⟩, hhas⟩

end Batch

end Apply

section Upsert

/-- The checks pass exactly when the plan is current and every embedding is accepted. -/
theorem checkPlan_eq_ok : checkPlan start plan embeddings = .ok () ↔
    start.vectorsSeeded = true ∧ start.generation = plan.baseGeneration ∧
      embeddings.length = plan.chunksToEmbed.length ∧
      ∀ embedding ∈ embeddings, Accepted start.vectorDim embedding := by
  simp [checkPlan, checkEmbedding, Accepted, VectorOnlyIndex.requireVectorsMutable]

/-- A text upsert whose loop and sync succeed returns. -/
theorem applyTextUpsert_ok {batch : TextBatch} {synced : VectorOnlyIndex}
    (hchk : checkPlan start plan embeddings = .ok ()) (hbatch : applyLoop P start plan embeddings = (batch, .ok ()))
    (hsync : (batch.sync P).2 = .ok synced) :
    ∃ mutated, applyTextUpsert P start plan embeddings = ⟨if plan.documents = [] then start
      else { synced.finalizeFilterFields batch.changedFilterFields with generation := synced.generation + 1 },
        .ok mutated⟩ := by
  obtain ⟨removed, hpair⟩ : ∃ removed, batch.sync P = (removed, .ok synced) := ⟨_, Prod.ext rfl hsync⟩
  by_cases hnone : plan.documents = []
  · have hsame : batch.index = start := by
      rw [applyLoop, hnone] at hbatch
      exact (congrArg (fun result => result.1.index) hbatch).symm
    simp only [applyTextUpsert, hchk, hbatch, hnone, if_true, hsame]
    exact ⟨_, rfl⟩
  · simp only [applyTextUpsert, hchk, hbatch, hnone, if_false, hpair]
    exact ⟨_, rfl⟩

/-- A text upsert keeps what bringing the live index up to date keeps. -/
theorem applyTextUpsert_lands {Inv : VectorOnlyIndex → Prop} (hcore : OfCore Inv) (hstart : Inv start)
    (hruns : checkPlan start plan embeddings = .ok () → ∃ batch synced,
      applyLoop P start plan embeddings = (batch, .ok ()) ∧ (batch.sync P).2 = .ok synced ∧ Inv synced ∧
        synced.generation = start.generation) : Lands Inv start (applyTextUpsert P start plan embeddings) := by
  cases hchk : checkPlan start plan embeddings with
  | error error =>
    simp only [applyTextUpsert, hchk]
    exact lands_of_failed hstart error
  | ok checked =>
    obtain ⟨batch, synced, hbatch, hsync, hinv, hgen⟩ := hruns hchk
    obtain ⟨mutated, hout⟩ := applyTextUpsert_ok hchk hbatch hsync
    rw [hout]
    split
    · exact lands_of_ok hstart (.inl rfl) mutated
    · refine lands_of_ok ?_ (.inr (congrArg (· + 1) hgen)) mutated
      exact hcore _ _ hinv rfl

variable (hstart : Consistent P ids start) (hfits : PlanFits ids start plan) (hreuses : PlanReuses start plan)
  (hgen : start.generation = plan.baseGeneration)
  (hcount : embeddings.length = plan.chunksToEmbed.length)

include hreuses hgen hcount hstart

/-- After the loop, only the live index is behind. -/
theorem TextLoop.unsynced {batch : TextBatch} (h : TextLoop ids start (Engine.newEmbeddings plan embeddings)
      (existingVectors start plan embeddings) plan.documents batch) :
    Unsynced ids start batch.index
      (SortedSet.ascending (batch.removedChunkIds \ batch.activeChunkIds)) batch.addedVectorChunks := by
  refine ⟨h.indexed, h.within, ?_, h.puts⟩
  -- an active chunk that was not embedded was owned from the start
  have hreused : ∀ chunkId ∈ batch.activeChunkIds,
      chunkId ∈ batch.addedVectorChunks.map (·.chunkId) ∨ chunkId ∈ ownedChunks start.documents := by
    intro chunkId hactive
    rw [h.active, List.mem_toFinset, plannedChunkIds, List.mem_flatMap] at hactive
    obtain ⟨document, hdoc, hchunk⟩ := hactive
    obtain ⟨chunk, hmem, rfl⟩ := List.mem_map.mp hchunk
    cases hfresh : (Engine.newEmbeddings plan embeddings)[chunk.chunkId]? with
    | none => exact .inr (owned_of_not_embedded hstart.owners hreuses hgen hcount hdoc hmem hfresh)
    | some embedding =>
      left
      rw [h.added_chunkIds, List.mem_filter]
      exact ⟨List.mem_flatMap.mpr ⟨document, hdoc, List.mem_map_of_mem hmem⟩,
        (contains_iff _ _).mpr ⟨embedding, hfresh⟩⟩
  have hadded : ∀ chunkId ∈ batch.addedVectorChunks.map (·.chunkId), chunkId ∈ batch.activeChunkIds := by
    intro chunkId hchunk
    rw [h.added_chunkIds, List.mem_filter] at hchunk
    rw [h.active, List.mem_toFinset]
    exact hchunk.1
  rw [h.rows, SortedSet.toFinset_ascending]
  ext chunkId
  have := hreused chunkId
  have := hadded chunkId
  simp only [Finset.mem_union, Finset.mem_sdiff, List.mem_toFinset]
  tauto

include hfits

/-- Bringing the live index up to date with a plan leaves a consistent index. -/
theorem TextLoop.sync {batch : TextBatch} (hstab : StableOn P ids)
    (hacc : ∀ embedding ∈ embeddings, Accepted start.vectorDim embedding)
    (h : TextLoop ids start (Engine.newEmbeddings plan embeddings)
      (existingVectors start plan embeddings) plan.documents batch) :
    ∃ synced, (batch.sync P).2 = .ok synced ∧ Consistent P ids synced ∧
      synced.documentState = batch.index.documentState := by
  refine (h.unsynced hstart hreuses hgen hcount).resync hstart hstab ?_ (h.accepted hacc) ?_
  · rw [h.added_chunkIds]
    exact hfits.chunkIds.filter _
  · intro hempty chunk hchunk
    obtain ⟨documentId, record, hrec, stored, hsto, rfl⟩ := mem_vectorChunks.mp hchunk
    obtain ⟨-, -, -, -, hstoredAll⟩ := h.fromEmpty hstart.owners hreuses hgen hcount hacc hempty hrec
    exact (hstoredAll stored hsto).1

/-- Applying a plan that fits runs through all its documents. -/
theorem textLoop_applyLoop : ∃ batch, applyLoop P start plan embeddings = (batch, .ok ()) ∧
    TextLoop ids start (newEmbeddings plan embeddings) (existingVectors start plan embeddings) plan.documents batch :=
  applyLoop_runs hstart.owners hreuses hgen hcount hfits.distinct
    (fun _ _ _ _ hplan h => TextLoop.step h hfits hplan)
    ⟨textRun_initial start plan embeddings, hstart.indexed, hstart.within, fun _ _ => rfl, by simp [TextBatch.initial]⟩

omit hgen hcount in
/-- Applying a plan that fits keeps the invariant. -/
theorem Consistent.applyTextUpsert (hstab : StableOn P ids) :
    Lands (Consistent P ids) start (applyTextUpsert P start plan embeddings) := by
  refine applyTextUpsert_lands (fun _ _ h => h.of_core) hstart fun hchk => ?_
  obtain ⟨-, hgen, hcount, hacc⟩ := checkPlan_eq_ok.mp hchk
  obtain ⟨batch, hbatch, hloop⟩ := textLoop_applyLoop hstart hfits hreuses hgen hcount
  obtain ⟨synced, hsync, hconsistent, hstate⟩ := hloop.sync hstart hfits hreuses hgen hcount hstab hacc
  exact ⟨batch, synced, hbatch, hsync, hconsistent,
    (congrArg VectorOnlyIndex.DocumentState.generation hstate).trans hloop.puts.generation⟩

end Upsert

end LodeDB.Engine
