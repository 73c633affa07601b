import LodeDB.Engine.Appender
import LodeDB.Engine.RowsTracked
import LodeDB.Engine.Session

/-!
# Appending and folding against preparing and applying

The fold of a planned record and the writer's text upsert run the same loop and put the same records, the fold with
every vector from the record and the writer with the resident vectors of the chunks it does not embed again. The live
rows agree because the fold writes again only the rows that the writer left in place.
-/

namespace LodeDB.Engine

open ExceptRules TreeMapRules InverseIndex
open Text (StableOn stableUint64ForText sha256Text tokenize)

/-- What gives planned chunks their vectors. -/
abbrev Embedder := PlanEmbeddingChunk → Embedding

variable {P : Primitives} {policy : TextPolicy} {ids : Set String} {start : VectorOnlyIndex}
  {plan : IngestPlan} {embed : Embedder}

variable {chunkCharacterLimit : ℕ} {documents : List PlanDocument} {pair : PlanDocument × PlanDocumentChunk}
  {existing fresh : ChunkVectors} {live : TurboVecNativeIndex}
  {calibration : Calibration} {chunks : List CoreVectorChunk} {index : VectorOnlyIndex}
  {chunk : CoreVectorChunk} {removed : List String}

/-! ### One plan, marked two ways -/

/-- A planned chunk that is to be embedded. -/
def PlanDocumentChunk.marked (chunk : PlanDocumentChunk) : PlanDocumentChunk := { chunk with needsEmbedding := true }

/-- A planned document whose chunks are all to be embedded. -/
def PlanDocument.marked (document : PlanDocument) : PlanDocument :=
  { document with chunks := document.chunks.map PlanDocumentChunk.marked }

theorem PlanDocument.marked_chunkIds (document : PlanDocument) : document.marked.chunkIds = document.chunkIds := by
  simp [PlanDocument.chunkIds, PlanDocument.marked, PlanDocumentChunk.marked, Function.comp_def]

theorem planChunks_marked (documentId : String) (needsEmbedding : String → Bool) (pieces : List String)
    (occurrences : Std.ExtTreeMap String ℕ compare) :
    planChunks P policy documentId (fun _ => true) pieces occurrences =
      (planChunks P policy documentId needsEmbedding pieces occurrences).map PlanDocumentChunk.marked := by
  induction pieces generalizing occurrences with
  | nil => rfl
  | cons piece rest ih => simp only [planChunks, List.map_cons, PlanDocumentChunk.marked, ih]

/-- A document is planned alike whatever is resident, up to what is to be embedded. -/
theorem planDocument_marked {needsEmbedding : String → Bool} {document : CoreDocument} {planned : PlanDocument}
    (hplanned : planDocument P policy chunkCharacterLimit needsEmbedding document = .ok planned) :
    planDocument P policy chunkCharacterLimit (fun _ => true) document = .ok planned.marked := by
  simp only [planDocument, bind_eq_ok, ensure_eq_ok, pure, Except.pure, Except.ok.injEq] at hplanned ⊢
  obtain ⟨_, hid, _, htext, pieces, hpieces, rfl⟩ := hplanned
  refine ⟨⟨⟩, hid, ⟨⟩, htext, pieces, hpieces, ?_⟩
  simp only [PlanDocument.marked, planChunks_marked document.documentId needsEmbedding]

/-- The plan an appender makes where a writer made another. -/
def markedPlan (plan : IngestPlan) : IngestPlan :=
  { plan with
    baseGeneration := 0
    documents := plan.documents.map PlanDocument.marked
    chunksToEmbed := chunksToEmbed (plan.documents.map PlanDocument.marked) }

theorem planDocuments_marked {documents : List CoreDocument}
    (hplan : prepareTextUpsert P start documents policy chunkCharacterLimit = .ok plan) (hsome : documents ≠ [])
    (hnodup : (documents.map CoreDocument.documentId).Nodup) :
    planDocuments P documents policy chunkCharacterLimit = .ok (markedPlan plan) := by
  obtain ⟨prepared, hprep, rfl⟩ := prepareTextUpsert_eq_ok hplan
  have hmarked : documents.mapM (planDocument P policy chunkCharacterLimit fun _ => true) =
      .ok (prepared.map PlanDocument.marked) := by
    rw [mapM_eq_ok] at hprep ⊢
    rw [List.forall₂_map_right_iff]
    exact hprep.imp fun _ _ hplanned => planDocument_marked hplanned
  simp only [planDocuments, ensure_of hsome, ensure_of hnodup, planDocumentChunks, hmarked,
    ok_bind, pure, Except.pure]
  rfl

/-! ### The vectors of a plan -/

/-- The chunks of a planned document with the vectors an embedder gives them. -/
def givenChunks (embed : Embedder) (document : PlanDocument) : List ChunkRecord :=
  document.chunks.map fun chunk => ⟨chunk.chunkId, embed ⟨document.documentId, chunk.chunkId, chunk.text⟩⟩

/-- The planned chunks, each with its document. -/
def plannedPairs (documents : List PlanDocument) : List (PlanDocument × PlanDocumentChunk) :=
  documents.flatMap fun document => document.chunks.map (Prod.mk document)

/-- The vector an embedder gives a planned chunk. -/
def givenVector (embed : Embedder) (pair : PlanDocument × PlanDocumentChunk) : Embedding :=
  embed ⟨pair.1.documentId, pair.2.chunkId, pair.2.text⟩

theorem mem_plannedPairs : pair ∈ plannedPairs documents ↔ pair.1 ∈ documents ∧ pair.2 ∈ pair.1.chunks := by
  simp only [plannedPairs, List.mem_flatMap, List.mem_map]
  constructor
  · rintro ⟨document, hdoc, chunk, hchunk, rfl⟩
    exact ⟨hdoc, hchunk⟩
  · rintro ⟨hdoc, hchunk⟩
    exact ⟨pair.1, hdoc, pair.2, hchunk, rfl⟩

theorem plannedPairs_chunkIds (documents : List PlanDocument) :
    (plannedPairs documents).map (fun pair => pair.2.chunkId) = plannedChunkIds documents := by
  simp [plannedPairs, plannedChunkIds, PlanDocument.chunkIds, List.map_flatMap, Function.comp_def]

theorem chunksToEmbed_eq (documents : List PlanDocument) :
    chunksToEmbed documents = ((plannedPairs documents).filter (·.2.needsEmbedding)).map fun pair =>
      ⟨pair.1.documentId, pair.2.chunkId, pair.2.text⟩ := by
  simp only [chunksToEmbed, plannedPairs, List.filter_flatMap, List.map_flatMap, List.filter_map, List.map_map]
  rfl

/-- A planned chunk is known by its id. -/
theorem eq_of_chunkId (hnodup : (plannedChunkIds documents).Nodup)
    {left right : PlanDocument × PlanDocumentChunk} (hleft : left ∈ plannedPairs documents)
    (hright : right ∈ plannedPairs documents) (hid : left.2.chunkId = right.2.chunkId) : left = right := by
  rw [← plannedPairs_chunkIds] at hnodup
  exact List.inj_on_of_nodup_map hnodup hleft hright hid

/-- The vectors a record carries for planned documents. -/
def givenVectors (embed : Embedder) (pairs : List (PlanDocument × PlanDocumentChunk)) : ChunkVectors :=
  writeAll ∅ (pairs.map fun pair => (pair.2.chunkId, givenVector embed pair))

/-- The vectors of all planned chunks. -/
abbrev recordVectors (embed : Embedder) (plan : IngestPlan) : ChunkVectors :=
  givenVectors embed (plannedPairs plan.documents)

/-- The vectors of the chunks that are embedded. -/
abbrev freshVectors (embed : Embedder) (plan : IngestPlan) : ChunkVectors :=
  newEmbeddings plan (plan.chunksToEmbed.map embed)

/-- The resident vectors of the others. -/
abbrev reusedVectors (embed : Embedder) (start : VectorOnlyIndex) (plan : IngestPlan) : ChunkVectors :=
  existingVectors start plan (plan.chunksToEmbed.map embed)

theorem freshVectors_eq (hembed : plan.chunksToEmbed = chunksToEmbed plan.documents) : freshVectors embed plan =
      givenVectors embed ((plannedPairs plan.documents).filter (·.2.needsEmbedding)) := by
  simp only [newEmbeddings, givenVectors, hembed, chunksToEmbed_eq, List.map_map, List.zip_map']
  rfl

/-- Of a part of the planned chunks, exactly its own have a vector. -/
theorem getElem?_givenVectors (hnodup : (plannedChunkIds documents).Nodup)
    {pairs : List (PlanDocument × PlanDocumentChunk)} (hpairs : pairs.Sublist (plannedPairs documents))
    (hpair : pair ∈ plannedPairs documents) :
    (givenVectors embed pairs)[pair.2.chunkId]? =
      if pair ∈ pairs then some (givenVector embed pair) else none := by
  have hkeys : (pairs.map fun pair => (pair.2.chunkId, givenVector embed pair)).map Prod.fst =
      pairs.map fun pair => pair.2.chunkId := by
    simp [Function.comp_def]
  have hdist : (pairs.map fun pair => pair.2.chunkId).Nodup := by
    have hplanned := hnodup
    rw [← plannedPairs_chunkIds] at hplanned
    exact hplanned.sublist (hpairs.map _)
  split
  · rename_i hmem
    have hentry : (pair.2.chunkId, givenVector embed pair) ∈
        pairs.map fun pair => (pair.2.chunkId, givenVector embed pair) := List.mem_map_of_mem hmem
    exact getElem?_writeAll_of_mem ∅ _ (hkeys ▸ hdist) hentry
  · rename_i hnot
    have hnone : (givenVectors embed pairs)[pair.2.chunkId]? =
        (∅ : ChunkVectors)[pair.2.chunkId]? := by
      apply getElem?_writeAll_of_notMem
      rw [hkeys]
      intro hmem
      obtain ⟨other, hother, hid⟩ := List.mem_map.mp hmem
      exact hnot (eq_of_chunkId hnodup (hpairs.subset hother) hpair hid ▸ hother)
    rw [hnone, Std.ExtTreeMap.getElem?_empty]

/-- A planned chunk is embedded exactly if it needs it. -/
theorem getElem?_freshVectors (hembed : plan.chunksToEmbed = chunksToEmbed plan.documents)
    (hnodup : (plannedChunkIds plan.documents).Nodup) (hpair : pair ∈ plannedPairs plan.documents) :
    (freshVectors embed plan)[pair.2.chunkId]? =
      if pair.2.needsEmbedding then some (givenVector embed pair) else none := by
  rw [freshVectors_eq hembed, getElem?_givenVectors hnodup List.filter_sublist hpair]
  simp only [List.mem_filter, hpair, true_and]

/-- What the writer reuses, as a vector and as a live row, is what the embedder would give; a live index has its
calibration. -/
structure ReusesGiven (P : Primitives) (embed : Embedder) (start : VectorOnlyIndex) (plan : IngestPlan) : Prop where
  vector : ∀ pair ∈ plannedPairs plan.documents, pair.2.needsEmbedding = false →
    residentVector start pair.2.chunkId = some (givenVector embed pair)
  row : ∀ live calibration, start.vectorIndex = some live → live.index.calibration = some calibration →
    ∀ pair ∈ plannedPairs plan.documents, pair.2.needsEmbedding = false →
      live.index.rows[stableUint64ForText P pair.2.chunkId]? =
        some (P.encodeVector calibration (givenVector embed pair))
  calibrated : ∀ live, start.vectorIndex = some live → ∃ calibration, live.index.calibration = some calibration

/-- The writer ends up with the vectors the embedder gives. -/
theorem ReusesGiven.plannedRecords (h : ReusesGiven P embed start plan)
    (hembed : plan.chunksToEmbed = chunksToEmbed plan.documents) (hnodup : (plannedChunkIds plan.documents).Nodup)
    {document : PlanDocument} (hdoc : document ∈ plan.documents) :
    plannedRecords (freshVectors embed plan) (reusedVectors embed start plan) document = givenChunks embed document := by
  refine List.map_congr_left fun chunk hchunk => ?_
  have hpair : (document, chunk) ∈ plannedPairs plan.documents := mem_plannedPairs.mpr ⟨hdoc, hchunk⟩
  have hplanned : chunk.chunkId ∈ plannedChunkIds plan.documents :=
    List.mem_flatMap.mpr ⟨document, hdoc, List.mem_map_of_mem hchunk⟩
  have hfresh : (freshVectors embed plan)[chunk.chunkId]? = _ := getElem?_freshVectors hembed hnodup hpair
  have hexisting : (reusedVectors embed start plan)[chunk.chunkId]? =
      if chunk.chunkId ∈ plannedChunkIds plan.documents ∧ (freshVectors embed plan)[chunk.chunkId]? = none
      then residentVector start chunk.chunkId else none :=
    getElem?_reusableChunkVectors _ _
  cases hneeds : chunk.needsEmbedding with
  | true =>
    rw [if_pos hneeds] at hfresh
    simp only [vectorFor, hfresh, Option.some_or, Option.getD_some]
    rfl
  | false =>
    rw [if_neg (by simp [hneeds])] at hfresh
    rw [if_pos ⟨hplanned, hfresh⟩, h.vector _ hpair hneeds] at hexisting
    simp only [vectorFor, hfresh, hexisting, Option.none_or, Option.getD_some]
    rfl

/-! ### The appender's record -/

/-- The chunks a record carries for planned documents. -/
def recordAdds (P : Primitives) (embed : Embedder) (documents : List PlanDocument) : List WalAddedChunk :=
  (plannedPairs documents).map fun pair =>
    ⟨pair.2.chunkId, pair.1.documentId, sha256Text P pair.2.text, givenVector embed pair⟩

theorem embeddedDocument_marked (document : PlanDocument) :
    embeddedDocument P (markedPlan plan) document.marked = embeddedDocument P plan document := by
  simp only [embeddedDocument, markedPlan, PlanDocument.marked, PlanDocument.chunkIds, List.map_map]
  rfl

theorem plannedPairs_marked (documents : List PlanDocument) :
    plannedPairs (documents.map PlanDocument.marked) =
      (plannedPairs documents).map fun pair => (pair.1.marked, pair.2.marked) := by
  simp only [plannedPairs, List.flatMap_map, List.map_flatMap, PlanDocument.marked, List.map_map]
  rfl

/-- An appender builds its record from accepted embeddings of all planned chunks. -/
theorem buildEmbeddedDocumentsPayload_marked {vectorDim : ℕ} (hsome : plan.documents ≠ [])
    (hids : (plan.documents.map PlanDocument.documentId).Nodup) (hnodup : (plannedChunkIds plan.documents).Nodup)
    (haccepted : ∀ chunk, Accepted vectorDim (embed chunk)) :
    buildEmbeddedDocumentsPayload P (markedPlan plan) ((markedPlan plan).chunksToEmbed.map embed) vectorDim =
      .ok (.applyEmbeddedDocuments (plan.documents.map (embeddedDocument P plan)) (recordAdds P embed plan.documents)
        []) := by
  have hmarkedSome : (markedPlan plan).documents ≠ [] := by simpa [markedPlan] using hsome
  have hmarkedIds : ((markedPlan plan).documents.map PlanDocument.documentId).Nodup := by
    simpa [markedPlan, PlanDocument.marked, Function.comp_def] using hids
  have hmarkedChunks : (plannedChunkIds (markedPlan plan).documents).Nodup := by
    simpa [plannedChunkIds, markedPlan, List.flatMap_map, PlanDocument.marked_chunkIds] using hnodup
  have hchk : ((markedPlan plan).chunksToEmbed.map embed).forM (checkEmbedding vectorDim) = .ok () := by
    apply forM_eq_ok.mpr
    intro embedding hemb
    obtain ⟨chunk, -, rfl⟩ := List.mem_map.mp hemb
    simpa [checkEmbedding, Accepted] using haccepted chunk
  have hadds : ∀ document ∈ (markedPlan plan).documents,
      embeddedAdds P (freshVectors embed (markedPlan plan)) document =
        .ok (document.chunks.map fun chunk => ⟨chunk.chunkId, document.documentId, sha256Text P chunk.text,
          givenVector embed (document, chunk)⟩) := by
    intro document hdoc
    apply mapM_ok_map
    intro chunk hchunk
    have hpair : (document, chunk) ∈ plannedPairs (markedPlan plan).documents := mem_plannedPairs.mpr ⟨hdoc, hchunk⟩
    have hneeds : chunk.needsEmbedding = true := by
      obtain ⟨planned, -, rfl⟩ := List.mem_map.mp hdoc
      obtain ⟨original, -, rfl⟩ := List.mem_map.mp hchunk
      rfl
    have hvec : (freshVectors embed (markedPlan plan))[chunk.chunkId]? = _ :=
      getElem?_freshVectors rfl hmarkedChunks hpair
    rw [if_pos hneeds] at hvec
    simp only [hvec]
  have hdocs : (markedPlan plan).documents.map (embeddedDocument P (markedPlan plan)) =
      plan.documents.map (embeddedDocument P plan) := by
    simp only [markedPlan, List.map_map]
    exact List.map_congr_left fun document _ => embeddedDocument_marked document
  have hrec : ((markedPlan plan).documents.map fun document => document.chunks.map fun chunk =>
      (⟨chunk.chunkId, document.documentId, sha256Text P chunk.text, givenVector embed (document, chunk)⟩ :
        WalAddedChunk)).flatten = recordAdds P embed plan.documents := by
    have hpairs := congrArg (List.map fun pair : PlanDocument × PlanDocumentChunk =>
      (⟨pair.2.chunkId, pair.1.documentId, sha256Text P pair.2.text, givenVector embed pair⟩ : WalAddedChunk))
      (plannedPairs_marked plan.documents)
    simp only [plannedPairs, List.map_flatMap, List.map_map] at hpairs
    rw [← List.flatMap_def]
    exact hpairs.trans (by simp only [recordAdds, plannedPairs, List.map_flatMap, List.map_map]; rfl)
  simp only [buildEmbeddedDocumentsPayload, ensure_of hmarkedSome, ensure_of hmarkedIds,
    ensure_of (List.length_map _), hchk, mapM_ok_map hadds, ok_bind, pure,
    Except.pure, hdocs, hrec]

/-! ### The two loops -/

/-- The record the writer puts for a document with the given vectors. -/
abbrev writtenRecord (P : Primitives) (embed : Embedder) (document : PlanDocument) : DocumentRecord :=
  textRecord P document (givenChunks embed document)

/-- The record the fold puts for it. -/
abbrev refoldedRecord (P : Primitives) (policy : TextPolicy) (embed : Embedder) (plan : IngestPlan)
    (document : PlanDocument) : DocumentRecord :=
  foldRecord policy (embeddedDocument P plan document) (givenChunks embed document)

/-- The records of documents put one after another. -/
def putAll (record : PlanDocument → DocumentRecord) (records : Documents) (documents : List PlanDocument) : Documents :=
  writeAll records (documents.map fun document => (document.documentId, record document))

section PutAll

variable {record : PlanDocument → DocumentRecord} {records : Documents}

theorem putAll_concat (document : PlanDocument) : putAll record records (documents ++ [document]) =
    (putAll record records documents).insert document.documentId (record document) := by
  rw [putAll, putAll, writeAll, writeAll, List.map_append, List.foldl_append]
  rfl

theorem getElem?_putAll_of_notMem {documentId : String} (h : documentId ∉ documents.map (·.documentId)) :
    (putAll record records documents)[documentId]? = records[documentId]? :=
  getElem?_writeAll_of_notMem _ _ _ (by simpa using h)

theorem getElem?_putAll_of_mem {document : PlanDocument} (hnodup : (documents.map (·.documentId)).Nodup)
    (h : document ∈ documents) : (putAll record records documents)[document.documentId]? = some (record document) :=
  getElem?_writeAll_of_mem _ _ (by simpa [Function.comp_def] using hnodup) (List.mem_map_of_mem h)

end PutAll

/-- The loops of a writer and of a fold, once both have done the same documents. -/
structure Twin (P : Primitives) (policy : TextPolicy) (embed : Embedder) (start : VectorOnlyIndex) (plan : IngestPlan)
    (done : List PlanDocument) (batch : TextBatch) (folded : FoldBatch) : Prop where
  writtenDocuments : batch.index.documents = putAll (writtenRecord P embed) start.documents done
  foldedDocuments : folded.index.documents = putAll (refoldedRecord P policy embed plan) start.documents done
  owner : folded.index.chunkOwnerById = batch.index.chunkOwnerById
  puts : start.Puts folded.index
  removed : folded.removedChunkIds = batch.removedChunkIds
  active : folded.activeChunkIds = batch.activeChunkIds

section Loops

variable {done rest : List PlanDocument} {batch : TextBatch} {folded : FoldBatch} {document : PlanDocument}

theorem givenChunks_chunkIds (document : PlanDocument) :
    (givenChunks embed document).map (·.chunkId) = document.chunkIds := by
  simp [givenChunks, PlanDocument.chunkIds, Function.comp_def]

/-- Both loops replace the same chunks. -/
theorem Twin.chunkIdsOf (h : Twin P policy embed start plan done batch folded)
    (hnew : document.documentId ∉ done.map (·.documentId)) :
    chunkIdsOf folded.index.documents document.documentId = chunkIdsOf batch.index.documents document.documentId := by
  rw [Engine.chunkIdsOf, Engine.chunkIdsOf, h.writtenDocuments, h.foldedDocuments, getElem?_putAll_of_notMem hnew,
    getElem?_putAll_of_notMem hnew]

/-- One turn of both loops. -/
theorem Twin.step (h : Twin P policy embed start plan done batch folded)
    (hnew : document.documentId ∉ done.map (·.documentId)) {resolved : Resolved}
    (hchunks : resolved.chunks = givenChunks embed document) :
    Twin P policy embed start plan (done ++ [document]) (batch.put P plan document resolved)
      (folded.put policy (embeddedDocument P plan document) (givenChunks embed document)) := by
  have hids := h.chunkIdsOf hnew
  have hrecordIds : (textRecord P document resolved.chunks).chunkIds =
      (refoldedRecord P policy embed plan document).chunkIds := by
    rw [hchunks]
    rfl
  have hputs : folded.index.Puts (folded.index.replaceDocument document.documentId
    (refoldedRecord P policy embed plan document)) := replaceDocument_puts
  constructor
  · simp only [TextBatch.put, putTextDocument, replaceDocument_documents, h.writtenDocuments, hchunks, putAll_concat]
  · simp only [FoldBatch.put, putFolded, replaceDocument_documents, h.foldedDocuments, putAll_concat]
    rfl
  · apply Std.ExtTreeMap.ext_getElem?
    intro chunkId
    have hfolded : (folded.put policy (embeddedDocument P plan document)
        (givenChunks embed document)).index.chunkOwnerById[chunkId]? =
          if chunkId ∈ (refoldedRecord P policy embed plan document).chunkIds then some document.documentId
          else if chunkId ∈ Engine.chunkIdsOf folded.index.documents document.documentId then none
          else folded.index.chunkOwnerById[chunkId]? :=
      replaceDocument_owner chunkId
    have hwr : (batch.put P plan document resolved).index.chunkOwnerById[chunkId]? =
        if chunkId ∈ (textRecord P document resolved.chunks).chunkIds then some document.documentId
        else if chunkId ∈ Engine.chunkIdsOf batch.index.documents document.documentId then none
        else batch.index.chunkOwnerById[chunkId]? :=
      replaceDocument_owner chunkId
    rw [hfolded, hwr, hids, h.owner, hrecordIds]
  · exact h.puts.trans ⟨hputs.bookkeeping, hputs.generation, hputs.rowState⟩
  · simp only [FoldBatch.put, TextBatch.put, h.removed]
    exact congrArg (fun old => batch.removedChunkIds ∪ old.toFinset) hids
  · simp only [FoldBatch.put, TextBatch.put, h.active, givenChunks_chunkIds]

/-- Every chunk of a planned document gets its given vector from the record. -/
theorem foldChunks_given (hnodup : (plannedChunkIds plan.documents).Nodup) (hdoc : document ∈ plan.documents) :
    foldChunks (recordVectors embed plan) existing document.chunkIds = .ok (givenChunks embed document) := by
  rw [foldChunks, mapM_eq_ok, PlanDocument.chunkIds, givenChunks, List.forall₂_map_left_iff,
    List.forall₂_map_right_iff, List.forall₂_same]
  intro chunk hchunk
  have hpair : (document, chunk) ∈ plannedPairs plan.documents := mem_plannedPairs.mpr ⟨hdoc, hchunk⟩
  have hvec : (recordVectors embed plan)[chunk.chunkId]? = _ :=
    getElem?_givenVectors hnodup (List.Sublist.refl _) hpair
  rw [if_pos hpair] at hvec
  simp only [hvec, Option.some_or]
  rfl

/-- Both loops run through all documents. -/
theorem Twin.run (reusable : ChunkVectors)
    (h : Twin P policy embed start plan done batch folded)
    (hloop : TextLoop ids start fresh existing done batch) (hfits : PlanFits ids start plan)
    (hplan : plan.documents = done ++ rest) (hembs : batch.newEmbeddings = eraseAll fresh (plannedChunkIds done))
    (hfound : ∀ document ∈ plan.documents, ∀ chunk ∈ document.chunks, fresh[chunk.chunkId]? = none →
      ∃ vector, existing[chunk.chunkId]? = some vector)
    (hrecs : ∀ document ∈ plan.documents, plannedRecords fresh existing document = givenChunks embed document) :
    ∃ lastBatch lastFolded, applyPlanDocuments P plan existing rest batch = (lastBatch, .ok ()) ∧
      foldDocuments policy (recordVectors embed plan) reusable
        (rest.map (embeddedDocument P plan)) folded = (lastFolded, .ok ()) ∧
      TextLoop ids start fresh existing plan.documents lastBatch ∧
      Twin P policy embed start plan plan.documents lastBatch lastFolded := by
  induction rest generalizing done batch folded with
  | nil =>
    rw [List.append_nil] at hplan
    exact ⟨batch, folded, rfl, rfl, hplan ▸ hloop, hplan ▸ h⟩
  | cons document rest ih =>
    have hdoc : document ∈ plan.documents := by simp [hplan]
    have hnext : plan.documents = done ++ [document] ++ rest := by simp [hplan]
    obtain ⟨hnotDone, hnodup, hnew⟩ := hfits.distinct.split hplan
    have hchunks : foldChunks (recordVectors embed plan) reusable
        (embeddedDocument P plan document).chunkIds = .ok (givenChunks embed document) :=
      foldChunks_given hfits.chunkIds hdoc
    have hstep : Twin P policy embed start plan (done ++ [document])
        (batch.put P plan document (resolvedAfter P fresh existing done document))
        (folded.put policy (embeddedDocument P plan document) (givenChunks embed document)) :=
      h.step hnotDone (hrecs document hdoc)
    rw [applyPlanDocuments, applyPlanDocument_eq hnodup hnew hembs (hfound document hdoc), List.map_cons,
      foldDocuments, hchunks]
    exact ih hstep (hloop.step hfits hplan) hnext rfl

section

variable (h : Twin P policy embed start plan done batch folded)

include h

/-- What both loops leave of a document. -/
theorem Twin.documents_cases (hnodup : (done.map (·.documentId)).Nodup) (documentId : String) :
    (∃ document ∈ done, document.documentId = documentId ∧
        batch.index.documents[documentId]? = some (writtenRecord P embed document) ∧
        folded.index.documents[documentId]? = some (refoldedRecord P policy embed plan document)) ∨
      (documentId ∉ done.map (·.documentId) ∧ batch.index.documents[documentId]? = start.documents[documentId]? ∧
        folded.index.documents[documentId]? = start.documents[documentId]?) := by
  rw [h.writtenDocuments, h.foldedDocuments]
  by_cases hdone : documentId ∈ done.map (·.documentId)
  · obtain ⟨document, hdoc, rfl⟩ := List.mem_map.mp hdone
    exact .inl ⟨document, hdoc, rfl, getElem?_putAll_of_mem hnodup hdoc, getElem?_putAll_of_mem hnodup hdoc⟩
  · exact .inr ⟨hdone, getElem?_putAll_of_notMem hdone, getElem?_putAll_of_notMem hdone⟩

/-- Both loops leave every document with the same chunks. -/
theorem Twin.chunks_eq (hnodup : (done.map (·.documentId)).Nodup) (documentId : String) :
    folded.index.documents[documentId]?.map (·.chunks) = batch.index.documents[documentId]?.map (·.chunks) := by
  rcases h.documents_cases hnodup documentId with ⟨document, -, rfl, hwr, hfolded⟩ | ⟨-, hwr, hfolded⟩
  · rw [hwr, hfolded]
    rfl
  · rw [hwr, hfolded]

/-- The fold strips no document of a chunk: a chunk that goes is in none. -/
theorem Twin.withoutChunks_eq (hloop : TextLoop ids start fresh existing done batch)
    (hnodup : (done.map (·.documentId)).Nodup) :
    withoutChunks folded.index.documents (folded.removedChunkIds \ folded.activeChunkIds) =
      folded.index.documents := by
  have hkept : ∀ (documentId : String) (record : DocumentRecord), folded.index.documents[documentId]? = some record →
      ∀ chunk ∈ record.chunks, chunk.chunkId ∉ folded.removedChunkIds \ folded.activeChunkIds := by
    intro documentId record hrec chunk hchunk hgone
    have hchunks := h.chunks_eq hnodup documentId
    rw [hrec, Option.map_some, eq_comm, Option.map_eq_some_iff] at hchunks
    obtain ⟨written, hwr, hsame⟩ := hchunks
    have howned := mem_ownedChunks.mpr ⟨documentId, written, hwr, List.mem_map_of_mem (hsame ▸ hchunk)⟩
    rw [hloop.rows, ← h.removed, ← h.active] at howned
    simp only [Finset.mem_union, Finset.mem_sdiff] at howned hgone
    tauto
  unfold withoutChunks
  split
  · rfl
  · apply Std.ExtTreeMap.ext_getElem?
    intro documentId
    rw [getElem?_collect]
    cases hrec : folded.index.documents[documentId]? with
    | none => rfl
    | some record =>
      have hfilter :=
        List.filter_eq_self.mpr fun chunk hchunk => decide_eq_true (hkept documentId record hrec chunk hchunk)
      rw [Option.bind_some, hfilter]

end

end Loops

/-! ### The live rows -/

/-- The rows of chunks under a calibration. -/
def encodedRows (P : Primitives) (calibration : Calibration) (chunks : List CoreVectorChunk) :
    List (UInt64 × EncodedRow) :=
  chunks.map fun chunk => (stableUint64ForText P chunk.chunkId, P.encodeVector calibration chunk.embedding)

/-- Upserting into a calibrated index writes the rows under its calibration. -/
theorem upsertChunks_calibrated (hcal : live.index.calibration = some calibration)
    (hstable : StableOn P ids) (hchunks : ∀ c ∈ chunks.map (·.chunkId), c ∈ ids)
    (hnodup : (chunks.map (·.chunkId)).Nodup) (haccepted : ∀ chunk ∈ chunks, Accepted live.dim chunk.embedding) :
    ∃ upserted, live.upsertChunks P chunks = .ok upserted ∧
      upserted.index.rows = writeAll live.index.rows (encodedRows P calibration chunks) := by
  rw [TurboVecNativeIndex.upsertChunks]
  by_cases hnone : chunks = []
  · exact ⟨live, by rw [if_pos hnone]; rfl, by rw [hnone]; rfl⟩
  have hents : rowEntries P chunks ≠ [] := by simpa [rowEntries] using hnone
  have hencoded : (rowEntries P chunks).map (fun entry => (entry.1, P.encodeVector calibration entry.2)) =
      encodedRows P calibration chunks := by
    simp [rowEntries, encodedRows, Function.comp_def]
  have hups : ∃ index, live.index.upsertWithIds P (rowEntries P chunks) = .ok index ∧
      index.rows = writeAll live.index.rows (encodedRows P calibration chunks) := by
    have hchk := checkBatch_accepted hstable hchunks hnodup haccepted
    rw [IdMapIndex.upsertWithIds, hcal, ← hencoded]
    split
    · rename_i hempty
      have hfresh : ((rowEntries P chunks).any fun entry => live.index.rows.contains entry.1) = false := by
        simp [Std.ExtTreeMap.isEmpty_iff.mp hempty]
      rw [IdMapIndex.addWithIds, hfresh, if_neg Bool.false_ne_true, hchk, ok_bind, if_neg hents, hcal]
      exact ⟨_, rfl, rfl⟩
    · rw [hchk]
      exact ⟨_, rfl, rfl⟩
  obtain ⟨index, hindex, hrows⟩ := hups
  rw [if_neg hnone, checkDim_accepted haccepted, ok_bind]
  simp only [zip_stableIds hstable hchunks hnodup]
  rw [← rowEntries, hindex]
  exact ⟨_, rfl, hrows⟩

theorem removeMany_calibration (index : IdMapIndex) (stableIds : List UInt64) :
    (index.removeMany stableIds).1.calibration = index.calibration := by
  induction stableIds generalizing index with
  | nil => rfl
  | cons stableId rest ih =>
    unfold IdMapIndex.removeMany
    split
    · exact ih _
    · exact ih _

theorem removeChunks_calibration (live : TurboVecNativeIndex) (chunkIds : List String) :
    (live.removeChunks chunkIds).index.calibration = live.index.calibration := by
  simp only [TurboVecNativeIndex.removeChunks, TurboVecNativeIndex.foldl_detach_index, removeMany_calibration]

/-- The rows a fold upserts are the vectors of its record whose chunk has an owner. -/
theorem mem_foldedRows {added : ChunkVectors} :
    chunk ∈ foldedRows index added ↔
      added[chunk.chunkId]? = some chunk.embedding ∧ index.chunkOwnerById[chunk.chunkId]? = some chunk.documentId := by
  simp only [foldedRows, List.mem_filterMap, Prod.exists, Std.ExtTreeMap.mem_toList_iff_getElem?_eq_some,
    Option.map_eq_some_iff]
  constructor
  · rintro ⟨chunkId, embedding, hvec, owner, howner, rfl⟩
    exact ⟨hvec, howner⟩
  · rintro ⟨hvec, howner⟩
    exact ⟨chunk.chunkId, chunk.embedding, hvec, chunk.documentId, howner, rfl⟩

theorem foldedRows_nodup (index : VectorOnlyIndex) (added : ChunkVectors) :
    ((foldedRows index added).map (·.chunkId)).Nodup := by
  refine nodup_map_filterMap_toList added ?_
  intro entry row hrow
  obtain ⟨_, -, rfl⟩ := Option.map_eq_some_iff.mp hrow
  rfl

/-- The chunk row of a planned chunk with its given vector. -/
def givenRow (embed : Embedder) (pair : PlanDocument × PlanDocumentChunk) : CoreVectorChunk :=
  ⟨pair.2.chunkId, pair.1.documentId, givenVector embed pair⟩

/-- The writer's loop over a whole plan, with the vectors an embedder gives. -/
abbrev WriterLoop (ids : Set String) (embed : Embedder) (start : VectorOnlyIndex) (plan : IngestPlan)
    (batch : TextBatch) : Prop :=
  TextLoop ids start (freshVectors embed plan) (reusedVectors embed start plan) plan.documents batch

/-- The live index is brought up to date after both loops, with the same rows. -/
abbrev SyncsAlike (P : Primitives) (embed : Embedder) (plan : IngestPlan) (removed : List String)
    (batch : TextBatch) (folded : FoldBatch) : Prop :=
  ∃ written synced,
    (batch.index.syncVectorIndexRemove removed).syncVectorIndexUpsert P batch.addedVectorChunks = .ok written ∧
    (folded.index.syncVectorIndexRemove removed).syncVectorIndexUpsert P
      (foldedRows folded.index (recordVectors embed plan)) = .ok synced ∧
    written.documents = batch.index.documents ∧ synced.documents = folded.index.documents ∧
    synced.vectorIndex.map (·.index.rows) = written.vectorIndex.map (·.index.rows)

section Rows

variable {batch : TextBatch} {folded : FoldBatch}

/-- What bringing a live index up to date leaves. -/
theorem syncVectorIndexUpsert_of_live {upserted : TurboVecNativeIndex} (hlive : index.vectorIndex = some live)
    (hups : live.upsertChunks P chunks = .ok upserted) :
    index.syncVectorIndexUpsert P chunks =
      .ok (index.recordReadded P upserted (live.stableIdsForChunks (chunks.map (·.chunkId))) chunks) := by
  rw [VectorOnlyIndex.syncVectorIndexUpsert, hlive]
  simp only [hups, ok_bind, pure, Except.pure]

variable (hfits : PlanFits ids start plan) (hembed : plan.chunksToEmbed = chunksToEmbed plan.documents)
  (hloop : WriterLoop ids embed start plan batch) (h : Twin P policy embed start plan plan.documents batch folded)

include hfits in
theorem PlanFits.pair_within (hpair : pair ∈ plannedPairs plan.documents) : pair.2.chunkId ∈ ids :=
  hfits.within pair.1 (mem_plannedPairs.mp hpair).1 _ (List.mem_map_of_mem (mem_plannedPairs.mp hpair).2)

include hfits hembed hloop in
/-- The rows the writer upserts are those of the chunks it embeds. -/
theorem WriterLoop.added_eq :
    batch.addedVectorChunks = ((plannedPairs plan.documents).filter (·.2.needsEmbedding)).map (givenRow embed) := by
  have hfresh : ∀ pair ∈ plannedPairs plan.documents, (freshVectors embed plan)[pair.2.chunkId]? =
        if pair.2.needsEmbedding then some (givenVector embed pair) else none :=
    fun pair => getElem?_freshVectors hembed hfits.chunkIds
  rw [hloop.added, plannedPairs, List.filter_flatMap, List.map_flatMap]
  refine List.flatMap_congr fun document hdoc => ?_
  have hpair : ∀ chunk ∈ document.chunks, (document, chunk) ∈ plannedPairs plan.documents :=
    fun chunk hchunk => mem_plannedPairs.mpr ⟨hdoc, hchunk⟩
  have hneeds : document.chunks.filter (fun chunk =>
      (freshVectors embed plan).contains chunk.chunkId) = document.chunks.filter (·.needsEmbedding) := by
    refine List.filter_congr fun chunk hchunk => ?_
    rw [Std.ExtTreeMap.contains_eq_isSome_getElem?, hfresh _ (hpair chunk hchunk)]
    cases chunk.needsEmbedding <;> rfl
  rw [embeddedChunks, hneeds, List.filter_map, List.map_map]
  refine List.map_congr_left fun chunk hchunk => ?_
  obtain ⟨hchunk, hneeded⟩ := List.mem_filter.mp hchunk
  rw [vectorFor, hfresh _ (hpair chunk hchunk), if_pos hneeded, Option.some_or, Option.getD_some]
  rfl

include hfits hloop h in
/-- The rows the fold upserts are those of all planned chunks. -/
theorem Twin.mem_foldedRows : chunk ∈ foldedRows folded.index (recordVectors embed plan) ↔
      ∃ pair ∈ plannedPairs plan.documents, chunk = givenRow embed pair := by
  have howner : ∀ pair ∈ plannedPairs plan.documents,
      folded.index.chunkOwnerById[pair.2.chunkId]? = some pair.1.documentId := by
    intro pair hpair
    obtain ⟨hdoc, hplanned⟩ := mem_plannedPairs.mp hpair
    rw [h.owner]
    refine (hloop.indexed.owner _ _).mpr ?_
    rcases h.documents_cases hfits.documentIds pair.1.documentId with ⟨document, hmem, hid, hwr, -⟩ | ⟨hnot, -⟩
    · obtain rfl : document = pair.1 := List.inj_on_of_nodup_map hfits.documentIds hmem hdoc hid
      refine ⟨_, hwr, ?_⟩
      have hids : (writtenRecord P embed pair.1).chunkIds = pair.1.chunkIds := givenChunks_chunkIds pair.1
      rw [hids]
      exact List.mem_map_of_mem hplanned
    · exact absurd (List.mem_map_of_mem hdoc) hnot
  rw [Engine.mem_foldedRows]
  constructor
  · rintro ⟨hfound, hfoundOwner⟩
    rcases mem_or_of_getElem?_writeAll hfound with hmem | hempty
    · obtain ⟨pair, hpair, heq⟩ := List.mem_map.mp hmem
      simp only [Prod.mk.injEq] at heq
      have hsame := howner pair hpair
      rw [heq.1, hfoundOwner] at hsame
      refine ⟨pair, hpair, ?_⟩
      rw [givenRow, heq.1, heq.2, ← Option.some.inj hsame]
    · simp at hempty
  · rintro ⟨pair, hpair, rfl⟩
    refine ⟨?_, howner pair hpair⟩
    exact (getElem?_givenVectors hfits.chunkIds (List.Sublist.refl _) hpair).trans (if_pos hpair)

include hfits hembed hloop h in
/-- Upserting all planned chunks writes what upserting the embedded ones does, where the others have their
rows. -/
theorem Twin.rows_eq (hstable : StableOn P ids) {base : Std.ExtTreeMap UInt64 EncodedRow compare}
    (hbase : ∀ pair ∈ plannedPairs plan.documents, pair.2.needsEmbedding = false →
      base[stableUint64ForText P pair.2.chunkId]? = some (P.encodeVector calibration (givenVector embed pair))) :
    writeAll base (encodedRows P calibration (foldedRows folded.index (recordVectors embed plan))) =
      writeAll base (encodedRows P calibration batch.addedVectorChunks) := by
  have hadded : encodedRows P calibration batch.addedVectorChunks =
      ((plannedPairs plan.documents).filter (·.2.needsEmbedding)).map fun pair =>
        (stableUint64ForText P pair.2.chunkId, P.encodeVector calibration (givenVector embed pair)) := by
    rw [encodedRows, WriterLoop.added_eq hfits hembed hloop, List.map_map]
    rfl
  have hkeys : ((encodedRows P calibration batch.addedVectorChunks).map Prod.fst).Nodup := by
    have hnodup : ((plannedPairs plan.documents).map fun pair => pair.2.chunkId).Nodup :=
      (plannedPairs_chunkIds plan.documents).symm ▸ hfits.chunkIds
    have hdist := hnodup.of_map.filter (·.2.needsEmbedding)
    rw [hadded, List.map_map]
    refine hdist.map_on fun left hleft right hright heq => ?_
    obtain ⟨hleft, -⟩ := List.mem_filter.mp hleft
    obtain ⟨hright, -⟩ := List.mem_filter.mp hright
    exact eq_of_chunkId hfits.chunkIds hleft hright
      (hstable.injOn _ (hfits.pair_within hleft) _ (hfits.pair_within hright) heq)
  change writeAll (eraseAll base []) _ = _
  refine writeAll_eraseAll_eq ?_ (by simp) ?_
  · intro entry hentry
    obtain ⟨chunk, hchunk, rfl⟩ := List.mem_map.mp hentry
    obtain ⟨pair, hpair, rfl⟩ := (Twin.mem_foldedRows hfits hloop h).mp hchunk
    cases hneeds : pair.2.needsEmbedding with
    | true =>
      refine getElem?_writeAll_of_mem _ _ hkeys (hadded ▸ ?_)
      exact List.mem_map_of_mem (List.mem_filter.mpr ⟨hpair, hneeds⟩)
    | false =>
      rw [getElem?_writeAll_of_notMem]
      · exact hbase pair hpair hneeds
      · intro hmem
        rw [hadded, List.map_map] at hmem
        obtain ⟨embedded, hembd, hid⟩ := List.mem_map.mp hmem
        obtain ⟨hembd, hneedsOther⟩ := List.mem_filter.mp hembd
        have hsame := hstable.injOn _ (hfits.pair_within hembd) _ (hfits.pair_within hpair) hid
        rw [eq_of_chunkId hfits.chunkIds hembd hpair hsame, hneeds] at hneedsOther
        cases hneedsOther
  · intro key hdiffers
    left
    by_contra hnot
    refine hdiffers (getElem?_writeAll_of_notMem _ _ _ fun hmem => hnot ?_).symm
    rw [hadded, List.map_map] at hmem
    obtain ⟨pair, hpair, rfl⟩ := List.mem_map.mp hmem
    exact List.mem_map_of_mem (List.mem_map_of_mem
      ((Twin.mem_foldedRows hfits hloop h).mpr ⟨pair, (List.mem_filter.mp hpair).1, rfl⟩))

/-- Both indexes list the same chunks. -/
theorem Twin.vectorChunks_eq {done : List PlanDocument} (h : Twin P policy embed start plan done batch folded)
    (hnodup : (done.map (·.documentId)).Nodup) : folded.index.vectorChunks = batch.index.vectorChunks := by
  have hmaps : folded.index.documents.map (fun _ record => record.chunks) =
      batch.index.documents.map fun _ record => record.chunks := by
    apply Std.ExtTreeMap.ext_getElem?
    intro documentId
    rw [Std.ExtTreeMap.getElem?_map, Std.ExtTreeMap.getElem?_map]
    exact h.chunks_eq hnodup documentId
  have hlists := congrArg (fun map => map.toList.flatMap fun entry =>
    entry.2.map fun chunk => (⟨chunk.chunkId, entry.1, chunk.vector⟩ : CoreVectorChunk)) hmaps
  simp only [Std.ExtTreeMap.toList_map, List.flatMap_map] at hlists
  exact hlists

include hfits hloop h in
/-- Without a live index both sides build one from the same chunks. -/
theorem Twin.sync_unbuilt (hnone : start.vectorIndex = none) (hres : start.vectorsResident = true)
    {written : VectorOnlyIndex}
    (hwr : (batch.index.syncVectorIndexRemove removed).syncVectorIndexUpsert P batch.addedVectorChunks =
      .ok written) : SyncsAlike P embed plan removed batch folded := by
  have hwrittenLive : (batch.index.syncVectorIndexRemove removed).vectorIndex = none := by
    rw [batch.index.syncVectorIndexRemove_vectorIndex, hloop.puts.vectorIndex, hnone, Option.map_none]
  have hfoldedLive : (folded.index.syncVectorIndexRemove removed).vectorIndex = none := by
    rw [folded.index.syncVectorIndexRemove_vectorIndex, h.puts.vectorIndex, hnone, Option.map_none]
  have hbook := (folded.index.syncVectorIndexRemove_bookkeeping removed).trans h.puts.bookkeeping
  have hfoldedResident : (folded.index.syncVectorIndexRemove removed).vectorsResident = true :=
    (congrArg VectorOnlyIndex.Bookkeeping.vectorsResident hbook).trans hres
  have hchunks : (folded.index.syncVectorIndexRemove removed).vectorChunks =
      (batch.index.syncVectorIndexRemove removed).vectorChunks := by
    rw [folded.index.syncVectorIndexRemove_vectorChunks, batch.index.syncVectorIndexRemove_vectorChunks,
      h.vectorChunks_eq hfits.documentIds]
  have hdim : (folded.index.syncVectorIndexRemove removed).vectorDim =
      (batch.index.syncVectorIndexRemove removed).vectorDim := by
    rw [folded.index.syncVectorIndexRemove_vectorDim, batch.index.syncVectorIndexRemove_vectorDim, h.puts.vectorDim,
      hloop.puts.vectorDim]
  have hsync := hwr
  rw [VectorOnlyIndex.syncVectorIndexUpsert, hwrittenLive] at hsync
  simp only [bind_eq_ok, pure, Except.pure, Except.ok.injEq] at hsync
  obtain ⟨_, -, built, hbuilt, rfl⟩ := hsync
  refine ⟨_, (folded.index.syncVectorIndexRemove removed).recordReadded P built []
    (foldedRows folded.index (recordVectors embed plan)), hwr, ?_,
    batch.index.syncVectorIndexRemove_documents _, folded.index.syncVectorIndexRemove_documents _, rfl⟩
  rw [VectorOnlyIndex.syncVectorIndexUpsert, hfoldedLive]
  simp only [VectorOnlyIndex.requireVectorsResident, hfoldedResident, if_true, hchunks, hdim, hbuilt,
    ok_bind, pure, Except.pure]

variable (hstart : Consistent P ids start) (hstable : StableOn P ids) (hreuses : ReusesGiven P embed start plan)

include hfits hstart hstable hreuses in
/-- The row of a reused chunk outlives the removals: the chunk is active. -/
theorem ReusesGiven.row_removed (hlive : start.vectorIndex = some live)
    (hcal : live.index.calibration = some calibration)
    (hrem : ∀ chunkId ∈ removed, chunkId ∉ plannedChunkIds plan.documents)
    (hpair : pair ∈ plannedPairs plan.documents) (hneeds : pair.2.needsEmbedding = false) :
    (live.removeChunks removed).index.rows[stableUint64ForText P pair.2.chunkId]? =
      some (P.encodeVector calibration (givenVector embed pair)) := by
  rw [removeChunks_rows, getElem?_eraseAll, if_neg]
  · exact hreuses.row live calibration hlive hcal pair hpair hneeds
  · intro hmem
    obtain ⟨chunkId, hgone, howned, hid⟩ := ((hstart.built live hlive).1.mem_stableIdsForChunks removed _).mp hmem
    have hsame := hstable.injOn chunkId (hstart.within chunkId howned) _ (hfits.pair_within hpair) hid.symm
    refine hrem chunkId hgone ?_
    rw [hsame, ← plannedPairs_chunkIds]
    exact List.mem_map_of_mem hpair

variable (haccepted : ∀ chunk, Accepted start.vectorDim (embed chunk))

include hfits hembed hloop h hstart hstable hreuses haccepted

/-- Into a live index the fold also writes the reused rows, as they are. -/
theorem Twin.sync_built (hlive : start.vectorIndex = some live)
    (hrem : ∀ chunkId ∈ removed, chunkId ∉ plannedChunkIds plan.documents) :
    SyncsAlike P embed plan removed batch folded := by
  obtain ⟨calibration, hcal⟩ := hreuses.calibrated live hlive
  have hwrittenLive : (batch.index.syncVectorIndexRemove removed).vectorIndex = some (live.removeChunks removed) := by
    rw [batch.index.syncVectorIndexRemove_vectorIndex, hloop.puts.vectorIndex, hlive, Option.map_some]
  have hfoldedLive : (folded.index.syncVectorIndexRemove removed).vectorIndex = some (live.removeChunks removed) := by
    rw [folded.index.syncVectorIndexRemove_vectorIndex, h.puts.vectorIndex, hlive, Option.map_some]
  have hremovedCalibration : (live.removeChunks removed).index.calibration = some calibration := by
    rw [removeChunks_calibration, hcal]
  have hadded : ∀ chunk ∈ batch.addedVectorChunks, ∃ pair ∈ plannedPairs plan.documents, chunk = givenRow embed pair := by
    intro chunk hchunk
    rw [WriterLoop.added_eq hfits hembed hloop] at hchunk
    obtain ⟨pair, hpair, rfl⟩ := List.mem_map.mp hchunk
    exact ⟨pair, (List.mem_filter.mp hpair).1, rfl⟩
  have hupserts : ∀ rows : List CoreVectorChunk,
      (∀ chunk ∈ rows, ∃ pair ∈ plannedPairs plan.documents, chunk = givenRow embed pair) →
      (rows.map (·.chunkId)).Nodup → ∃ upserted, (live.removeChunks removed).upsertChunks P rows = .ok upserted ∧
        upserted.index.rows = writeAll (live.removeChunks removed).index.rows (encodedRows P calibration rows) := by
    intro rows hrows hnodup
    refine upsertChunks_calibrated hremovedCalibration hstable ?_ hnodup ?_
    · intro chunkId hchunk
      obtain ⟨chunk, hmem, rfl⟩ := List.mem_map.mp hchunk
      obtain ⟨pair, hpair, rfl⟩ := hrows chunk hmem
      exact hfits.pair_within hpair
    · intro chunk hmem
      obtain ⟨pair, -, rfl⟩ := hrows chunk hmem
      rw [live.removeChunks_dim, (hstart.built live hlive).2]
      exact haccepted _
  have haddedNodup : (batch.addedVectorChunks.map (·.chunkId)).Nodup := by
    rw [hloop.added_chunkIds]
    exact hfits.chunkIds.filter _
  obtain ⟨upserted, hups, hrows⟩ := hupserts _ hadded haddedNodup
  obtain ⟨refolded, hrefolded, hfoldedRows⟩ :=
    hupserts _ (fun chunk hchunk => (Twin.mem_foldedRows hfits hloop h).mp hchunk) (foldedRows_nodup _ _)
  refine ⟨_, _, syncVectorIndexUpsert_of_live hwrittenLive hups, syncVectorIndexUpsert_of_live hfoldedLive hrefolded,
    batch.index.syncVectorIndexRemove_documents _, folded.index.syncVectorIndexRemove_documents _, ?_⟩
  simp only [VectorOnlyIndex.recordReadded, Option.map_some, hrows, hfoldedRows,
    Twin.rows_eq hfits hembed hloop h hstable fun pair =>
      hreuses.row_removed hfits hstart hstable hlive hcal hrem]

/-- Bringing the live index up to date leaves the same rows on both sides. -/
theorem Twin.sync (hplan : PlanReuses start plan) (hgen : start.generation = plan.baseGeneration) :
    SyncsAlike P embed plan (SortedSet.ascending (batch.removedChunkIds \ batch.activeChunkIds)) batch folded := by
  cases hlive : start.vectorIndex with
  | none =>
    have hgiven : ∀ embedding ∈ plan.chunksToEmbed.map embed, Accepted start.vectorDim embedding := by
      intro embedding hemb
      obtain ⟨chunk, -, rfl⟩ := List.mem_map.mp hemb
      exact haccepted chunk
    obtain ⟨written, hwr, -, -⟩ := TextLoop.sync hstart hfits hplan hgen (List.length_map _) hstable hgiven hloop
    exact Twin.sync_unbuilt hfits hloop h hlive hstart.resident hwr
  | some live =>
    refine Twin.sync_built hfits hembed hloop h hstart hstable hreuses haccepted hlive ?_
    intro chunkId hgone
    rw [SortedSet.mem_ascending, Finset.mem_sdiff, hloop.active, List.mem_toFinset] at hgone
    exact hgone.2

end Rows

/-! ### The whole record -/

/-- What a plan prepared under a policy keeps of texts and tokens. -/
theorem prepareTextUpsert_retains {documents : List CoreDocument}
    (hplan : prepareTextUpsert P start documents policy chunkCharacterLimit = .ok plan) :
    plan.storeText = policy.storeText ∧ plan.indexText = policy.indexText ∧
      plan.documents.map (·.documentId) = documents.map (·.documentId) ∧
      ∀ document ∈ plan.documents, (document.text.isSome = policy.storeText) ∧ ∀ chunk ∈ document.chunks,
          chunk.tokens = if policy.indexText || policy.storeText then tokenize P chunk.text else [] := by
  obtain ⟨prepared, hprep, rfl⟩ := prepareTextUpsert_eq_ok hplan
  clear hplan
  refine ⟨rfl, rfl, ?_, ?_⟩
  · rw [mapM_eq_ok] at hprep
    induction hprep with
    | nil => rfl
    | cons hplanned _ ih =>
      obtain ⟨_, rfl⟩ := planDocument_eq_ok hplanned
      exact congrArg (List.cons _) ih
  · intro document hdoc
    obtain ⟨source, -, hsource⟩ := exists_of_mem_mapM hprep hdoc
    obtain ⟨pieces, rfl⟩ := planDocument_eq_ok hsource
    refine ⟨?_, fun chunk hchunk => (plannedFor_of_mem hchunk).tokens⟩
    cases policy.storeText <;> rfl

/-- What a fold leaves of a writer's record: without any text policy, no token list. -/
def keptByFold (policy : TextPolicy) (documentIds : List String) (documentId : String) (record : DocumentRecord) :
    DocumentRecord :=
  if policy.indexText || policy.storeText || decide (documentId ∉ documentIds) then record
  else { record with tokenLists := [] }

/-- The record a fold puts for a planned document. -/
theorem foldRecord_eq {documentIds : List String} {document : PlanDocument} (hid : document.documentId ∈ documentIds)
    (hstore : plan.storeText = policy.storeText) (hindex : plan.indexText = policy.indexText)
    (htext : document.text.isSome = policy.storeText) (htoks : ∀ chunk ∈ document.chunks,
      chunk.tokens = if policy.indexText || policy.storeText then tokenize P chunk.text else [])
    (chunks : List ChunkRecord) :
    foldRecord policy (embeddedDocument P plan document) chunks =
      keptByFold policy documentIds document.documentId (textRecord P document chunks) := by
  have hretn : (if policy.storeText then document.text else none) = document.text := by
    cases hsto : policy.storeText with
    | true => rfl
    | false =>
      rw [hsto, Option.isSome_eq_false_iff, Option.isNone_iff_eq_none] at htext
      rw [htext]
      rfl
  have hfolded : foldText policy (embeddedDocument P plan document) = document.text := by
    simp only [foldText, retainedText, embeddedDocument, hstore, hretn]
  have hhash : (embeddedDocument P plan document).contentHash = (textRecord P document chunks).contentHash := by
    simp only [embeddedDocument, hstore, hretn, textRecord]
  have hlists : policy.indexText || policy.storeText →
      (embeddedDocument P plan document).tokens = (textRecord P document chunks).tokenLists := by
    intro hkept
    refine List.map_congr_left fun chunk hchunk => ?_
    rw [htoks chunk hchunk, if_pos hkept, hstore, hindex, Bool.or_comm, if_pos hkept]
  by_cases hkept : (policy.indexText || policy.storeText) = true
  · have htokensKept : foldTokens policy (embeddedDocument P plan document) =
        (textRecord P document chunks).tokenLists := by
      rw [foldTokens, hfolded, htext, if_pos hkept, hlists hkept]
    rw [keptByFold, hkept, Bool.true_or, if_pos rfl, foldRecord, hhash, hfolded, htokensKept]
    rfl
  · have htokensDropped : foldTokens policy (embeddedDocument P plan document) = [] := by
      rw [foldTokens, hfolded, htext, if_neg hkept]
    rw [keptByFold, if_neg (by simpa [hid] using hkept), foldRecord, hhash, hfolded, htokensDropped]
    rfl

/-- A record with accepted vectors passes the checks of a fold. -/
theorem checkEmbedded_recordAdds (hseeded : start.vectorsSeeded = true)
    (hids : (plan.documents.map (·.documentId)).Nodup) (haccepted : ∀ chunk, Accepted start.vectorDim (embed chunk)) :
    checkEmbedded start (plan.documents.map (embeddedDocument P plan)) (recordAdds P embed plan.documents) =
      .ok (recordVectors embed plan) := by
  have hmutable : start.requireVectorsMutable = .ok () := by
    rw [VectorOnlyIndex.requireVectorsMutable, hseeded, if_pos rfl]
  have hdims : (recordAdds P embed plan.documents).forM (fun chunk =>
      ensure (chunk.embedding.length = start.vectorDim)
        (invalid "WAL added chunk embedding dimension does not match index")) = .ok () := by
    apply forM_eq_ok.mpr
    intro chunk hchunk
    obtain ⟨pair, -, rfl⟩ := List.mem_map.mp hchunk
    exact ensure_of (haccepted _).1
  have hvecs : foldVectors start.vectorDim (recordAdds P embed plan.documents) = .ok (recordVectors embed plan) := by
    simp only [foldVectors, hdims, ok_bind, pure, Except.pure]
    simp only [recordAdds, List.map_map, givenVectors]
    rfl
  have hdist : ((plan.documents.map (embeddedDocument P plan)).map WalEmbeddedDocument.documentId).Nodup := by
    rw [List.map_map]
    exact hids
  simp only [checkEmbedded, hmutable, hvecs, ensure_of hdist, ok_bind, pure, Except.pure]

section Ways

variable (P : Primitives) (embed : Embedder) (start : VectorOnlyIndex) (appender : CoreAppender)

/-- What a writer leaves that prepares and applies documents. -/
def upserted (documents : List CoreDocument) : Except CoreError VectorOnlyIndex := do
  let plan ← prepareTextUpsert P start documents appender.policy appender.chunkCharacterLimit
  let outcome := applyTextUpsert P start plan (plan.chunksToEmbed.map embed)
  outcome.returned.map fun _ => outcome.index

/-- What a fold leaves of the stamped record an appender makes of documents. -/
def refolded (lsn : ℕ) (documents : List CoreDocument) : Except CoreError VectorOnlyIndex := do
  let plan ← appender.prepareDocuments P documents
  let op ← appender.embeddedDocuments P plan (plan.chunksToEmbed.map embed)
  let outcome := applyWalRecords P appender.policy start [⟨some lsn, op⟩]
  outcome.2.map fun _ => outcome.1

/-- Both ways succeed, with the same live rows and the same documents, up to what the fold keeps of each. -/
def FoldsAlike (lsn : ℕ) (documents : List CoreDocument) (kept : String → DocumentRecord → DocumentRecord) : Prop :=
  ∃ written folded, upserted P embed start appender documents = .ok written ∧
    refolded P embed start appender lsn documents = .ok folded ∧
    (∀ documentId : String, folded.documents[documentId]? = written.documents[documentId]?.map (kept documentId)) ∧
    folded.vectorIndex.map (·.index.rows) = written.vectorIndex.map (·.index.rows)

variable {P embed start appender} {lsn : ℕ} {documents : List CoreDocument} {op : WalOp} {count : ℕ}

/-- The writer's way, from its steps. -/
theorem upserted_eq_ok {mutated : Mutated}
    (hplan : prepareTextUpsert P start documents appender.policy appender.chunkCharacterLimit = .ok plan)
    (happlied : applyTextUpsert P start plan (plan.chunksToEmbed.map embed) = ⟨index, .ok mutated⟩) :
    upserted P embed start appender documents = .ok index := by
  simp only [upserted, hplan, happlied, ok_bind]
  rfl

/-- The appender's way, from its steps. -/
theorem refolded_eq_ok (hplan : appender.prepareDocuments P documents = .ok plan)
    (hop : appender.embeddedDocuments P plan (plan.chunksToEmbed.map embed) = .ok op)
    (hfold : applyWalRecords P appender.policy start [⟨some lsn, op⟩] = (index, .ok count)) :
    refolded P embed start appender lsn documents = .ok index := by
  simp only [refolded, hplan, hop, hfold, ok_bind]
  rfl

/-- An appender plans the documents its own way and builds its record from the plan. -/
theorem appended_marked
    (hplan : prepareTextUpsert P start documents appender.policy appender.chunkCharacterLimit = .ok plan)
    (hsome : documents ≠ []) (hids : (documents.map (·.documentId)).Nodup) (hplanSome : plan.documents ≠ [])
    (hnodup : (plannedChunkIds plan.documents).Nodup) (haccepted : ∀ chunk, Accepted appender.vectorDim (embed chunk)) :
    appender.prepareDocuments P documents = .ok (markedPlan plan) ∧
      appender.embeddedDocuments P (markedPlan plan) ((markedPlan plan).chunksToEmbed.map embed) =
        .ok (.applyEmbeddedDocuments (plan.documents.map (embeddedDocument P plan)) (recordAdds P embed plan.documents)
          []) := by
  obtain ⟨hstore, hindex, hplanIds, -⟩ := prepareTextUpsert_retains hplan
  have hmarked : (markedPlan plan).documents ≠ [] := by simpa [markedPlan] using hplanSome
  constructor
  · rw [CoreAppender.prepareDocuments, ensure_of hsome, ok_bind, planDocuments_marked hplan hsome hids]
  · rw [CoreAppender.embeddedDocuments, ensure_of hmarked, ok_bind, ensure_of ⟨hstore, hindex⟩, ok_bind]
    exact buildEmbeddedDocumentsPayload_marked hplanSome (hplanIds ▸ hids) hnodup haccepted

/-- A record stamped above the watermark is replayed; watermark and generation follow. -/
theorem applyWalRecords_single (hlsn : start.appliedLsn < lsn)
    (happlied : applyNativeWalRecord P policy start op = (index, .ok ())) :
    ∃ appliedLsn generation, applyWalRecords P policy start [⟨some lsn, op⟩] =
      ({ index with appliedLsn := appliedLsn, generation := generation }, .ok 1) := by
  simp only [applyWalRecords, checkStamps, Option.any_none, Bool.false_eq_true, if_false, List.filter_cons,
    Option.any_some, hlsn, decide_true, if_true, List.filter_nil, reduceCtorEq, applyReplayRecords, replayRecords,
    happlied]
  exact ⟨_, _, rfl⟩

end Ways

/-- The plan of two letters. -/
def firstLetters : IngestPlan := lettersPlan 0 [("xy", [letterChunk "78" "x", letterChunk "79" "y"])]

/-- The plan that keeps the first letter and replaces the second. -/
def nextLetters : IngestPlan := lettersPlan 1 [("xz", [letterChunk "78" "x" false, letterChunk "7a" "z"])]

/-- An index that holds the two letters, with zero vectors. -/
def lettersIndex : VectorOnlyIndex :=
  (applyTextUpsert .sample (.new 8 none) firstLetters [List.replicate 8 0, List.replicate 8 0]).index

/-- The token lists, the chunks and the live rows of what one way leaves. -/
def compared : Except CoreError VectorOnlyIndex →
    List (List (List String) × List ChunkRecord) × List (UInt64 × EncodedRow)
  | .ok index => (index.documents.toList.map fun entry => (entry.2.tokenLists, entry.2.chunks), index.liveRows.toList)
  | .error _ => ([], [])

/-- Both ways leave the same if the fold keeps all of each document. -/
theorem FoldsAlike.compared_eq {appender : CoreAppender} {lsn : ℕ} {documents : List CoreDocument}
    (h : FoldsAlike P embed start appender lsn documents fun _ => id) :
    compared (refolded P embed start appender lsn documents) = compared (upserted P embed start appender documents) := by
  obtain ⟨written, folded, hwritten, hfolded, hdocuments, hrows⟩ := h
  have hsame : folded.documents = written.documents :=
    Std.ExtTreeMap.ext_getElem? fun {documentId} => by rw [hdocuments, Option.map_id, id]
  have hlive : folded.liveRows = written.liveRows := congrArg (Option.getD · ∅) hrows
  rw [hwritten, hfolded, compared, compared, hsame, hlive]

/-- A vector of eight coordinates by its first. -/
def vectorFrom (first : ℕ) : Embedding := UInt32.ofNat first :: List.replicate 7 0

/-- An embedder that goes by the length of the text. -/
def byLength (chunk : PlanEmbeddingChunk) : Embedding := vectorFrom chunk.text.length

/-- An embedder that goes by the last letter of the document. -/
def byDocument (chunk : PlanEmbeddingChunk) : Embedding := vectorFrom (chunk.documentId.toList.getLastD 'a').toNat

/-- Library functions that fit the calibration to the first vector. -/
def fitting : Primitives :=
  { Primitives.sample with
    fitCalibration := fun vectors => ⟨vectors.headD [], []⟩
    encodeVector := fun calibration _ => ⟨[], calibration.shift.headD 0⟩ }

/-- Library functions whose digests all start alike. -/
def colliding : Primitives :=
  { Primitives.sample with
    sha256Digest := fun bytes => Vector.ofFn fun position => if position.val < 8 then 1 else bytes.getD (position.val - 8) 0 }

/-- An index that holds one document. -/
def oneIndex : VectorOnlyIndex :=
  (upserted .sample byLength (.new 8 none) ⟨8, 900, ⟨true, true⟩⟩ [⟨"a", "x y", ∅⟩]).toOption.getD (.new 8 none)

/-- An index without documents whose live index is built. -/
def emptyLive (calibration : Option Calibration) : VectorOnlyIndex :=
  { VectorOnlyIndex.new 8 none with vectorIndex := some ⟨⟨∅, calibration⟩, ∅, ∅, ∅, 8⟩ }

end LodeDB.Engine
