import LodeDB.Engine.PlanMade
import LodeDB.Engine.Session

/-!
# A mutation lands or leaves the index alone

On a serviceable index the only step of a mutation that can still fail once documents have been put is a
text upsert's next document, at a chunk to embed that is listed twice. Every other mutation that fails has
failed its checks and left the index as it was.
-/

namespace LodeDB.Engine

open TreeMapRules

variable {P : Primitives} {policy : TextPolicy} {start : VectorOnlyIndex}

variable {done rest : List PlanDocument} {batch : TextBatch} {document : PlanDocument}
  {documents : List CoreVectorDocument} {vector : Embedding} {chunk : PlanDocumentChunk}

section Vector

/-- What the loop over vector documents keeps. -/
structure VectorService (start : VectorOnlyIndex) (done : ℕ) (batch : VectorBatch) : Prop extends
    VectorRun start batch where
  serviceable : Serviceable batch.index
  puts : start.Puts batch.index
  chunkCount : batch.index.chunkCount ≤ start.chunkCount + done
  upsertedCount : batch.upsertedChunks.length ≤ done

/-- One turn of the loop. -/
theorem VectorService.step {done : ℕ} {batch : VectorBatch} {document : CoreVectorDocument}
    (h : VectorService start done batch) (hacc : Accepted start.vectorDim document.vector) :
    VectorService start (done + 1) (upsertVector P policy batch document) := by
  have hrun : VectorRun start (upsertVector P policy batch document) := h.toVectorRun.step hacc
  have hbefore := h.chunkCount
  have hups := h.upsertedCount
  unfold upsertVector at hrun ⊢
  by_cases hsame : fullyUnchanged P policy batch.index document = true
  · rw [if_pos hsame]
    exact ⟨h.toVectorRun, h.serviceable, h.puts, by omega, by omega⟩
  rw [if_neg hsame] at hrun ⊢
  have hput : Serviceable (batch.index.replaceDocument document.documentId (vectorRecord P policy document)) := by
    refine h.serviceable.replaceDocument fun _ chunk hchunk => ?_
    rw [vectorRecord, List.mem_singleton] at hchunk
    rw [hchunk, h.puts.vectorDim]
    exact hacc
  refine ⟨hrun, hput.of_core rfl, h.puts.trans putVectorDocument_puts, ?_, ?_⟩
  · have hcount := chunkCount_replaceDocument_le batch.index document.documentId (vectorRecord P policy document)
    have hone : (vectorRecord P policy document).chunks.length = 1 := rfl
    change (batch.index.replaceDocument document.documentId (vectorRecord P policy document)).chunkCount ≤ _
    omega
  · dsimp only
    split
    · omega
    · rw [List.length_append, List.length_singleton]
      omega

/-- The loop over a whole batch. -/
theorem vectorService_upsertVectorLoop (hstart : Serviceable start)
    (hacc : ∀ document ∈ documents, Accepted start.vectorDim document.vector) :
    VectorService start documents.length (upsertVectorLoop P policy start documents) := by
  have hrun : ∀ (rest : List CoreVectorDocument) (done : ℕ) (batch : VectorBatch), rest ⊆ documents →
      VectorService start done batch →
      VectorService start (done + rest.length) (rest.foldl (upsertVector P policy) batch) := by
    intro rest
    induction rest with
    | nil => exact fun _ _ _ h => h
    | cons document rest ih =>
      intro done batch hsubset h
      obtain ⟨hmem, hrest⟩ := List.cons_subset.mp hsubset
      have hnext := ih (done + 1) (upsertVector P policy batch document) hrest
        (h.step (hacc document hmem))
      rwa [Nat.add_assoc, Nat.add_comm 1] at hnext
  have hloop := hrun documents 0 ⟨start, 0, [], ∅, [], []⟩ (List.Subset.refl _)
    ⟨vectorRun_initial start, hstart, .refl start, le_rfl, le_rfl⟩
  rwa [Nat.zero_add] at hloop

/-- The last chunk of each document is no more than there are chunks. -/
theorem length_keepLast_le (chunks : List CoreVectorChunk) :
    (Occurrence.keepLast (·.documentId) chunks).length ≤ chunks.length :=
  ((Occurrence.nodup_map_keepLast (·.documentId) chunks).of_map _).subperm
    (Occurrence.keepLast_subset _ chunks) |>.length_le

/-- Bringing the live index up to date with a batch succeeds. -/
theorem VectorService.sync {done : ℕ} {batch : VectorBatch} (h : VectorService start done batch)
    (hroom : start.chunkCount + done < 2 ^ 64) :
    ∃ synced, (batch.sync P).2 = .ok synced ∧ Serviceable synced ∧
      synced.documentState = batch.index.documentState := by
  have hcount := h.chunkCount
  have hups := h.upsertedCount
  rw [VectorBatch.sync_eq]
  by_cases hnone : batch.upsertedChunks = []
  · exact ⟨_, if_pos hnone, h.serviceable.syncVectorIndexRemove batch.removedChunkIds,
      batch.index.syncVectorIndexRemove_documentState batch.removedChunkIds⟩
  · obtain ⟨synced, hsync, hkept⟩ := h.serviceable.resync (P := P) batch.removedChunkIds
      (fun chunk hchunk => h.puts.vectorDim.symm ▸ h.accepted chunk hchunk)
      ((length_keepLast_le batch.upsertedChunks).trans_lt (by omega)) (by omega)
    exact ⟨synced, (if_neg hnone).trans hsync, hkept⟩

/-- A vector upsert lands. -/
theorem Serviceable.upsertVectors (hstart : Serviceable start)
    (hroom : start.chunkCount + documents.length < 2 ^ 64) :
    Lands Serviceable start (upsertVectors P policy start documents) :=
  upsertVectors_lands (fun _ _ h => h.of_core) hstart fun hacc =>
    (vectorService_upsertVectorLoop hstart hacc).sync hroom

end Vector

/-- A delete lands. -/
theorem Serviceable.deleteDocuments (hstart : Serviceable start) (documentIds : List String) :
    Lands Serviceable start (deleteDocuments start documentIds) :=
  deleteDocuments_lands (fun _ _ h => h.of_core)
    (fun _ _ record h hrec =>
      Serviceable.syncVectorIndexRemove ((h.dropDocument hrec).of_core rfl) record.chunkIds)
    hstart documentIds

section Payload

variable {documentId : String} {record : DocumentRecord} {metadata : Option LodeDB.Filter.Metadata}
  {text : Option (Option String)}

theorem updatedRecord_chunks : (updatedRecord P policy documentId record metadata text).chunks = record.chunks := by
  cases text <;> rfl

/-- Putting an updated record keeps the index serviceable. -/
theorem Serviceable.putUpdated (h : Serviceable start) (hrec : start.documents[documentId]? = some record) :
    Serviceable (putUpdated P policy start documentId record metadata text) := by
  cases metadata with
  | some metadata =>
    refine h.replaceDocument fun hnone chunk hchunk => ?_
    rw [updatedRecord_chunks] at hchunk
    exact h.unbuilt hnone documentId record hrec chunk hchunk
  | none =>
    have hins : Serviceable { start with
        documents := start.documents.insert documentId (updatedRecord P policy documentId record none text) } :=
      h.insert_same hrec updatedRecord_chunks
    cases text with
    | none => exact hins
    | some text => exact ⟨hins.resident, hins.unbuilt, hins.built, hins.owner⟩

/-- A payload update lands. -/
theorem Serviceable.updateDocumentPayload (hstart : Serviceable start) :
    Lands Serviceable start (updateDocumentPayload P policy start documentId metadata text) :=
  updateDocumentPayload_lands (fun _ _ h => h.of_core) hstart fun _ hrec => hstart.putUpdated hrec

end Payload

section Text

variable {plan : IngestPlan} {embeddings : List Embedding}

/-- The chunk ids a plan embeds are listed once, or its first document repeats one. -/
def DrawsOnce (plan : IngestPlan) : Prop :=
  (plan.chunksToEmbed.map (·.chunkId)).Nodup ∨ ∃ first rest, plan.documents = first :: rest ∧
    ¬ ((chunksToEmbed [first]).map (·.chunkId)).Nodup

/-- What the loop over planned documents keeps. -/
structure TextService (start : VectorOnlyIndex) (plan : IngestPlan) (embeddings : List Embedding)
    (done : List PlanDocument) (batch : TextBatch) : Prop where
  serviceable : Serviceable batch.index
  puts : start.Puts batch.index
  chunkCount : batch.index.chunkCount ≤ start.chunkCount + (plannedChunkIds done).length
  accepted : ∀ chunk ∈ batch.addedVectorChunks, Accepted start.vectorDim chunk.embedding
  addedCount : batch.addedVectorChunks.length ≤ (plannedChunkIds done).length
  newEmbeddings : batch.newEmbeddings = eraseAll (newEmbeddings plan embeddings) (plannedChunkIds done)

variable (hstart : Serviceable start) (hmade : PlanMade P start plan)
  (hgen : start.generation = plan.baseGeneration)
  (hcount : embeddings.length = plan.chunksToEmbed.length)
  (hacc : ∀ embedding ∈ embeddings, Accepted start.vectorDim embedding)

/-- A resident vector is stored. -/
theorem exists_of_residentVector {chunkId : String} (h : residentVector start chunkId = some vector) :
    ∃ (documentId : String) (record : DocumentRecord), start.documents[documentId]? = some record ∧
      ∃ chunk ∈ record.chunks, chunk.vector = vector := by
  simp only [residentVector, VectorOnlyIndex.documentForChunk, Option.bind_eq_bind, Option.bind_eq_some_iff,
    Option.some.injEq, Option.pure_def] at h
  obtain ⟨⟨documentId, found⟩, ⟨owner, -, record, hrec, heq⟩, chunk, hfind, rfl⟩ := h
  cases heq
  exact ⟨_, _, hrec, chunk, List.mem_of_find?_eq_some hfind, rfl⟩

include hstart hacc in
/-- One turn of the loop. -/
theorem TextService.step {resolved : Resolved} (h : TextService start plan embeddings done batch)
    (hresol : resolveChunks P document.documentId (existingVectors start plan embeddings) document.chunks
      batch.newEmbeddings = .ok resolved) :
    TextService start plan embeddings (done ++ [document]) (batch.put P plan document resolved) := by
  have hresolves := resolves_of_resolveChunks hresol
  have hfresh : ∀ {chunkId : String} {vector : Embedding}, batch.newEmbeddings[chunkId]? = some vector →
      Accepted start.vectorDim vector := by
    intro chunkId vector hvec
    rw [h.newEmbeddings] at hvec
    exact hacc vector (mem_of_newEmbeddings (of_getElem?_eraseAll hvec).2)
  have hvecs : start.vectorIndex = none → ∀ chunk ∈ resolved.chunks, Accepted start.vectorDim chunk.vector := by
    intro hnone chunk hchunk
    rcases hresolves.vectors chunk hchunk with hnew | hold
    · exact hfresh hnew
    · rw [existingVectors, getElem?_reusableChunkVectors] at hold
      split at hold
      · obtain ⟨documentId, record, hrec, stored, hsto, heq⟩ := exists_of_residentVector hold
        rw [← heq]
        exact hstart.unbuilt hnone documentId record hrec stored hsto
      · cases hold
  have hput : Serviceable (batch.index.replaceDocument document.documentId (textRecord P document resolved.chunks)) := by
    refine h.serviceable.replaceDocument fun hnone chunk hchunk => ?_
    rw [h.puts.vectorDim]
    exact hvecs (h.puts.vectorIndex ▸ hnone) chunk hchunk
  have hputs : batch.index.Puts (batch.index.replaceDocument document.documentId
    (textRecord P document resolved.chunks)) := replaceDocument_puts
  have hlen : resolved.chunks.length = document.chunks.length := by
    simpa using congrArg List.length hresolves.chunkIds
  have hdone : (plannedChunkIds (done ++ [document])).length =
      (plannedChunkIds done).length + document.chunks.length := by
    simp [plannedChunkIds, PlanDocument.chunkIds]
  constructor
  · exact hput.of_core rfl
  · exact h.puts.trans ⟨hputs.bookkeeping, hputs.generation, hputs.rowState⟩
  · have hbefore := h.chunkCount
    have hafter := chunkCount_replaceDocument_le batch.index document.documentId
      (textRecord P document resolved.chunks)
    have hchunks : (textRecord P document resolved.chunks).chunks.length = resolved.chunks.length := rfl
    change (batch.index.replaceDocument document.documentId (textRecord P document resolved.chunks)).chunkCount ≤ _
    omega
  · intro chunk hchunk
    rcases List.mem_append.mp hchunk with hold | hnew
    · exact h.accepted chunk hold
    · exact hfresh (hresolves.added chunk hnew)
  · have hbefore := h.addedCount
    have hafter := hresolves.addedCount
    change (batch.addedVectorChunks ++ resolved.added).length ≤ _
    rw [List.length_append]
    omega
  · have hids : plannedChunkIds (done ++ [document]) = plannedChunkIds done ++ document.chunks.map (·.chunkId) := by
      simp [plannedChunkIds, PlanDocument.chunkIds]
    rw [hids, eraseAll_append, ← h.newEmbeddings]
    exact hresolves.newEmbeddings

/-- A chunk id has a new embedding exactly when it is one to embed. -/
theorem contains_newEmbeddings (hcount : embeddings.length = plan.chunksToEmbed.length) (chunkId : String) :
    (newEmbeddings plan embeddings).contains chunkId = true ↔ chunkId ∈ plan.chunksToEmbed.map (·.chunkId) := by
  rw [contains_iff, ← mem_keySet, newEmbeddings, keySet_writeAll, List.map_fst_zip (by simp [hcount])]
  simp

include hmade hgen in
/-- A planned chunk id is to embed exactly when nobody owns it. -/
theorem mem_chunksToEmbed (hdoc : document ∈ plan.documents) (hchunk : chunk ∈ document.chunks) :
    chunk.chunkId ∈ plan.chunksToEmbed.map (·.chunkId) ↔ chunk.needsEmbedding = true := by
  rw [hmade.toEmbed]
  simp only [chunksToEmbed, List.map_flatMap, List.mem_flatMap, List.map_map, List.mem_map, List.mem_filter]
  constructor
  · rintro ⟨other, hother, found, ⟨hfound, hneeds⟩, heq⟩
    have hsame : found.chunkId = chunk.chunkId := heq
    rw [hmade.decided hgen.symm document hdoc chunk hchunk, ← hsame,
      ← hmade.decided hgen.symm other hother found hfound]
    exact hneeds
  · exact fun hneeds => ⟨document, hdoc, chunk, ⟨hchunk, hneeds⟩, rfl⟩

include hstart hmade hgen hcount in
/-- A planned chunk id has a vector to reuse exactly when it needs no embedding. -/
theorem contains_existingVectors (hdoc : document ∈ plan.documents) (hchunk : chunk ∈ document.chunks) :
    (existingVectors start plan embeddings).contains chunk.chunkId = !chunk.needsEmbedding := by
  have hfresh := (contains_newEmbeddings hcount chunk.chunkId).trans
    (mem_chunksToEmbed hmade hgen hdoc hchunk)
  have hplanned : chunk.chunkId ∈ plannedChunkIds plan.documents :=
    List.mem_flatMap.mpr ⟨document, hdoc, List.mem_map_of_mem hchunk⟩
  cases hneeds : chunk.needsEmbedding with
  | true =>
    obtain ⟨vector, hvec⟩ := (contains_iff _ _).mp (hfresh.mpr hneeds)
    rw [Std.ExtTreeMap.contains_eq_isSome_getElem?, existingVectors, getElem?_reusableChunkVectors,
      if_neg (by rw [hvec]; simp)]
    rfl
  | false =>
    have hnone : (newEmbeddings plan embeddings)[chunk.chunkId]? = none := by
      rw [← Option.not_isSome_iff_eq_none, Option.isSome_iff_exists, ← contains_iff, hfresh, hneeds]
      exact Bool.false_ne_true
    have hdec := hmade.decided hgen.symm document hdoc chunk hchunk
    rw [hneeds, eq_comm, Bool.not_eq_false', contains_iff] at hdec
    obtain ⟨owner, howner⟩ := hdec
    obtain ⟨vector, hvec⟩ := exists_residentVector howner (hstart.owner _ _ howner)
    rw [Std.ExtTreeMap.contains_eq_isSome_getElem?, existingVectors, getElem?_reusableChunkVectors,
      if_pos ⟨hplanned, hnone⟩, hvec]
    rfl

include hstart hmade hgen hcount in
/-- The planned chunk ids without a vector to reuse are those to embed. -/
theorem lacking_plannedChunkIds {documents : List PlanDocument} (hdocs : documents ⊆ plan.documents) :
    lacking (existingVectors start plan embeddings) (plannedChunkIds documents) =
      (chunksToEmbed documents).map (·.chunkId) := by
  rw [lacking, plannedChunkIds, List.filter_flatMap, chunksToEmbed, List.map_flatMap]
  refine List.flatMap_congr fun document hdoc => ?_
  rw [PlanDocument.chunkIds, List.filter_map, List.map_map]
  refine congrArg (List.map _) (List.filter_congr fun chunk hchunk => ?_)
  simp only [Function.comp_apply]
  rw [contains_existingVectors hstart hmade hgen hcount (hdocs hdoc) hchunk, Bool.not_not]

/-- A vector to reuse is not embedded again. -/
theorem existingVectors_apart (start : VectorOnlyIndex) (plan : IngestPlan) (embeddings : List Embedding)
    (done : List String) (chunkId : String) (h : (existingVectors start plan embeddings).contains chunkId = true) :
    (eraseAll (newEmbeddings plan embeddings) done).contains chunkId = false := by
  obtain ⟨vector, hvec⟩ := (contains_iff _ _).mp h
  rw [existingVectors, getElem?_reusableChunkVectors] at hvec
  split at hvec
  · rename_i hskip
    rw [Std.ExtTreeMap.contains_eq_isSome_getElem?, getElem?_eraseAll]
    split
    · rfl
    · rw [hskip.2]
      rfl
  · cases hvec

include hstart hmade hgen hcount hacc in
/-- The loop runs through a plan whose chunks to embed are each listed once. -/
theorem TextService.run (hnodup : (plan.chunksToEmbed.map (·.chunkId)).Nodup)
    (h : TextService start plan embeddings done batch) (hplan : plan.documents = done ++ rest) :
    ∃ last, applyPlanDocuments P plan (existingVectors start plan embeddings) rest batch = (last, .ok ()) ∧
      TextService start plan embeddings plan.documents last := by
  induction rest generalizing done batch with
  | nil =>
    rw [List.append_nil] at hplan
    exact ⟨batch, rfl, hplan ▸ h⟩
  | cons document rest ih =>
    have hnext : plan.documents = done ++ [document] ++ rest := by simp [hplan]
    have hlist : (chunksToEmbed (done ++ document :: rest)).map (·.chunkId) =
        (chunksToEmbed done).map (·.chunkId) ++ ((chunksToEmbed [document]).map (·.chunkId) ++
          (chunksToEmbed rest).map (·.chunkId)) := by
      simp [chunksToEmbed]
    rw [hmade.toEmbed, hplan, hlist, List.nodup_append, List.nodup_append] at hnodup
    have hlacking : lacking (existingVectors start plan embeddings) document.chunkIds =
        (chunksToEmbed [document]).map (·.chunkId) := by
      rw [← lacking_plannedChunkIds hstart hmade hgen hcount (by simp [hplan])]
      simp [plannedChunkIds]
    have hdrawn : lacking (existingVectors start plan embeddings) (plannedChunkIds done) =
        (chunksToEmbed done).map (·.chunkId) :=
      lacking_plannedChunkIds hstart hmade hgen hcount (by simp [hplan])
    have hembd : ∀ chunkId ∈ lacking (existingVectors start plan embeddings) document.chunkIds,
        batch.newEmbeddings.contains chunkId = true := by
      intro chunkId hchunk
      have hmiss := (List.mem_filter.mp hchunk).2
      rw [hlacking] at hchunk
      have hfresh : (Engine.newEmbeddings plan embeddings).contains chunkId = true := by
        rw [contains_newEmbeddings hcount, hmade.toEmbed, hplan, hlist]
        exact List.mem_append_right _ (List.mem_append_left _ hchunk)
      obtain ⟨vector, hvec⟩ := (contains_iff _ _).mp hfresh
      rw [h.newEmbeddings, contains_iff, getElem?_eraseAll, if_neg]
      · exact ⟨vector, hvec⟩
      · intro hdone
        have hbefore : chunkId ∈ (chunksToEmbed done).map (·.chunkId) := by
          rw [← hdrawn]
          exact List.mem_filter.mpr ⟨hdone, hmiss⟩
        exact hnodup.2.2 _ hbefore _ (List.mem_append_left _ hchunk) rfl
    obtain ⟨resolved, hresol⟩ := (resolveChunks_isOk_iff (P := P) fun chunkId hpres => by
      rw [h.newEmbeddings]
      exact existingVectors_apart start plan embeddings _ chunkId hpres).mpr
        ⟨hlacking ▸ hnodup.2.1.1, hembd⟩
    rw [applyPlanDocuments, applyPlanDocument, hresol]
    exact ih (h.step hstart hacc hresol) hnext

include hstart hmade hgen hcount in
/-- The loop stops at once if the first document repeats a chunk to embed. -/
theorem applyPlanDocument_first_stuck {first : PlanDocument} (hplan : plan.documents = first :: rest)
    (hrep : ¬ ((chunksToEmbed [first]).map (·.chunkId)).Nodup) :
    ∃ error, applyPlanDocument P plan (existingVectors start plan embeddings)
      (TextBatch.initial start plan embeddings) first = .error error := by
  have hlacking : lacking (existingVectors start plan embeddings) first.chunkIds =
      (chunksToEmbed [first]).map (·.chunkId) := by
    rw [← lacking_plannedChunkIds hstart hmade hgen hcount (by simp [hplan])]
    simp [plannedChunkIds]
  have hapart : ∀ chunkId, (existingVectors start plan embeddings).contains chunkId = true →
      (newEmbeddings plan embeddings).contains chunkId = false :=
    existingVectors_apart start plan embeddings []
  have hstuck : ¬ ∃ resolved, resolveChunks P first.documentId (existingVectors start plan embeddings) first.chunks
      (newEmbeddings plan embeddings) = .ok resolved := by
    rw [resolveChunks_isOk_iff hapart]
    exact fun hresolves => hrep (hlacking ▸ hresolves.1)
  rw [applyPlanDocument, TextBatch.initial]
  cases hresolve : resolveChunks P first.documentId (existingVectors start plan embeddings) first.chunks
      (newEmbeddings plan embeddings) with
  | ok resolved => exact absurd ⟨resolved, hresolve⟩ hstuck
  | error error => exact ⟨error, rfl⟩

/-- Bringing the live index up to date with a plan succeeds. -/
theorem TextService.sync (h : TextService start plan embeddings done batch)
    (hroom : start.chunkCount + (plannedChunkIds done).length < 2 ^ 64) :
    ∃ synced, (batch.sync P).2 = .ok synced ∧ Serviceable synced ∧
      synced.documentState = batch.index.documentState := by
  have hcount := h.chunkCount
  have hadded := h.addedCount
  exact h.serviceable.resync _ (fun chunk hchunk => h.puts.vectorDim.symm ▸ h.accepted chunk hchunk) (by omega) (by omega)

include hstart hmade in
/-- A text upsert that passes its checks and embeds every chunk id once runs through. -/
theorem Serviceable.applyLoop (hnodup : (plan.chunksToEmbed.map (·.chunkId)).Nodup)
    (hroom : start.chunkCount + (plannedChunkIds plan.documents).length < 2 ^ 64)
    (hchk : checkPlan start plan embeddings = .ok ()) :
    ∃ batch synced, applyLoop P start plan embeddings = (batch, .ok ()) ∧ (batch.sync P).2 = .ok synced ∧
      Serviceable synced ∧ synced.generation = start.generation := by
  obtain ⟨-, hgen, hcount, hacc⟩ := checkPlan_eq_ok.mp hchk
  have hinit : TextService start plan embeddings [] (.initial start plan embeddings) :=
    ⟨hstart, .refl start, le_rfl, by simp [TextBatch.initial], le_rfl, rfl⟩
  obtain ⟨batch, hbatch, hloop⟩ := hinit.run hstart hmade hgen hcount hacc hnodup rfl
  obtain ⟨synced, hsync, hserv, hstate⟩ := hloop.sync (P := P) hroom
  exact ⟨batch, synced, hbatch, hsync, hserv,
    (congrArg VectorOnlyIndex.DocumentState.generation hstate).trans hloop.puts.generation⟩

include hstart hmade in
/-- A text upsert lands, if a checked plan draws every embedding once. -/
theorem Serviceable.applyTextUpsert (hdraws : checkPlan start plan embeddings = .ok () → DrawsOnce plan)
    (hroom : start.chunkCount + (plannedChunkIds plan.documents).length < 2 ^ 64) :
    Lands Serviceable start (applyTextUpsert P start plan embeddings) := by
  by_cases hnodup : (plan.chunksToEmbed.map (·.chunkId)).Nodup
  · exact applyTextUpsert_lands (fun _ _ h => h.of_core) hstart (hstart.applyLoop hmade hnodup hroom)
  cases hchk : checkPlan start plan embeddings with
  | error error =>
    simp only [Engine.applyTextUpsert, hchk]
    exact lands_of_failed hstart error
  | ok checked =>
    obtain ⟨first, rest, hplan, hrep⟩ := (hdraws hchk).resolve_left hnodup
    obtain ⟨-, hgen, hcount, -⟩ := checkPlan_eq_ok.mp hchk
    obtain ⟨error, hstuck⟩ := applyPlanDocument_first_stuck hstart hmade hgen hcount hplan hrep
    have hloop : Engine.applyLoop P start plan embeddings = (.initial start plan embeddings, .error error) := by
      change applyPlanDocuments P plan (existingVectors start plan embeddings) plan.documents
        (.initial start plan embeddings) = _
      rw [hplan, applyPlanDocuments, hstuck]
    simp only [Engine.applyTextUpsert, hchk, hloop]
    exact lands_of_failed hstart error

end Text

end LodeDB.Engine
