import LodeDB.Engine.Mutation
import LodeDB.Engine.Mirrors
import LodeDB.Lib.SortedSet

/-!
# Text upserts

A plan chunks the documents, names the chunks and lists those that need an embedding; it is tied to the generation it
was made against. Applying it puts the documents one by one, with the resident vector of every chunk that is not
embedded again, and then brings the live index up to date. A chunk that is neither embedded nor resident stops the
loop, with the documents before it already put.
-/

namespace LodeDB.Engine

open ExceptRules TreeMapRules
open LodeDB.Filter (Metadata DocSet)
open Text (sha256Text normalizedChunkHash chunkIdForHash chunkText tokenize)

variable (P : Primitives)

/-- Name the pieces of a document and decide which of them need an embedding. -/
def planChunks (policy : TextPolicy) (documentId : String) (needsEmbedding : String → Bool) :
    List String → Std.ExtTreeMap String ℕ compare → List PlanDocumentChunk
  | [], _ => []
  | piece :: rest, occurrences =>
    let chunkHash := normalizedChunkHash P piece
    let occurrence := occurrences[chunkHash]?.getD 0
    let chunkId := chunkIdForHash documentId chunkHash occurrence
    { chunkId := chunkId
      text := piece
      tokens := if policy.indexText || policy.storeText then tokenize P piece else []
      needsEmbedding := needsEmbedding chunkId } ::
      planChunks policy documentId needsEmbedding rest (occurrences.insert chunkHash (occurrence + 1))

/-- Plan one document. -/
def planDocument (policy : TextPolicy) (chunkCharacterLimit : ℕ) (needsEmbedding : String → Bool)
    (document : CoreDocument) : Except CoreError PlanDocument := do
  ensure (isBlank document.documentId = false) (invalid "document_id is required")
  ensure (isBlank document.text = false) (invalid "document text is required")
  let pieces ← chunkText document.text chunkCharacterLimit
  return {
    documentId := document.documentId
    metadata := document.metadata
    text := if policy.storeText then some document.text else none
    chunks := planChunks P policy document.documentId needsEmbedding pieces ∅ }

/-- The chunks of planned documents that need an embedding, in order. -/
def chunksToEmbed (documents : List PlanDocument) : List PlanEmbeddingChunk :=
  documents.flatMap fun document => (document.chunks.filter (·.needsEmbedding)).map fun chunk =>
    ⟨document.documentId, chunk.chunkId, chunk.text⟩

/-- Plan documents: the first invalid one is an error. -/
def planDocumentChunks (documents : List CoreDocument) (policy : TextPolicy)
    (chunkCharacterLimit : ℕ) (needsEmbedding : String → Bool) :
    Except CoreError (List PlanDocument × List PlanEmbeddingChunk) := do
  let prepared ← documents.mapM (planDocument P policy chunkCharacterLimit needsEmbedding)
  return (prepared, chunksToEmbed prepared)

variable (index : VectorOnlyIndex)

/-- Plan a text upsert. Chunks that are already resident are not embedded again. -/
def prepareTextUpsert (documents : List CoreDocument) (policy : TextPolicy) (chunkCharacterLimit : ℕ)
    : Except CoreError IngestPlan := do
  index.requireVectorsMutable
  let (prepared, toEmbed) ← planDocumentChunks P documents policy chunkCharacterLimit
    fun chunkId => !index.chunkOwnerById.contains chunkId
  return ⟨index.generation, prepared, toEmbed, policy.storeText, policy.indexText⟩

/-- The vector of a resident chunk. -/
def residentVector (chunkId : String) : Option Embedding := do
  let (_, record) ← index.documentForChunk chunkId
  let chunk ← record.chunks.find? (·.chunkId = chunkId)
  return chunk.vector

/-- Collect the resident vector of a chunk that has none yet. -/
def reuseChunk (skip reused : ChunkVectors) (chunkId : String)
    : ChunkVectors :=
  if skip.contains chunkId || reused.contains chunkId then reused
  else match residentVector index chunkId with
    | some vector => reused.insert chunkId vector
    | none => reused

/-- The resident vectors of the chunks that are not embedded again. -/
def reusableChunkVectors (chunkIds : List String) (skip : ChunkVectors)
    : ChunkVectors :=
  chunkIds.foldl (reuseChunk index skip) ∅

/-- A document's chunks with their vectors, the embeddings left, and what was added. -/
structure Resolved where
  chunks : List ChunkRecord
  newEmbeddings : ChunkVectors
  added : List CoreVectorChunk
  addedWal : List WalAddedChunk

/-- Give every planned chunk its new embedding or its resident vector. -/
def resolveChunks (documentId : String) (existing : ChunkVectors) :
    List PlanDocumentChunk → ChunkVectors → Except CoreError Resolved
  | [], newEmbeddings => .ok ⟨[], newEmbeddings, [], []⟩
  | chunk :: rest, newEmbeddings =>
    match newEmbeddings[chunk.chunkId]? with
    | some embedding => do
      let resolved ← resolveChunks documentId existing rest (newEmbeddings.erase chunk.chunkId)
      return { resolved with
        chunks := ⟨chunk.chunkId, embedding⟩ :: resolved.chunks
        added := ⟨chunk.chunkId, documentId, embedding⟩ :: resolved.added
        addedWal := ⟨chunk.chunkId, documentId, sha256Text P chunk.text, embedding⟩ ::
          resolved.addedWal }
    | none =>
      match existing[chunk.chunkId]? with
      | some vector => do
        let resolved ← resolveChunks documentId existing rest newEmbeddings
        return { resolved with chunks := ⟨chunk.chunkId, vector⟩ :: resolved.chunks }
      | none => .error (invalid "ingest plan references a missing reusable chunk")

/-- The record of a planned document. Without retained text it hashes its chunks' texts. -/
def textRecord (document : PlanDocument) (chunks : List ChunkRecord) : DocumentRecord where
  contentHash := sha256Text P
    (document.text.getD ("\n".intercalate (document.chunks.map (·.text))))
  metadata := document.metadata
  text := document.text
  tokenLists := document.chunks.map (·.tokens)
  chunks := chunks
  patchMatrix := none

/-- Whether some chunk has a token. -/
def hasTokens (tokenLists : List (List String)) : Bool := tokenLists.any (· ≠ [])

/-- What the loop over a plan has done so far. -/
structure TextBatch where
  index : VectorOnlyIndex
  newEmbeddings : ChunkVectors
  removedChunkIds : Finset String
  activeChunkIds : Finset String
  addedVectorChunks : List CoreVectorChunk
  addedChunks : List WalAddedChunk
  walDocuments : List WalEmbeddedDocument
  changedFilterFields : Finset String

variable (plan : IngestPlan)

/-- Put one planned document, and follow its sidecar payloads. What is retained is up to the plan's policy. -/
def putTextDocument (index : VectorOnlyIndex) (document : PlanDocument) (chunks : List ChunkRecord)
    : VectorOnlyIndex :=
  let old := index.documents[document.documentId]?
  { index.replaceDocument document.documentId (textRecord P document chunks) with
    pendingRawTextClears := trackClear index.pendingRawTextClears document.documentId
      (plan.storeText && document.text.isSome) (old.any (·.text.isSome))
    pendingLexicalClears := trackClear index.pendingLexicalClears document.documentId
      (plan.indexText && hasTokens (document.chunks.map (·.tokens)))
      (old.any fun record => hasTokens record.tokenLists)
    pendingMultivecClears := trackClear index.pendingMultivecClears document.documentId
      false (old.any (·.patchMatrix.isSome)) }

/-- Put one planned document whose chunks have their vectors. -/
def TextBatch.put (batch : TextBatch) (document : PlanDocument) (resolved : Resolved) : TextBatch where
  index := putTextDocument P plan batch.index document resolved.chunks
  newEmbeddings := resolved.newEmbeddings
  removedChunkIds := batch.removedChunkIds ∪ (chunkIdsOf batch.index.documents document.documentId).toFinset
  activeChunkIds := batch.activeChunkIds ∪ document.chunkIds.toFinset
  addedVectorChunks := batch.addedVectorChunks ++ resolved.added
  addedChunks := batch.addedChunks ++ resolved.addedWal
  walDocuments :=
    let record := textRecord P document resolved.chunks
    batch.walDocuments ++ [⟨document.documentId, record.contentHash, document.metadata,
      document.text, record.chunkIds, record.tokenLists⟩]
  changedFilterFields := batch.changedFilterFields ∪ (batch.index.documents[document.documentId]?.elim ∅ fun old =>
      batch.index.changedFilterFields old.metadata) ∪
    batch.index.changedFilterFields document.metadata

/-- One turn of the loop. -/
def applyPlanDocument (existing : ChunkVectors) (batch : TextBatch)
    (document : PlanDocument) : Except CoreError TextBatch := do
  let resolved ← resolveChunks P document.documentId existing document.chunks batch.newEmbeddings
  return batch.put P plan document resolved

/-- The loop. It stops at the first failing document, those before it put. -/
def applyPlanDocuments (plan : IngestPlan) (existing : ChunkVectors) :
    List PlanDocument → TextBatch → TextBatch × Except CoreError Unit
  | [], batch => (batch, .ok ())
  | document :: rest, batch =>
    match applyPlanDocument P plan existing batch document with
    | .error error => (batch, .error error)
    | .ok batch => applyPlanDocuments plan existing rest batch

/-- The checks on one embedding. -/
def checkEmbedding (vectorDim : ℕ) (embedding : Embedding) : Except CoreError Unit := do
  ensure (embedding.length = vectorDim) (invalid "embedding dimension does not match index")
  ensure (embedding.all validCoord = true)
    (invalid "embedding contains a non-finite or out-of-range value")

variable (plan : IngestPlan) (embeddings : List Embedding)

/-- The checks before anything changes. -/
def checkPlan : Except CoreError Unit := do
  index.requireVectorsMutable
  ensure (index.generation = plan.baseGeneration) ⟨.planStale, "ingest plan is stale"⟩
  ensure (embeddings.length = plan.chunksToEmbed.length)
    (invalid "embedding count does not match ingest plan")
  embeddings.forM (checkEmbedding index.vectorDim)

/-- The embedding of each chunk to embed. -/
def newEmbeddings : ChunkVectors :=
  writeAll ∅ ((plan.chunksToEmbed.map (·.chunkId)).zip embeddings)

/-- The whole loop over a plan. -/
def applyLoop : TextBatch × Except CoreError Unit :=
  let fresh := newEmbeddings plan embeddings
  let existing := reusableChunkVectors index (plan.documents.flatMap (·.chunkIds)) fresh
  applyPlanDocuments P plan existing plan.documents ⟨index, fresh, ∅, ∅, [], [], [], ∅⟩

/-- Bring the live index up to date with a batch: old chunks not active any more go. -/
def TextBatch.sync (batch : TextBatch) : VectorOnlyIndex × Except CoreError VectorOnlyIndex :=
  let removed := batch.index.syncVectorIndexRemove
    (SortedSet.ascending (batch.removedChunkIds \ batch.activeChunkIds))
  (removed, removed.syncVectorIndexUpsert P batch.addedVectorChunks)

/-- Apply a text upsert plan with the embeddings the caller computed. -/
def applyTextUpsert : Outcome :=
  match checkPlan index plan embeddings with
  | .error error => ⟨index, .error error⟩
  | .ok () =>
    match applyLoop P index plan embeddings with
    | (batch, .error error) => ⟨batch.index, .error error⟩
    | (batch, .ok ()) =>
      if plan.documents = [] then
        ⟨batch.index, .ok ⟨⟨0, 0, 0, 0, batch.index.generation⟩, none⟩⟩
      else
        match batch.sync P with
        | (removed, .error error) => ⟨removed, .error error⟩
        | (_, .ok synced) =>
          ⟨{ synced.finalizeFilterFields batch.changedFilterFields with
              generation := synced.generation + 1 }, .ok {
            result := ⟨plan.documents.length, 0, batch.addedVectorChunks.length, 0, synced.generation + 1⟩
            wal := some (.applyEmbeddedDocuments batch.walDocuments batch.addedChunks
              (SortedSet.ascending batch.removedChunkIds)) }⟩

end LodeDB.Engine
