import LodeDB.Engine.Fold

/-!
# Appenders

An appender logs records for a later writer to fold. It holds no index, so it plans every chunk as one
to embed and lists no chunk as removed; it refuses what a fold could not apply.
-/

namespace LodeDB.Engine

open ExceptRules
open LodeDB.Filter (Metadata DocSet)
open Text (sha256Text tokenize)

variable (P : Primitives)

/-- Plan documents without an index. -/
def planDocuments (documents : List CoreDocument) (policy : TextPolicy) (chunkCharacterLimit : ℕ) :
    Except CoreError IngestPlan := do
  ensure (documents ≠ []) (invalid "plan_documents requires at least one document")
  ensure (documents.map CoreDocument.documentId).Nodup
    (invalid "plan_documents requires unique document ids within one batch")
  let (prepared, toEmbed) ← planDocumentChunks P documents policy chunkCharacterLimit fun _ => true
  return ⟨0, prepared, toEmbed, policy.storeText, policy.indexText⟩

/-- A planned document as its record carries it, with tokens derived again by the plan's flags. -/
def embeddedDocument (plan : IngestPlan) (document : PlanDocument) : WalEmbeddedDocument :=
  let text := if plan.storeText then document.text else none
  { documentId := document.documentId
    contentHash := sha256Text P (text.getD ("\n".intercalate (document.chunks.map (·.text))))
    metadata := document.metadata
    text := text
    chunkIds := document.chunkIds
    tokens := document.chunks.map fun chunk =>
      if plan.storeText || plan.indexText then tokenize P chunk.text else [] }

/-- The chunks of a planned document in its record, each with its embedding. -/
def embeddedAdds (embeddingByChunk : ChunkVectors) (document : PlanDocument) :
    Except CoreError (List WalAddedChunk) :=
  document.chunks.mapM fun chunk =>
    match embeddingByChunk[chunk.chunkId]? with
    | some embedding => .ok ⟨chunk.chunkId, document.documentId, sha256Text P chunk.text, embedding⟩
    | none => .error (invalid "prepared plan chunk is missing its embedding")

/-- The record of a plan with the embeddings the caller computed. -/
def buildEmbeddedDocumentsPayload (plan : IngestPlan) (embeddings : List Embedding) (vectorDim : ℕ) :
    Except CoreError WalOp := do
  ensure (plan.documents ≠ []) (invalid "the ingest plan holds no documents")
  ensure (plan.documents.map PlanDocument.documentId).Nodup
    (invalid "the ingest plan repeats document id")
  ensure (embeddings.length = plan.chunksToEmbed.length)
    (invalid "embedding count does not match the prepared plan")
  embeddings.forM (checkEmbedding vectorDim)
  let added ← plan.documents.mapM (embeddedAdds P (newEmbeddings plan embeddings))
  return .applyEmbeddedDocuments (plan.documents.map (embeddedDocument P plan)) added.flatten []

/-- An open appender: the shape of its index and what it keeps of texts. -/
structure CoreAppender where
  vectorDim : ℕ
  chunkCharacterLimit : ℕ
  policy : TextPolicy

namespace CoreAppender

variable (appender : CoreAppender)

/-- Plan documents for a record. -/
def prepareDocuments (documents : List CoreDocument) : Except CoreError IngestPlan := do
  ensure (documents ≠ []) (invalid "prepare_documents requires at least one document")
  planDocuments P documents appender.policy appender.chunkCharacterLimit

/-- The record of a plan. A plan prepared under another policy is refused. -/
def embeddedDocuments (plan : IngestPlan) (embeddings : List Embedding) : Except CoreError WalOp := do
  ensure (plan.documents ≠ [])
    (invalid "append_embedded_documents requires at least one document")
  ensure (plan.storeText = appender.policy.storeText ∧ plan.indexText = appender.policy.indexText)
    (invalid "prepared plan's store_text/index_text does not match this appender")
  buildEmbeddedDocumentsPayload P plan embeddings appender.vectorDim

/-- The record of vector documents. -/
def vectors (documents : List CoreVectorDocument) : Except CoreError WalOp := do
  ensure (documents ≠ []) (invalid "append_vectors requires at least one document")
  documents.forM (checkVectorDocument appender.vectorDim)
  return .upsertVectors (documents.map (walVectorDocument P appender.policy))

/-- The record of deletes. -/
def deletes (documentIds : List String) : Except CoreError WalOp := do
  ensure (documentIds ≠ []) (invalid "append_deletes requires at least one document id")
  ensure (documentIds.all fun documentId => !isBlank documentId)
    (invalid "document_id is required")
  return .deleteDocuments documentIds

end CoreAppender

end LodeDB.Engine
