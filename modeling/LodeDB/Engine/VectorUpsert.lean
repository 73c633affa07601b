import LodeDB.Engine.Mutation
import LodeDB.Engine.Mirrors

/-!
# Vector upserts

The batch is validated before anything changes. Documents are then put one by one, and the live
index is brought up to date once, after the loop: first the rows of replaced documents' old chunks
go, then the last vector of each changed document is upserted.
-/

namespace LodeDB.Engine

open ExceptRules TreeMapRules
open LodeDB.Filter (Metadata DocSet)
open Text (sha256F32Le tokenize)

variable (P : Primitives) (policy : TextPolicy)

/-- The checks on one vector document. -/
def checkVectorDocument (vectorDim : ℕ) (document : CoreVectorDocument) : Except CoreError Unit := do
  ensure (isBlank document.documentId = false) (invalid "document_id is required")
  ensure (document.vector.length = vectorDim)
    (invalid "vector dimension does not match index")
  ensure (document.vector.all validCoord = true)
    (invalid "vector contains a non-finite or out-of-range value")

/-- The record of a vector document. Its only chunk carries its own id. -/
def vectorRecord (document : CoreVectorDocument) : DocumentRecord where
  contentHash := sha256F32Le P document.vector
  metadata := document.metadata
  text := retainedText policy document.text
  tokenLists := captionTokenLists (captionTokens P policy document.text)
  chunks := [⟨document.documentId, document.vector⟩]
  patchMatrix := document.patchMatrix

variable (index : VectorOnlyIndex)

/-- Whether a document already has this vector, going by its content hash. -/
def vectorUnchanged (document : CoreVectorDocument) : Bool :=
  index.documents[document.documentId]?.any fun record =>
    record.contentHash = sha256F32Le P document.vector

/-- Whether putting a document would change nothing. -/
def fullyUnchanged (document : CoreVectorDocument) : Bool :=
  index.documents[document.documentId]?.any fun record =>
    record.contentHash = sha256F32Le P document.vector && record.metadata = document.metadata &&
      record.text = retainedText policy document.text &&
      record.tokenLists = captionTokenLists (captionTokens P policy document.text) &&
      record.patchMatrix = document.patchMatrix

/-- The log row of a vector document: text under `storeText`, tokens under `indexText`. -/
def walVectorDocument (document : CoreVectorDocument) : WalVectorDocument where
  documentId := document.documentId
  vector := document.vector
  metadata := document.metadata
  text := retainedText policy document.text
  tokens := if policy.indexText then document.text.map fun text => [tokenize P text] else none
  patchMatrix := document.patchMatrix

/-- What the loop over a batch has done so far. -/
structure VectorBatch where
  index : VectorOnlyIndex
  changed : ℕ
  walVectors : List WalVectorDocument
  changedFilterFields : Finset String
  upsertedChunks : List CoreVectorChunk
  removedChunkIds : List String

/-- Put one document in place of its old one, and follow its sidecar payloads. -/
def putVectorDocument (document : CoreVectorDocument) : VectorOnlyIndex :=
  let old := index.documents[document.documentId]?
  { index.replaceDocument document.documentId (vectorRecord P policy document) with
    pendingRawTextClears := trackClear index.pendingRawTextClears document.documentId
      (retainedText policy document.text).isSome (old.any (·.text.isSome))
    pendingMultivecClears := trackClear index.pendingMultivecClears document.documentId
      document.patchMatrix.isSome (old.any (·.patchMatrix.isSome))
    pendingLexicalClears := trackClear index.pendingLexicalClears document.documentId
      (captionTokens P policy document.text ≠ []) (old.any (·.tokenLists ≠ [])) }

variable (batch : VectorBatch)

/-- One turn of the loop. -/
def upsertVector (document : CoreVectorDocument) : VectorBatch :=
  if fullyUnchanged P policy batch.index document then batch
  else
    { index := putVectorDocument P policy batch.index document
      changed := batch.changed + 1
      walVectors := batch.walVectors ++ [walVectorDocument P policy document]
      changedFilterFields := batch.changedFilterFields ∪
        (batch.index.documents[document.documentId]?.elim ∅ fun old =>
          batch.index.changedFilterFields old.metadata) ∪
        batch.index.changedFilterFields document.metadata
      upsertedChunks :=
        if vectorUnchanged P batch.index document then batch.upsertedChunks
        else batch.upsertedChunks ++ [⟨document.documentId, document.documentId, document.vector⟩]
      removedChunkIds := batch.removedChunkIds ++
        (chunkIdsOf batch.index.documents document.documentId).filter (· ≠ document.documentId) }

/-- The whole loop. -/
def upsertVectorLoop (documents : List CoreVectorDocument) : VectorBatch :=
  documents.foldl (upsertVector P policy) ⟨index, 0, [], ∅, [], []⟩

/-- Bring the live index up to date with a batch. -/
def VectorBatch.sync : VectorOnlyIndex × Except CoreError VectorOnlyIndex :=
  let removed := if batch.removedChunkIds = [] then batch.index
    else batch.index.syncVectorIndexRemove batch.removedChunkIds
  (removed, if batch.upsertedChunks = [] then .ok removed
    else removed.syncVectorIndexUpsert P (Occurrence.keepLast (·.documentId) batch.upsertedChunks))

/-- Close a batch with changes: drop empty filter fields, bump the generation. -/
def VectorBatch.close (synced : VectorOnlyIndex) : VectorOnlyIndex :=
  if batch.changed = 0 then synced
  else { synced.finalizeFilterFields batch.changedFilterFields with
    generation := synced.generation + 1 }

/-- Upsert vector documents. -/
def upsertVectors (documents : List CoreVectorDocument) : Outcome :=
  match (do index.requireVectorsMutable; documents.forM (checkVectorDocument index.vectorDim)) with
  | .error error => ⟨index, .error error⟩
  | .ok () =>
    let batch := upsertVectorLoop P policy index documents
    match batch.sync P with
    | (removed, .error error) => ⟨removed, .error error⟩
    | (_, .ok synced) =>
      let closed := batch.close synced
      ⟨closed, .ok {
        result := ⟨batch.changed, 0, batch.upsertedChunks.length, 0, closed.generation⟩
        wal := if batch.walVectors = [] then none else some (.upsertVectors batch.walVectors) }⟩

end LodeDB.Engine
