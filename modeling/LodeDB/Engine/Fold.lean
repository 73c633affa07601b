import LodeDB.Engine.Delete
import LodeDB.Engine.Payload
import LodeDB.Engine.TextUpsert
import LodeDB.Engine.VectorUpsert

/-!
# Folding log records

A fold replays logged operations through the mutations. The embedded documents of a record carry their chunk ids and
the vectors of the chunks the writer embedded; an appender embeds every chunk and lists none as removed, so the fold
derives the chunks a replaced document gives up. The folding handle's policy decides what is kept of texts and
tokens.
-/

namespace LodeDB.Engine

open ExceptRules TreeMapRules
open LodeDB.Filter (Metadata DocSet)

variable (P : Primitives) (policy : TextPolicy)

/-- One log record: its sequence number, if it has one, and its operation. -/
structure WalRecord where
  lsn : Option ℕ
  op : WalOp
  deriving DecidableEq

/-- The vectors a record carries, by chunk id. -/
def foldVectors (vectorDim : ℕ) (added : List WalAddedChunk) :
    Except CoreError ChunkVectors := do
  added.forM fun chunk => ensure (chunk.embedding.length = vectorDim)
    (invalid "WAL added chunk embedding dimension does not match index")
  return writeAll ∅ (added.map fun chunk => (chunk.chunkId, chunk.embedding))

variable (document : WalEmbeddedDocument)

/-- What a fold keeps of a record's text. -/
def foldText : Option String := retainedText policy document.text

/-- What a fold keeps of a record's tokens: those some sidecar will bring back. -/
def foldTokens : List (List String) :=
  if policy.indexText || (foldText policy document).isSome then document.tokens else []

/-- The record an embedded document becomes. -/
def foldRecord (chunks : List ChunkRecord) : DocumentRecord where
  contentHash := document.contentHash
  metadata := document.metadata
  text := foldText policy document
  tokenLists := foldTokens policy document
  chunks := chunks
  patchMatrix := none

variable (index : VectorOnlyIndex)

/-- Put one embedded document, and follow its sidecar payloads. -/
def putFolded (document : WalEmbeddedDocument) (chunks : List ChunkRecord) : VectorOnlyIndex :=
  let old := index.documents[document.documentId]?
  { index.replaceDocument document.documentId (foldRecord policy document chunks) with
    pendingRawTextClears := trackClear index.pendingRawTextClears document.documentId
      (foldText policy document).isSome (old.any (·.text.isSome))
    pendingLexicalClears := trackClear index.pendingLexicalClears document.documentId
      (policy.indexText && hasTokens (foldTokens policy document))
      (old.any fun record => hasTokens record.tokenLists)
    pendingMultivecClears := trackClear index.pendingMultivecClears document.documentId
      false (old.any (·.patchMatrix.isSome)) }

/-- What the loop over a record's documents has done so far. -/
structure FoldBatch where
  index : VectorOnlyIndex
  removedChunkIds : Finset String
  activeChunkIds : Finset String
  changedFilterFields : Finset String

/-- Give every chunk of a document its vector in the record, or its resident one. -/
def foldChunks (added existing : ChunkVectors) (chunkIds : List String) :
    Except CoreError (List ChunkRecord) :=
  chunkIds.mapM fun chunkId =>
    match added[chunkId]?.or existing[chunkId]? with
    | some vector => .ok ⟨chunkId, vector⟩
    | none => .error (invalid "WAL embedded payload references missing chunk")

/-- Put one document whose chunks have their vectors. -/
def FoldBatch.put (batch : FoldBatch) (document : WalEmbeddedDocument) (chunks : List ChunkRecord) :
    FoldBatch where
  index := putFolded policy batch.index document chunks
  removedChunkIds := batch.removedChunkIds ∪ (chunkIdsOf batch.index.documents document.documentId).toFinset
  activeChunkIds := batch.activeChunkIds ∪ (chunks.map (·.chunkId)).toFinset
  changedFilterFields := batch.changedFilterFields ∪ (batch.index.documents[document.documentId]?.elim ∅ fun old =>
      batch.index.changedFilterFields old.metadata) ∪
    batch.index.changedFilterFields document.metadata

/-- The loop. It stops at the first failing document, those before it put. -/
def foldDocuments (added existing : ChunkVectors) :
    List WalEmbeddedDocument → FoldBatch → FoldBatch × Except CoreError Unit
  | [], batch => (batch, .ok ())
  | document :: rest, batch =>
    match foldChunks added existing document.chunkIds with
    | .error error => (batch, .error error)
    | .ok chunks => foldDocuments added existing rest (batch.put policy document chunks)

/-- Take chunks out of every document. -/
def withoutChunks (documents : Documents) (removed : Finset String) : Documents :=
  if removed = ∅ then documents
  else collect (fun _ record =>
    some { record with chunks := record.chunks.filter fun chunk => chunk.chunkId ∉ removed }) documents

/-- The rows a fold upserts: the record's vectors that have an owner, in chunk-id order. -/
def foldedRows (added : ChunkVectors) : List CoreVectorChunk :=
  added.toList.filterMap fun entry => index.chunkOwnerById[entry.1]?.map fun documentId =>
    ⟨entry.1, documentId, entry.2⟩

/-- Close the loop: chunks no document has any more go, then the rows follow. -/
def FoldBatch.close (batch : FoldBatch) (added : ChunkVectors)
    (documents : List WalEmbeddedDocument) : VectorOnlyIndex × Except CoreError Unit :=
  let removed := batch.removedChunkIds \ batch.activeChunkIds
  let stripped := { batch.index with documents := withoutChunks batch.index.documents removed }
  if documents = [] ∧ batch.removedChunkIds = ∅ then (stripped, .ok ())
  else
    let swept := stripped.syncVectorIndexRemove (SortedSet.ascending removed)
    match swept.syncVectorIndexUpsert P (foldedRows stripped added) with
    | .error error => (swept, .error error)
    | .ok synced =>
      ({ synced.finalizeFilterFields batch.changedFilterFields with
        generation := synced.generation + 1 }, .ok ())

/-- The checks before a record of embedded documents is applied, and its vectors. -/
def checkEmbedded (documents : List WalEmbeddedDocument) (addedChunks : List WalAddedChunk) :
    Except CoreError ChunkVectors := do
  index.requireVectorsMutable
  let added ← foldVectors index.vectorDim addedChunks
  ensure (documents.map WalEmbeddedDocument.documentId).Nodup
    (invalid "WAL embedded payload repeats document id")
  return added

/-- Fold a record of embedded documents. -/
def applyEmbeddedDocumentsWal (documents : List WalEmbeddedDocument) (addedChunks : List WalAddedChunk)
    (removedChunkIds : List String) : VectorOnlyIndex × Except CoreError Unit :=
  match checkEmbedded index documents addedChunks with
  | .error error => (index, .error error)
  | .ok added =>
    let existing := reusableChunkVectors index (documents.flatMap WalEmbeddedDocument.chunkIds) added
    match foldDocuments policy added existing documents ⟨index, removedChunkIds.toFinset, ∅, ∅⟩ with
    | (batch, .error error) => (batch.index, .error error)
    | (batch, .ok ()) => batch.close P added documents

/-- Restore the token lists a record carries where its raw text was not logged. -/
def restoreWalVectorTokens (documentId : String) (tokens : Option (List (List String))) : VectorOnlyIndex :=
  match tokens, index.documents[documentId]? with
  | some lists, some record =>
    let tokenLists := lists.filter (· ≠ [])
    if record.tokenLists = tokenLists then index
    else { index with
      documents := index.documents.insert documentId { record with tokenLists := tokenLists }
      pendingLexicalClears := trackClear index.pendingLexicalClears documentId (tokenLists ≠ []) true
      pendingUpserts := insert documentId index.pendingUpserts
      generation := index.generation + 1 }
  | _, _ => index

/-- The vector document a log row stands for. -/
def vectorDocumentFromWal (row : WalVectorDocument) : CoreVectorDocument where
  documentId := row.documentId
  vector := row.vector
  metadata := row.metadata
  text := row.text
  patchMatrix := row.patchMatrix

/-- What a replayed mutation leaves, without its own log record. -/
def replayed (outcome : Outcome) (restore : VectorOnlyIndex → VectorOnlyIndex) :
    VectorOnlyIndex × Except CoreError Unit :=
  match outcome.returned with
  | .error error => (outcome.index, .error error)
  | .ok _ => (restore outcome.index, .ok ())

/-- Replay one operation. -/
def applyNativeWalRecord : WalOp → VectorOnlyIndex × Except CoreError Unit
  | .upsertVectors vectors =>
    replayed (upsertVectors P policy index (vectors.map vectorDocumentFromWal)) fun index =>
      vectors.foldl (fun index row => restoreWalVectorTokens index row.documentId row.tokens) index
  | .deleteDocuments documentIds => replayed (deleteDocuments index documentIds) id
  | .updateDocumentPayload documentId metadata text tokens =>
    replayed (updateDocumentPayload P policy index documentId metadata text) fun index =>
      restoreWalVectorTokens index documentId tokens
  | .applyEmbeddedDocuments documents addedChunks removedChunkIds =>
    applyEmbeddedDocumentsWal P policy index documents addedChunks removedChunkIds

/-- Replay records in order, moving the watermark; the first failure stops it. -/
def replayRecords (index : VectorOnlyIndex) : List WalRecord → VectorOnlyIndex × Except CoreError Unit
  | [] => (index, .ok ())
  | record :: rest =>
    match applyNativeWalRecord P policy index record.op with
    | (failed, .error error) => (failed, .error error)
    | (applied, .ok ()) =>
      replayRecords { applied with appliedLsn := max applied.appliedLsn (record.lsn.getD 0) } rest

/-- Replay records and clamp the generation up to the watermark. -/
def applyReplayRecords (records : List WalRecord) : VectorOnlyIndex × Except CoreError ℕ :=
  match replayRecords P policy index records with
  | (failed, .error error) => (failed, .error error)
  | (applied, .ok ()) =>
    ({ applied with generation := max applied.generation applied.appliedLsn }, .ok records.length)

/-- The checks on externally stamped records: all have numbers, which ascend. -/
def checkStamps : Option ℕ → List WalRecord → Except CoreError Unit
  | _, [] => .ok ()
  | previous, record :: rest =>
    match record.lsn with
    | none => .error (invalid "external WAL records must carry explicit LSNs")
    | some lsn =>
      if previous.any fun prior => lsn ≤ prior then
        .error (invalid "external WAL record LSNs must be strictly ascending")
      else checkStamps (some lsn) rest

/-- Apply externally stamped records in memory, those above the watermark. -/
def applyWalRecords (records : List WalRecord) : VectorOnlyIndex × Except CoreError ℕ :=
  match checkStamps none records with
  | .error error => (index, .error error)
  | .ok () =>
    let pending := records.filter fun record => record.lsn.any fun lsn => index.appliedLsn < lsn
    if pending = [] then (index, .ok 0) else applyReplayRecords P policy index pending

end LodeDB.Engine
