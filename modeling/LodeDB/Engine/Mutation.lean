import LodeDB.Engine.Ownership
import LodeDB.Text.Chunk

/-!
# What a mutation returns, logs and retains

Every mutation leaves an index and either a result or an error; a result comes with the record
that WAL mode logs for it. The record keeps only what the handle's text policy allows.
-/

namespace LodeDB.Engine

open TreeMapRules
open LodeDB.Filter (Metadata DocSet)
open Text (tokenize)

/-- A vector document as the write-ahead log records it. -/
structure WalVectorDocument where
  documentId : String
  vector : Embedding
  metadata : Metadata
  text : Option String
  tokens : Option (List (List String))
  patchMatrix : Option MultiVecRecord
  deriving DecidableEq

/-- An embedded document as the write-ahead log records it. -/
structure WalEmbeddedDocument where
  documentId : String
  contentHash : String
  metadata : Metadata
  text : Option String
  chunkIds : List String
  tokens : List (List String)
  deriving DecidableEq

/-- An embedded chunk as the write-ahead log records it. -/
structure WalAddedChunk where
  chunkId : String
  documentId : String
  contentHash : String
  embedding : Embedding
  deriving DecidableEq

/-- The replayable operations. The text of a payload update is absent, null or set. -/
inductive WalOp
  | upsertVectors (vectors : List WalVectorDocument)
  | deleteDocuments (documentIds : List String)
  | updateDocumentPayload (documentId : String) (metadata : Option Metadata)
      (text : Option (Option String)) (tokens : Option (List (List String)))
  | applyEmbeddedDocuments (documents : List WalEmbeddedDocument) (addedChunks : List WalAddedChunk)
      (removedChunkIds : List String)
  deriving DecidableEq

/-- Counts a mutation reports. -/
structure CoreMutationResult where
  documentsUpserted : ℕ
  documentsDeleted : ℕ
  chunksUpserted : ℕ
  chunksDeleted : ℕ
  generation : ℕ
  deriving DecidableEq

/-- A successful mutation: its counts and the record it logs, if it logs one. -/
structure Mutated where
  result : CoreMutationResult
  wal : Option WalOp
  deriving DecidableEq

/-- The index a call leaves and what it returns. -/
structure Outcome where
  index : VectorOnlyIndex
  returned : Except CoreError Mutated

/-- A call either leaves the index as it was or moves it to the next generation. -/
def Advances (before after : VectorOnlyIndex) : Prop :=
  after = before ∨ after.generation = before.generation + 1

/-- What a mutation leaves: a kept property at the next generation, or the old index, always on failure. -/
structure Lands (Inv : VectorOnlyIndex → Prop) (start : VectorOnlyIndex) (outcome : Outcome) : Prop where
  keeps : Inv outcome.index
  advances : Advances start outcome.index
  failed : ∀ error, outcome.returned = .error error → outcome.index = start

section Lands

variable {Inv : VectorOnlyIndex → Prop} {start next : VectorOnlyIndex}

/-- A mutation that fails its checks. -/
theorem lands_of_failed (hstart : Inv start) (error : CoreError) : Lands Inv start ⟨start, .error error⟩ :=
  ⟨hstart, .inl rfl, fun _ _ => rfl⟩

/-- A mutation that succeeds. -/
theorem lands_of_ok (hkeeps : Inv next) (hadv : Advances start next) (mutated : Mutated) :
    Lands Inv start ⟨next, .ok mutated⟩ :=
  ⟨hkeeps, hadv, fun _ herror => by cases herror⟩

/-- A property that only the core of an index matters for. -/
def OfCore (Inv : VectorOnlyIndex → Prop) : Prop :=
  ∀ index other : VectorOnlyIndex, Inv index → other.core = index.core → Inv other

end Lands

/-- The tokens of a caption a policy keeps: whenever raw text or tokens are retained. -/
def captionTokens (P : Primitives) (policy : TextPolicy) (text : Option String) : List String :=
  if policy.indexText || policy.storeText then (text.map (tokenize P)).getD [] else []

/-- A caption's token lists: one list, or none if it has no token. -/
def captionTokenLists (tokens : List String) : List (List String) := if tokens = [] then [] else [tokens]

/-- The raw text a policy keeps. -/
def retainedText (policy : TextPolicy) (text : Option String) : Option String :=
  if policy.storeText then text else none

/-- Follow one sidecar payload: back, it cancels its clear; gone, it records one. -/
def trackClear (pending : DocSet) (documentId : String) (retained had : Bool) : DocSet :=
  if retained then pending.erase documentId
  else if had then insert documentId pending
  else pending

end LodeDB.Engine
