import LodeDB.Core.Primitives
import LodeDB.Filter.Predicate

/-!
# Documents, chunks and ingest plans
-/

namespace LodeDB.Engine

open LodeDB.Filter (Metadata)

/-- A document's patch matrix: its dtype, patch count and encoded bytes. -/
structure MultiVecRecord where
  dtype : String
  patchCount : ℕ
  bytes : List UInt8
  deriving DecidableEq

/-- A chunk of a document with its vector. -/
structure ChunkRecord where
  chunkId : String
  vector : Embedding
  deriving DecidableEq

/-- A resident document. -/
structure DocumentRecord where
  contentHash : String
  metadata : Metadata
  text : Option String
  tokenLists : List (List String)
  chunks : List ChunkRecord
  patchMatrix : Option MultiVecRecord
  deriving DecidableEq

/-- The chunk ids of a document, in order. -/
def DocumentRecord.chunkIds (record : DocumentRecord) : List String := record.chunks.map (·.chunkId)

/-- The documents of an index. -/
abbrev Documents := Std.ExtTreeMap String DocumentRecord compare

/-- A chunk row handed to the vector index. -/
structure CoreVectorChunk where
  chunkId : String
  documentId : String
  embedding : Embedding
  deriving DecidableEq

/-- A document given by its vector. -/
structure CoreVectorDocument where
  documentId : String
  vector : Embedding
  metadata : Metadata
  text : Option String
  patchMatrix : Option MultiVecRecord
  deriving DecidableEq

/-- A document given by its text. -/
structure CoreDocument where
  documentId : String
  text : String
  metadata : Metadata
  deriving DecidableEq

/-- A planned chunk. -/
structure PlanDocumentChunk where
  chunkId : String
  text : String
  tokens : List String
  needsEmbedding : Bool
  deriving DecidableEq

/-- A planned document. -/
structure PlanDocument where
  documentId : String
  metadata : Metadata
  text : Option String
  chunks : List PlanDocumentChunk
  deriving DecidableEq

/-- The planned chunk ids of a document, in order. -/
def PlanDocument.chunkIds (document : PlanDocument) : List String :=
  document.chunks.map (·.chunkId)

/-- A chunk the caller has to embed. -/
structure PlanEmbeddingChunk where
  documentId : String
  chunkId : String
  text : String
  deriving DecidableEq

/-- A text upsert planned against one generation of an index. -/
structure IngestPlan where
  baseGeneration : ℕ
  documents : List PlanDocument
  chunksToEmbed : List PlanEmbeddingChunk
  storeText : Bool
  indexText : Bool
  deriving DecidableEq

/-- Which text payloads a handle retains. -/
structure TextPolicy where
  storeText : Bool
  indexText : Bool
  deriving DecidableEq

end LodeDB.Engine
