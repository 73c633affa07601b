import LodeDB.Engine.Mutation
import LodeDB.Storage.Load

/-!
# Opening a store for writing

A writable open loads the committed generation and turns it into an index: every document of the
state with its payloads, the vectors read back from the compact rows, and the live vector index, which
has to hold exactly the rows of the state's chunks.
-/

namespace LodeDB.Engine

open ExceptRules TreeMapRules Journal
open LodeDB.Filter (Metadata)
open LodeDB.Storage
open Text (stableUint64IdsForChunkIds chunkText tokenize)

variable (P : Primitives) (format : Format)

/-- The check on an index's dimension. -/
def validateIndexShape (vectorDim : ℕ) : Except CoreError Unit := do
  ensure (0 < vectorDim ∧ vectorDim ≤ 65536) (invalid "vector_dim must be between 1 and 65536")
  ensure (vectorDim % 8 = 0) (invalid "vector_dim must be a positive multiple of 8")

/-- The vectors of compact rows; an unknown id is an error. -/
def IdMapIndex.reconstructRows (index : IdMapIndex) (stableIds : List UInt64) :
    Except CoreError (List Embedding) :=
  stableIds.mapM fun stableId =>
    match index.rows[stableId]? with
    | some row => .ok (P.reconstructRow (index.calibration.getD ⟨[], []⟩) row)
    | none => .error (corrupt "unknown id")

variable (disk : Disk) (loaded : LoadedStore)

/-- The vectors of the committed chunks, if the store has any vectors. -/
def reconstructTvimVectors (vectorDim : ℕ) :
    Except CoreError (Option ChunkVectors) :=
  match loaded.tvimManifest with
  | none => .ok none
  | some manifest =>
    if loaded.state.chunks = [] then .ok (some ∅)
    else do
      let chunkIds := loaded.state.chunks.map (·.chunkId)
      let base ← loadIdMap P format (disk.stores .tvim) loaded.baseEpoch manifest
      ensure (base.dim = vectorDim)
        (invalid "persisted TurboVec dimension does not match JSON state")
      let rows ← base.index.reconstructRows P (stableUint64IdsForChunkIds P chunkIds)
      return some (writeAll ∅ (chunkIds.zip rows))

/-- Load the live index: its rows have to be exactly those of the given chunks. -/
def TurboVecNativeIndex.loadWithManifestIds (baseEpoch : ℕ) (manifest : Manifest UInt64)
    (chunkDocumentIds : List (String × String)) (expectedDim : ℕ) : Except CoreError TurboVecNativeIndex := do
  let base ← loadIdMap P format (disk.stores .tvim) baseEpoch manifest
  ensure (0 < base.dim) (invalid "native_dim must be positive")
  ensure (base.dim = expectedDim)
    (corrupt "persisted TurboVec dimension does not match the committed state")
  let stableIds := stableUint64IdsForChunkIds P (chunkDocumentIds.map Prod.fst)
  ensure (base.index.rows.size = stableIds.length)
    (corrupt "persisted TurboVec row count does not match the committed state's chunks")
  ensure (stableIds.all base.index.rows.contains)
    (corrupt "committed state lists a chunk absent from the persisted TurboVec index")
  return fromIdParts base.index chunkDocumentIds stableIds base.dim

/-- The tokens of a retained text, chunk by chunk. -/
def tokenListsFromRawText (text : String) (chunkCharacterLimit : ℕ) : List (List String) :=
  match chunkText text chunkCharacterLimit with
  | .ok pieces => pieces.map (tokenize P)
  | .error _ => []

variable (loaded : LoadedStore) (vectors : ChunkVectors)

/-- One document of a loaded store. A chunk without a row gets zeros; missing tokens come from the text. -/
def loadedRecord (vectorDim chunkCharacterLimit : ℕ)
    (documentId contentHash : String) : DocumentRecord :=
  let text := loaded.rawText[documentId]?
  { contentHash := contentHash
    metadata := loaded.state.documentMetadata[documentId]?.getD ∅
    text := text
    tokenLists := loaded.lexicalTokens[documentId]?.getD
      ((text.map fun text => tokenListsFromRawText P text chunkCharacterLimit).getD [])
    chunks := (loaded.state.documentChunkIds[documentId]?.getD []).map fun chunkId =>
      ⟨chunkId, vectors[chunkId]?.getD (List.replicate vectorDim 0)⟩
    patchMatrix := loaded.multivec[documentId]? }

variable (documents : Documents)

/-- Every chunk id with its document, in document order. -/
def chunkDocumentIds : List (String × String) :=
  documents.toList.flatMap fun document => document.2.chunkIds.map fun chunkId => (chunkId, document.1)

/-- The index of a loaded store, around its documents and its live vector index. -/
def loadedIndex (vectorIndex : Option TurboVecNativeIndex) (vectorsSeeded : Bool)
    : VectorOnlyIndex where
  vectorDim := loaded.state.header.nativeDim
  rescoreDtype := loaded.state.header.rescore
  annConfigured := loaded.state.header.ann
  documents := documents
  generation := max loaded.generation loaded.appliedLsn
  appliedLsn := loaded.appliedLsn
  persistedAppliedLsn := loaded.appliedLsn
  vectorsSeeded := vectorsSeeded
  vectorsResident := true
  deleteCount := loaded.state.header.deleteCount
  deletedChunkCount := loaded.state.header.deletedChunkCount
  vectorIndex := vectorIndex
  pendingRescoreUpserts := ∅
  tvvfReader := if loaded.state.header.rescore.isSome then loaded.tvvfReader else none
  tvvfManifest := loaded.tvvfManifest
  tvvfSidecarUnavailable := loaded.state.header.rescore.isSome && loaded.tvvfManifest.isSome &&
    loaded.tvvfReader.isNone
  dropTvvfManifest := false
  forceBaseRewrite := false
  fieldIndexes := none
  allDocs := keySet documents
  chunkOwnerById := writeAll ∅ (chunkDocumentIds documents)
  baseEpoch := loaded.baseEpoch
  baseCalibrationFingerprint := (vectorIndex.map fun live => P.calibrationFingerprint live.index.calibration).getD 0
  pendingUpserts := ∅
  pendingDeletes := ∅
  pendingLexicalClears := ∅
  pendingRawTextClears := ∅
  pendingMultivecClears := ∅
  pendingRemovedStableIds := ∅
  pendingNewStableIds := ∅
  pendingVectorsChanged := false

/-- The live vector index of a loaded store; without vectors there is none. -/
def loadVectorIndex (vectorsSeeded : Bool) :
    Except CoreError (Option TurboVecNativeIndex) :=
  match loaded.tvimManifest with
  | some manifest =>
    if vectorsSeeded then (TurboVecNativeIndex.loadWithManifestIds P format disk loaded.baseEpoch manifest
      (chunkDocumentIds documents) loaded.state.header.nativeDim).map some
    else .ok none
  | none => .ok none

variable (chunkCharacterLimit : ℕ)

/-- The documents of a loaded store. -/
def loadedDocuments : Documents :=
  loaded.state.documentHashes.map
    (loadedRecord P loaded vectors loaded.state.header.nativeDim chunkCharacterLimit)

/-- The index of a loaded store. -/
def indexFromLoadedStore : Except CoreError VectorOnlyIndex := do
  let vectorDim := loaded.state.header.nativeDim
  validateIndexShape vectorDim
  let vectors ← reconstructTvimVectors P format disk loaded vectorDim
  let vectorsSeeded := loaded.state.chunks.isEmpty || vectors.isSome
  let documents := loadedDocuments P loaded (vectors.getD ∅) chunkCharacterLimit
  let vectorIndex ← loadVectorIndex P format disk loaded documents vectorsSeeded
  return loadedIndex P loaded documents vectorIndex vectorsSeeded

/-- Open the store for writing. Without a commit there is no index to load. -/
def openStore : Except CoreError (Option VectorOnlyIndex) :=
  match disk.root with
  | none => .ok none
  | some root => do
    let loaded ← loadGenerationStore format disk root
    (indexFromLoadedStore P format disk loaded chunkCharacterLimit).map some

end LodeDB.Engine
