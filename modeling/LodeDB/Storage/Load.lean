import LodeDB.Storage.Commit

/-!
# Loading a committed generation

A load follows the root manifest: it verifies each store's base and replays the listed segments in order. State and
vector replays check the counts each segment recorded. A payload store whose base file is gone loads as empty; a
sidecar that does not open is only disabled.
-/

namespace LodeDB.Storage

open ExceptRules Journal Traced TreeMapRules
open LodeDB.Filter (Metadata)
open LodeDB.Engine (MultiVecRecord IdMapIndex coreError)

/-- Zero-padding to eight digits. -/
def padded8 (number : ℕ) : String :=
  String.ofList (List.replicate (8 - (toString number).length) '0') ++ toString number

/-- The file name of a segment. -/
def segmentName (kind : StoreKind) (seq : ℕ) : String :=
  match kind with
  | .json => "delta-" ++ padded8 seq ++ ".jsd"
  | .tvim => "delta-" ++ padded8 seq ++ ".tvd"
  | .tvtext => "text-" ++ padded8 seq ++ ".txd"
  | .tvlex => "lexical-" ++ padded8 seq ++ ".lxd"
  | .tvmv => "mv-" ++ padded8 seq ++ ".mvd"
  | .tvann => ""
  | .tvvf => "delta-" ++ padded8 seq ++ ".tvfd"

/-- What can be wrong with a listed segment. -/
def readErrors (kind : StoreKind) : ReadErrors CoreError where
  outOfOrder := corrupt (kind.context ++ " manifest has out-of-order segments")
  missing seq := corrupt (kind.context ++ " segment is missing: " ++ segmentName kind seq)
  checksum seq := match kind with
    | .json => corrupt "state journal segment failed manifest checksum"
    | _ => corrupt (kind.context ++ " segment failed checksum: " ++ segmentName kind seq)

/-- The name messages use for a base. -/
def StoreKind.baseContext : StoreKind → String
  | .json => "state journal base snapshot"
  | .tvim => "TurboVec base snapshot"
  | kind => kind.context ++ " base"

variable (P : Primitives) (format : Format)

/-- Check a base against its manifest. -/
def verifyBase (kind : StoreKind) (base : Base kind) (manifest : Manifest (BaseInfo kind)) :
    Except CoreError Unit :=
  ensure ((format.digests kind).base base = manifest.sha256)
    (corrupt (kind.baseContext ++ " failed manifest checksum"))

section State

/-- The state while it is replayed: chunk rows by id, and the header of the last segment. -/
structure StateMaps where
  chunks : Std.ExtTreeMap String ChunkRow compare
  documentHashes : ByDocument String
  documentChunkIds : ByDocument (List String)
  documentMetadata : ByDocument Metadata
  lastHeader : Option StateHeader

/-- The state of a base. -/
def StateMaps.ofPayload (payload : StatePayload) : StateMaps where
  chunks := writeAll ∅ (payload.chunks.map fun row => (row.chunkId, row))
  documentHashes := payload.documentHashes
  documentChunkIds := payload.documentChunkIds
  documentMetadata := payload.documentMetadata
  lastHeader := none

variable (maps : StateMaps)

/-- Drop a document and its chunk rows. -/
def StateMaps.delete (documentId : String) : StateMaps :=
  { maps with
    chunks := eraseAll maps.chunks (maps.documentChunkIds[documentId]?.getD [])
    documentHashes := maps.documentHashes.erase documentId
    documentChunkIds := maps.documentChunkIds.erase documentId
    documentMetadata := maps.documentMetadata.erase documentId }

/-- Put a document in place of the one with its id. -/
def StateMaps.upsert (entry : StateEntry) : StateMaps :=
  { maps with
    chunks := writeAll (eraseAll maps.chunks (maps.documentChunkIds[entry.documentId]?.getD []))
      (entry.chunks.map fun row => (row.chunkId, row))
    documentHashes := maps.documentHashes.insert entry.documentId entry.documentHash
    documentChunkIds := maps.documentChunkIds.insert entry.documentId entry.chunkIds
    documentMetadata := maps.documentMetadata.insert entry.documentId entry.metadata }

/-- Replay one state delta: deletes, then upserts in order, then the counts. -/
def replayState (segment : StateSegment) : Except CoreError StateMaps := do
  let maps := segment.upsertedDocuments.foldl StateMaps.upsert
    (segment.deletedDocumentIds.foldl StateMaps.delete maps)
  ensure (maps.documentHashes.size = segment.documentCountAfter)
    (corrupt "state journal replay rejected: document count mismatch")
  ensure (maps.chunks.size = segment.chunkCountAfter)
    (corrupt "state journal replay rejected: chunk count mismatch")
  return { maps with lastHeader := some segment.stateHeader }

/-- A later header replaces the keys it has; rescore and cluster configurations stay. -/
def StateHeader.merge (header : StateHeader) : Option StateHeader → StateHeader
  | none => header
  | some last => { last with rescore := last.rescore.or header.rescore, ann := last.ann || header.ann }

/-- The state a replay leaves. -/
def StateMaps.toPayload (header : StateHeader) : StatePayload where
  header := header.merge maps.lastHeader
  chunks := maps.chunks.values
  documentHashes := maps.documentHashes
  documentChunkIds := maps.documentChunkIds
  documentMetadata := maps.documentMetadata

/-- Load the state. -/
def loadState (files : StoreFiles .json) (epoch : ℕ) (manifest : Option (Manifest Unit)) :
    Except CoreError StatePayload :=
  match files.bases[epoch]? with
  | none => .error (corrupt (StoreKind.json.baseContext ++ " could not be read"))
  | some base =>
    match manifest with
    | none => .ok base
    | some manifest => do
      verifyBase format .json base manifest
      let maps ← replayEntries (readErrors .json) (format.digests .json) replayState files epoch none
        manifest.deltas (StateMaps.ofPayload base)
      return maps.toPayload (StatePayload.header base)

end State

section Payloads

/-- Replay one delta of a payload store: deletes, then upserts. -/
def replayDocuments {V : Type} (documents : ByDocument V) (segment : DocumentSegment V) :
    Except CoreError (ByDocument V) :=
  .ok (writeAll (eraseAll documents segment.deleted) segment.upserted.toList)

/-- Load a payload store. -/
def loadDocuments {V : Type} (kind : StoreKind) (digests : DocumentDigests V) (files : DocumentFiles V) (epoch : ℕ)
    (manifest : Option (Manifest Unit)) : Except CoreError (ByDocument V) :=
  match manifest, files.bases[epoch]? with
  | none, _ => .ok ∅
  | some _, none => .ok ∅
  | some manifest, some base => do
    ensure (digests.base base = manifest.sha256)
      (corrupt (kind.baseContext ++ " failed manifest checksum"))
    replayEntries (readErrors kind) digests replayDocuments files epoch none manifest.deltas base

end Payloads

section Vectors

/-- Check the vector store's files without applying them. -/
def validateTvim (files : StoreFiles .tvim) (epoch : ℕ) (manifest : Option (Manifest UInt64)) :
    Except CoreError Unit :=
  match manifest with
  | none => .ok ()
  | some manifest =>
    match files.bases[epoch]? with
    | none => .error (corrupt (StoreKind.tvim.baseContext ++ " could not be read"))
    | some base => do
      verifyBase format .tvim base manifest
      replayEntries (readErrors .tvim) (format.digests .tvim) (fun _ _ => .ok ()) files epoch none
        manifest.deltas ()

/-- Replay one vector delta. Dropped rows have to be there, and the row count has to fit. -/
def replayTvim (index : IdMapIndex) (segment : TvimSegment) : Except CoreError IdMapIndex := do
  ensure (segment.calibrationFingerprint = P.calibrationFingerprint index.calibration)
    (corrupt "TurboVec delta replay rejected: segment calibration fingerprint mismatch")
  let removed := index.removeMany segment.removedStableIds
  ensure (removed.2 = segment.removedStableIds.length)
    (corrupt "TurboVec delta replay rejected: removed-id count mismatch")
  let index ← if segment.upserts = [] then .ok removed.1 else removed.1.addEncoded segment.upserts
  ensure (index.rows.size = segment.rowsAfter)
    (corrupt "TurboVec delta replay rejected: row count mismatch")
  return index

/-- Load the rows of the vector store. -/
def loadIdMap (files : StoreFiles .tvim) (epoch : ℕ) (manifest : Manifest UInt64) :
    Except CoreError TvimBase :=
  match (files.bases[epoch]? : Option TvimBase) with
  | none => .error (coreError "TurboVec file could not be read")
  | some base => do
    ensure
      (manifest.base = 0 ∨ manifest.base = P.calibrationFingerprint base.index.calibration)
      (corrupt "TurboVec delta replay rejected: base calibration fingerprint mismatch")
    let index ← replayEntries (readErrors .tvim) (format.digests .tvim) (replayTvim P) files epoch none
      manifest.deltas base.index
    return { base with index := index }

end Vectors

/-- What a load returns. -/
structure LoadedStore where
  generation : ℕ
  appliedLsn : ℕ
  baseEpoch : ℕ
  state : StatePayload
  tvimManifest : Option (Manifest UInt64)
  rawText : ByDocument String
  lexicalTokens : ByDocument (List (List String))
  multivec : ByDocument MultiVecRecord
  ann : Option (List (List String))
  tvvfManifest : Option TvvfManifestEntry
  tvvfReader : Option TvvfReader

/-- The value of a computation whose failure is only noted. -/
def ignoreError {α : Type} : Except CoreError α → Option α
  | .ok value => some value
  | .error _ => none

/-- Load the cluster assignment, for a state configured for it. A missing or broken one counts as absent. -/
def loadAnn (files : StoreFiles .tvann) (epoch : ℕ) (manifest : Option (Manifest Unit)) (configured : Bool) :
    Option (List (List String)) :=
  match manifest, (files.bases[epoch]? : Option (List (List String))) with
  | some manifest, some postings =>
    if configured ∧ (format.digests .tvann).base postings = manifest.sha256 then some postings else none
  | _, _ => none

/-- Load the generation a root describes. -/
def loadGenerationStore (disk : Disk) (root : CommitManifest) : Except CoreError LoadedStore := do
  let state ← loadState format (disk.stores .json) root.baseEpoch (root.manifests .json)
  validateTvim format (disk.stores .tvim) root.baseEpoch (root.manifests .tvim)
  let rawText ← loadDocuments .tvtext (format.digests .tvtext) (disk.stores .tvtext) root.baseEpoch
    (root.manifests .tvtext)
  let lexicalTokens ← loadDocuments .tvlex (format.digests .tvlex) (disk.stores .tvlex) root.baseEpoch
    (root.manifests .tvlex)
  let multivec ← loadDocuments .tvmv (format.digests .tvmv) (disk.stores .tvmv) root.baseEpoch
    (root.manifests .tvmv)
  return {
    generation := root.generation
    appliedLsn := root.appliedLsn
    baseEpoch := root.baseEpoch
    state := state
    tvimManifest := root.manifests .tvim
    rawText := rawText
    lexicalTokens := lexicalTokens
    multivec := multivec
    ann := loadAnn format (disk.stores .tvann) root.baseEpoch (root.manifests .tvann) state.header.ann
    tvvfManifest := root.manifests .tvvf
    tvvfReader := (root.manifests .tvvf).bind fun manifest =>
      ignoreError (TvvfReader.openWith format.tvvf (disk.stores .tvvf) manifest) }

end LodeDB.Storage
