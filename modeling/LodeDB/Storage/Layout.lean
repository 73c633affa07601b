import LodeDB.Engine.NativeIndex
import LodeDB.Storage.Tvvf

/-!
# The files of a generation store

A committed generation is a root manifest with a copy of each store's manifest. Stores are journaled per base epoch:
the state, the vector rows, the retained text, the lexical tokens and the patch matrices; the cluster assignment has
a base only, and the original-precision sidecar has epochs of its own. File contents are kept as what they decode to.
-/

namespace LodeDB.Storage

open Journal Traced TreeMapRules
open LodeDB.Filter (Metadata)
open LodeDB.Engine (MultiVecRecord IdMapIndex)

/-- The stores of a generation. -/
inductive StoreKind
  | json
  | tvim
  | tvtext
  | tvlex
  | tvmv
  | tvann
  | tvvf
  deriving DecidableEq

/-- The scalar part of the state. -/
structure StateHeader where
  nativeDim : ℕ
  rescore : Option TvvfDtype
  ann : Bool
  deleteCount : ℕ
  deletedChunkCount : ℕ
  deriving DecidableEq

/-- A chunk row of the state. -/
structure ChunkRow where
  chunkId : String
  contentHash : String
  documentId : String
  deriving DecidableEq

/-- Something for each of some documents, by their ids. -/
abbrev ByDocument (V : Type) := Std.ExtTreeMap String V compare

/-- The state snapshot. -/
structure StatePayload where
  header : StateHeader
  chunks : List ChunkRow
  documentHashes : ByDocument String
  documentChunkIds : ByDocument (List String)
  documentMetadata : ByDocument Metadata

/-- One upserted document of a state delta. -/
structure StateEntry where
  documentId : String
  documentHash : String
  chunkIds : List String
  metadata : Metadata
  chunks : List ChunkRow

/-- A state delta, with the counts its replay has to reach. -/
structure StateSegment where
  upsertedDocuments : List StateEntry
  deletedDocumentIds : List String
  stateHeader : StateHeader
  documentCountAfter : ℕ
  chunkCountAfter : ℕ

/-- A vector snapshot. -/
structure TvimBase where
  index : IdMapIndex
  dim : ℕ

/-- A vector delta: encoded rows, dropped rows, and what its replay has to reach. -/
structure TvimSegment where
  upserts : List (UInt64 × EncodedRow)
  removedStableIds : List UInt64
  rowsAfter : ℕ
  calibrationFingerprint : UInt64

/-- A delta of a store that maps document ids to payloads. -/
structure DocumentSegment (V : Type) where
  upserted : ByDocument V
  deleted : List String

/-- The files of such a store. -/
abbrev DocumentFiles (V : Type) := Files (ByDocument V) (DocumentSegment V) Unit

/-- The digests of its files. -/
abbrev DocumentDigests (V : Type) := Journal.Digests (ByDocument V) (DocumentSegment V)

/-- The base content of each store. -/
abbrev Base : StoreKind → Type
  | .json => StatePayload
  | .tvim => TvimBase
  | .tvtext => ByDocument String
  | .tvlex => ByDocument (List (List String))
  | .tvmv => ByDocument MultiVecRecord
  | .tvann => List (List String)
  | .tvvf => TvvfSegment

/-- The segment content of each store. The cluster assignment has no journal. -/
abbrev Segment : StoreKind → Type
  | .json => StateSegment
  | .tvim => TvimSegment
  | .tvtext => DocumentSegment String
  | .tvlex => DocumentSegment (List (List String))
  | .tvmv => DocumentSegment MultiVecRecord
  | .tvann => Empty
  | .tvvf => TvvfSegment

/-- What a store's manifest records about its base, besides the digest. -/
abbrev BaseInfo : StoreKind → Type
  | .tvim => UInt64
  | .tvvf => TvvfInfo
  | _ => Unit

/-- A manifest of each store that is present. -/
abbrev Manifests := (kind : StoreKind) → Option (Manifest (BaseInfo kind))

/-- The root manifest. -/
structure CommitManifest where
  generation : ℕ
  appliedLsn : ℕ
  baseEpoch : ℕ
  manifests : Manifests

/-- The files of one store. -/
abbrev StoreFiles (kind : StoreKind) := Files (Base kind) (Segment kind) (BaseInfo kind)

/-- The persistence directory of one index. -/
structure Disk where
  root : Option CommitManifest
  stores : (kind : StoreKind) → StoreFiles kind

/-- A file of the directory. -/
inductive File
  | root
  | part (kind : StoreKind) (part : Part)
  deriving DecidableEq

/-- An atomic step on the directory. -/
inductive FileOp
  | store (kind : StoreKind) (op : Op (Base kind) (Segment kind) (BaseInfo kind))
  | root (manifest : CommitManifest)

/-- How files are read back: their digests, and the sidecar's header sizes. -/
structure Format where
  digests : (kind : StoreKind) → Digests (Base kind) (Segment kind)
  tvvfHeaderBytes : TvvfSegment → ℕ
  tvvfHeaderBytes_le : ∀ segment, tvvfHeaderBytes segment ≤ 1024 + 24 * segment.deletedIds.length

/-- The sidecar's part of a format. -/
def Format.tvvf (format : Format) : TvvfFormat :=
  ⟨format.digests .tvvf, format.tvvfHeaderBytes, format.tvvfHeaderBytes_le⟩

/-- A choice of the digests for concrete runs. -/
def Format.sample : Format where
  digests _ := ⟨fun _ => "", fun _ => ""⟩
  tvvfHeaderBytes _ := 0
  tvvfHeaderBytes_le _ := Nat.zero_le _

/-- A directory without any file. -/
def Disk.empty : Disk := ⟨none, fun _ => .empty⟩

/-- Replace the files of one store. -/
def Disk.setStore (disk : Disk) (kind : StoreKind) (files : StoreFiles kind) : Disk :=
  { disk with stores := Function.update disk.stores kind files }

/-- Take one step. -/
def Disk.apply (disk : Disk) : FileOp → Disk
  | .store kind op => disk.setStore kind ((disk.stores kind).apply op)
  | .root manifest => { disk with root := some manifest }

/-- Whether a step writes or removes a file. -/
def FileOp.Modifies : FileOp → File → Prop
  | .store kind op, .part other part => other = kind ∧ op.Modifies part
  | .root _, .root => True
  | _, _ => False

/-- The epoch under which a root finds the files of a store. -/
def CommitManifest.epochOf (root : CommitManifest) :
    (kind : StoreKind) → Manifest (BaseInfo kind) → ℕ
  | .tvvf, manifest => TvvfInfo.vfEpoch manifest.base
  | _, _ => root.baseEpoch

theorem CommitManifest.epochOf_of_ne {root : CommitManifest} {kind : StoreKind} (hkind : kind ≠ .tvvf)
    (manifest : Manifest (BaseInfo kind)) : root.epochOf kind manifest = root.baseEpoch := by
  cases kind with
  | tvvf => exact absurd rfl hkind
  | _ => rfl

/-- The base snapshots and delta segments a root names. -/
def CommitManifest.Names (root : CommitManifest) : File → Prop
  | .root => False
  | .part kind part => ∃ manifest, root.manifests kind = some manifest ∧
      manifest.Names (root.epochOf kind manifest) part

/-- Programs on the directory. -/
abbrev DiskProgram := Program Disk FileOp CoreError

/-- Run a program on one store. -/
def onStore {α : Type} (kind : StoreKind)
    (program : Program (StoreFiles kind) (Op (Base kind) (Segment kind) (BaseInfo kind)) CoreError α) :
    DiskProgram α :=
  Program.zoom (fun disk => disk.stores kind) (fun disk files => disk.setStore kind files)
    (fun op => FileOp.store kind op) program

/-- Put a root manifest in place. -/
def writeRoot (manifest : CommitManifest) : DiskProgram Unit :=
  Program.perform (.root manifest) (·.apply (.root manifest))

section SetStore

variable (disk : Disk) (kind : StoreKind)

@[simp] theorem setStore_same (files : StoreFiles kind) : (disk.setStore kind files).stores kind = files :=
  Function.update_self kind files disk.stores

theorem setStore_other {other : StoreKind} (files : StoreFiles kind) (hne : other ≠ kind) :
    (disk.setStore kind files).stores other = disk.stores other :=
  Function.update_of_ne hne files disk.stores

@[simp] theorem setStore_stores : disk.setStore kind (disk.stores kind) = disk := by
  rw [Disk.setStore, Function.update_eq_self]

@[simp] theorem setStore_setStore (first second : StoreFiles kind) :
    (disk.setStore kind first).setStore kind second = disk.setStore kind second := by
  rw [Disk.setStore, Disk.setStore, Disk.setStore, Function.update_idem]

end SetStore

end LodeDB.Storage
