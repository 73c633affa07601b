import LodeDB.Core.Basic
import LodeDB.Core.Primitives
import LodeDB.Lib.Except
import LodeDB.Lib.JournalStands

/-!
# The original-precision sidecar

The sidecar keeps the vectors as the caller gave them. Its epochs have a life of their own: a fold rewrites the base
under the next epoch, and old epochs are collected after a root is in place. The checksums that identify a base in
its manifest are the base's digest here.
-/

namespace LodeDB.Storage

open ExceptRules Journal Traced TreeMapRules

/-- A file of the sidecar: encoded rows by stable id, and the ids it deletes. -/
structure TvvfSegment where
  dtype : TvvfDtype
  dim : ℕ
  rows : List (UInt64 × List UInt8)
  deletedIds : List UInt64
  deriving DecidableEq

/-- What a sidecar manifest records about its base. -/
structure TvvfInfo where
  vfEpoch : ℕ
  dtype : TvvfDtype
  dim : ℕ
  rowCount : ℕ
  deriving DecidableEq

/-- A sidecar manifest. -/
abbrev TvvfManifestEntry := Manifest TvvfInfo

/-- The files of the sidecar. -/
abbrev TvvfFiles := Files TvvfSegment TvvfSegment TvvfInfo

/-- An opened sidecar: its base and the deltas on top of it. -/
structure TvvfReader where
  vfEpoch : ℕ
  base : TvvfSegment
  deltas : List TvvfSegment
  lastDeltaSequence : Option ℕ
  deriving DecidableEq

/-- How the sidecar's files are read back: their digests and the size of their headers, which hold a few fields and
the deleted ids. -/
structure TvvfFormat where
  digests : Digests TvvfSegment TvvfSegment
  headerBytes : TvvfSegment → ℕ
  headerBytes_le : ∀ segment, headerBytes segment ≤ 1024 + 24 * segment.deletedIds.length

def tvvfCorrupt (message : String) : CoreError := corrupt ("corrupt tvvf sidecar: " ++ message)

def tvvfInvalid (message : String) : CoreError := corrupt ("invalid tvvf input: " ++ message)

def tvvfIo (message : String) : CoreError := corrupt ("tvvf I/O error: " ++ message)

/-- The largest row count a lookup index can hold. -/
def maxTvvfRows : ℕ := 4294967295

/-- The largest header a reader accepts. -/
def maxTvvfHeaderBytes : ℕ := 64 * 1024 * 1024

/-- The ids of a segment's rows. -/
def TvvfSegment.ids (segment : TvvfSegment) : List UInt64 := segment.rows.map Prod.fst

/-- The checks on rows before they are written. -/
def validateEncodedRows (dtype : TvvfDtype) (dim : ℕ) (rows : List (UInt64 × List UInt8)) :
    Except CoreError Unit := do
  ensure (0 < dim) (tvvfInvalid "tvvf dim must be positive")
  ensure (rows.length ≤ maxTvvfRows)
    (tvvfInvalid "tvvf row count exceeds the u32 lookup index limit")
  ensure (∀ row ∈ rows, row.2.length = rowStride dtype dim)
    (tvvfInvalid "tvvf encoded row has unexpected width")
  ensure (rows.map Prod.fst).Nodup (tvvfInvalid "tvvf input contains duplicate stable id")

/-- The checks on tombstones before they are written. -/
def validateDeleted (deleted upserts : List UInt64) : Except CoreError Unit := do
  ensure deleted.Nodup (tvvfInvalid "tvvf delta contains duplicate tombstones")
  ensure (deleted.all (· ∉ upserts))
    (tvvfInvalid "tvvf delta both upserts and deletes a stable id")

variable (format : TvvfFormat)

/-- The checks on a segment's header when it is read back. -/
def readHeader (segment : TvvfSegment) : Except CoreError Unit := do
  ensure (format.headerBytes segment ≤ maxTvvfHeaderBytes)
    (tvvfCorrupt "tvvf header is truncated or too large")
  ensure (0 < segment.dim) (tvvfCorrupt "tvvf segment has invalid dim")
  ensure (segment.rows.length ≤ maxTvvfRows) (tvvfCorrupt "tvvf segment has invalid row_count")
  ensure segment.deletedIds.Nodup (tvvfCorrupt "tvvf delta has duplicate deleted ids")

/-- The checks on a segment when its ids are indexed. -/
def readIndex (segment : TvvfSegment) : Except CoreError Unit := do
  readHeader format segment
  ensure segment.ids.Nodup (tvvfCorrupt "tvvf segment contains duplicate stable ids")
  ensure (segment.deletedIds.all (· ∉ segment.ids))
    (tvvfCorrupt "tvvf delta both upserts and deletes a stable id")

/-- What can be wrong with a listed delta. -/
def tvvfErrors : ReadErrors CoreError where
  outOfOrder := tvvfCorrupt "tvvf manifest has out-of-order segments"
  missing _ := tvvfIo "delta segment not found"
  checksum _ := tvvfCorrupt "tvvf delta segment failed checksum"

/-- Put one more delta on top of a reader's. -/
def TvvfReader.push (base : TvvfSegment) (deltas : List TvvfSegment) (segment : TvvfSegment) :
    Except CoreError (List TvvfSegment) := do
  ensure (segment.dtype = base.dtype ∧ segment.dim = base.dim)
    (tvvfCorrupt "tvvf delta segment has incompatible dtype or dim")
  return deltas ++ [segment]

/-- Open the sidecar a manifest describes. -/
def TvvfReader.openWith (files : TvvfFiles) (manifest : TvvfManifestEntry) : Except CoreError TvvfReader :=
  match files.bases[manifest.base.vfEpoch]? with
  | none => .error (tvvfIo "base segment not found")
  | some base => do
    readIndex format base
    ensure (manifest.base.dtype = base.dtype ∧ manifest.base.dim = base.dim ∧
        manifest.base.rowCount = base.rows.length ∧ manifest.sha256 = format.digests.base base)
      (tvvfCorrupt "tvvf manifest base does not match committed base identity")
    let deltas ← replayEntries tvvfErrors format.digests
      (fun deltas segment => do
        readIndex format segment
        TvvfReader.push base deltas segment)
      files manifest.base.vfEpoch none manifest.deltas []
    return ⟨manifest.base.vfEpoch, base, deltas, (manifest.deltas.getLast?).map (·.seq)⟩

variable (reader : TvvfReader)

/-- Whether each id a reader's deltas touch is live afterwards. -/
def TvvfReader.deltaStates : Std.ExtTreeMap UInt64 Bool compare :=
  reader.deltas.foldl (fun states segment =>
    writeAll (writeAll states (segment.deletedIds.map fun stableId => (stableId, false)))
      (segment.ids.map fun stableId => (stableId, true))) ∅

/-- How many ids a reader's deltas have deleted. -/
def TvvfReader.tombstones : ℕ :=
  (reader.deltaStates.toList.filter fun state => !state.2).length

/-- Read the delta a manifest lists last. -/
def loadLatestDeltaSegment (files : TvvfFiles) (manifest : TvvfManifestEntry) :
    Except CoreError (ℕ × TvvfSegment) :=
  match manifest.deltas.getLast? with
  | none => .error (tvvfCorrupt "tvvf manifest has no delta segment to load")
  | some entry =>
    match files.segment manifest.base.vfEpoch entry.seq with
    | none => .error (tvvfErrors.missing entry.seq)
    | some segment => do
      ensure (format.digests.segment segment = entry.sha256) (tvvfErrors.checksum entry.seq)
      readIndex format segment
      return (entry.seq, segment)

/-- Advance a reader by the delta just appended. -/
def TvvfReader.appendDeltaSegment (seq : ℕ) (segment : TvvfSegment) : Except CoreError TvvfReader := do
  ensure (reader.lastDeltaSequence.all (· < seq))
    (tvvfCorrupt "tvvf resident reader received an out-of-order segment")
  let deltas ← TvvfReader.push reader.base reader.deltas segment
  return { reader with deltas := deltas, lastDeltaSequence := some seq }

section Programs

/-- Record a base from encoded rows. An orphaned manifest keeps its numbering. -/
def recordEncodedBase (vfEpoch : ℕ) (dtype : TvvfDtype) (dim : ℕ) (rows : List (UInt64 × List UInt8)) :
    Program TvvfFiles (Op TvvfSegment TvvfSegment TvvfInfo) CoreError TvvfManifestEntry := do
  Program.lift (validateEncodedRows dtype dim rows)
  recordBase format.digests (·.getD 0) vfEpoch ⟨dtype, dim, rows, []⟩ ⟨vfEpoch, dtype, dim, rows.length⟩

/-- Put the committed manifest back before appending, so that no orphaned segment is promoted. -/
def restoreManifest (manifest : TvvfManifestEntry) :
    Program TvvfFiles (Op TvvfSegment TvvfSegment TvvfInfo) CoreError Unit :=
  write (.writeManifest manifest.base.vfEpoch manifest)

/-- Append encoded rows and tombstones. -/
def appendEncodedDelta (vfEpoch : ℕ) (upserts : List (UInt64 × List UInt8)) (deleted : List UInt64) :
    Program TvvfFiles (Op TvvfSegment TvvfSegment TvvfInfo) CoreError TvvfManifestEntry := do
  let files ← Program.look
  match files.bases[vfEpoch]? with
  | none => Program.fail (tvvfIo "base segment not found")
  | some base =>
    Program.lift (readHeader format base)
    Program.lift (validateEncodedRows base.dtype base.dim upserts)
    Program.lift (validateDeleted deleted (upserts.map Prod.fst))
    appendDelta format.digests (tvvfIo "manifest not found") vfEpoch
      ⟨base.dtype, base.dim, upserts, deleted⟩ upserts.length deleted.length

/-- The rows of deltas that no later delta touches. -/
def latestRows : List TvvfSegment → List (UInt64 × List UInt8)
  | [] => []
  | segment :: rest =>
    segment.rows.filter (fun row => rest.all fun later => row.1 ∉ later.deletedIds ∧ row.1 ∉ later.ids) ++
      latestRows rest

/-- The rows a fold keeps: untouched base rows, then the latest delta rows. -/
def TvvfReader.foldRows : List (UInt64 × List UInt8) :=
  reader.base.rows.filter (fun row =>
    reader.deltas.all fun later => row.1 ∉ later.deletedIds ∧ row.1 ∉ later.ids) ++ latestRows reader.deltas

/-- Rewrite an epoch's live rows as the base of the next epoch. -/
def fold (vfEpoch : ℕ) :
    Program TvvfFiles (Op TvvfSegment TvvfSegment TvvfInfo) CoreError TvvfManifestEntry := do
  let files ← Program.look
  match files.manifest vfEpoch with
  | none => Program.fail (tvvfIo "manifest not found")
  | some manifest =>
    let reader ← Program.lift (TvvfReader.openWith format files manifest)
    recordBase format.digests (·.getD 0) (vfEpoch + 1)
      ⟨reader.base.dtype, reader.base.dim, reader.foldRows, []⟩
      ⟨vfEpoch + 1, reader.base.dtype, reader.base.dim, reader.foldRows.length⟩

/-- Remove the epochs strictly older than the one before the live epoch. -/
def gcTvvfEpochs (liveEpoch : ℕ) :
    List ℕ → Program TvvfFiles (Op TvvfSegment TvvfSegment TvvfInfo) CoreError Unit
  | [] => return ()
  | epoch :: rest => do
    if liveEpoch ≤ epoch + 1 then gcTvvfEpochs liveEpoch rest
    else do
      write (.removeBase epoch)
      write (.removeDir epoch)
      gcTvvfEpochs liveEpoch rest

end Programs

/-- Rewrite a fresh base after this many delta segments. -/
def maxGenerationDeltaSegments : ℕ := 64

/-- Whether an appended sidecar is due for a fold. Without a reader the manifest counts the tombstones, which can
only fold early. -/
def tvvfShouldFold (manifest : TvvfManifestEntry) (reader : Option TvvfReader) : Bool :=
  let baseRows := max manifest.base.rowCount 1
  let upserts := manifest.deltas.foldl (fun count entry => count + entry.upserted) 0
  let deletes := manifest.deltas.foldl (fun count entry => count + entry.deleted) 0
  let tombstones := (reader.map (·.tombstones)).getD deletes
  maxGenerationDeltaSegments < manifest.deltas.length || baseRows ≤ upserts * 4 || baseRows ≤ tombstones * 4

end LodeDB.Storage
