import LodeDB.Engine.Load
import LodeDB.Lib.SortedSet

/-!
# Persisting an index

A persist flushes the original-precision sidecar, then writes a base, a watermark or a delta, and clears what was
pending. File writes and assignments to the index in memory are steps of one program, so an interrupted persist
leaves both as they were after some step.
-/

namespace LodeDB.Engine

open TreeMapRules Journal Traced
open LodeDB.Filter (DocSet)
open LodeDB.Storage
open SortedSet (ascending ascendingWords)
open Text (sha256Text stableUint64IdsForChunkIds)

/-- A writer: the directory and the index in memory. -/
structure Store where
  disk : Disk
  index : VectorOnlyIndex

/-- A step of a writer. -/
inductive Event
  | file (op : FileOp)
  | memory

/-- Programs of a writer. -/
abbrev StoreProgram := Program Store Event CoreError

/-- Run a program on the directory. -/
def onDisk {α : Type} (program : DiskProgram α) : StoreProgram α :=
  Program.zoom (·.disk) (fun store disk => { store with disk := disk }) Event.file program

/-- Assign to the index. -/
def assign (effect : VectorOnlyIndex → VectorOnlyIndex) : StoreProgram Unit :=
  Program.perform .memory fun store => { store with index := effect store.index }

variable (P : Primitives) (format : Format) (policy : TextPolicy)

section Payloads

variable (index : VectorOnlyIndex)

/-- The scalar part of the state. -/
def stateHeaderForIndex : StateHeader :=
  ⟨index.vectorDim, index.rescoreDtype, index.annConfigured, index.deleteCount, index.deletedChunkCount⟩

/-- The chunk rows of a document. -/
def chunkRows (documentId : String) (record : DocumentRecord) : List ChunkRow :=
  record.chunkIds.map fun chunkId => ⟨chunkId, sha256Text P chunkId, documentId⟩

/-- The journal row of a document. -/
def stateJournalDocumentEntry (documentId : String) (record : DocumentRecord) : StateEntry :=
  ⟨documentId, record.contentHash, record.chunkIds, record.metadata, chunkRows P documentId record⟩

/-- The state snapshot, its chunk rows sorted by id. -/
def statePayloadForIndex : StatePayload where
  header := stateHeaderForIndex index
  chunks := (index.documents.toList.flatMap fun document => chunkRows P document.1 document.2).insertionSort
    fun left right => left.chunkId ≤ right.chunkId
  documentHashes := index.documents.map fun _ record => record.contentHash
  documentChunkIds := index.documents.map fun _ record => record.chunkIds
  documentMetadata := index.documents.map fun _ record => record.metadata

/-- The payload of each document of a set that has one. -/
def payloadsFor {V : Type} (payload : DocumentRecord → Option V) (documents : Documents) (ids : DocSet) :
    ByDocument V :=
  collect (fun documentId record => if documentId ∈ ids then payload record else none) documents

/-- A document's tokens in the lexical store: an empty outer list has no entry. -/
def lexicalTokens (record : DocumentRecord) : Option (List (List String)) :=
  if record.tokenLists = [] then none else some record.tokenLists

/-- The fingerprint of the live index, zero if there is none. -/
def liveFingerprint : UInt64 :=
  (index.vectorIndex.map fun live => P.calibrationFingerprint live.index.calibration).getD 0

/-- The vector snapshot: the live index, or one built from the documents. -/
def tvimBaseForIndex : Except CoreError (Option (TvimBase × UInt64)) :=
  if index.vectorsSeeded then
    match index.vectorIndex with
    | some live => do
      ExceptRules.ensure (live.index.rows.size = index.chunkCount)
        (corrupt "live TurboVec index row count does not match JSON state")
      return some (⟨live.index, live.dim⟩, P.calibrationFingerprint live.index.calibration)
    | none =>
      let chunks := index.documents.toList.flatMap fun document =>
        document.2.chunks.map fun chunk => (chunk.chunkId, chunk.vector)
      if chunks = [] then .ok none
      else do
        let built ← IdMapIndex.addWithIds P ⟨∅, none⟩
          ((stableUint64IdsForChunkIds P (chunks.map Prod.fst)).zip (chunks.map Prod.snd))
        return some (⟨built, index.vectorDim⟩, P.calibrationFingerprint built.calibration)
  else .ok none

/-- The vector delta: the pending documents' rows as they are now, and the rows dropped. -/
def buildTvimDelta : Except CoreError (Option TvimSegment) :=
  match index.vectorIndex with
  | none => .ok none
  | some live => do
    let chunkIds := (ascending index.pendingUpserts).flatMap (chunkIdsOf index.documents)
    let stableIds := live.stableIdsForChunks chunkIds
    let rows ← live.index.exportEncoded stableIds
    return some ⟨stableIds.zip rows, ascendingWords index.pendingRemovedStableIds, live.index.rows.size,
      P.calibrationFingerprint live.index.calibration⟩

end Payloads

variable (index : VectorOnlyIndex) (generation : ℕ)

section Flush

/-- Whether the original-precision sidecar has anything to write. -/
def rescoreChanged : Bool :=
  !index.pendingRescoreUpserts.isEmpty || index.pendingRemovedStableIds ≠ ∅

/-- Write the sidecar's pending rows: a delta, or a first base. -/
def writeTvvf (dtype : TvvfDtype) (generation : ℕ) :
    DiskProgram TvvfManifestEntry :=
  onStore .tvvf (match index.tvvfManifest with
    | some previous => do
      restoreManifest previous
      appendEncodedDelta format.tvvf previous.base.vfEpoch index.pendingRescoreUpserts.toList
        (ascendingWords index.pendingRemovedStableIds)
    | none => recordEncodedBase format.tvvf generation dtype index.vectorDim
        index.pendingRescoreUpserts.toList)

/-- Advance the resident reader by the delta just appended. -/
def advanceReader (manifest : TvvfManifestEntry) : StoreProgram Unit := do
  let store ← Program.look
  match store.index.tvvfManifest, store.index.tvvfReader with
  | some _, some reader =>
    let latest ← Program.lift (loadLatestDeltaSegment format.tvvf (store.disk.stores .tvvf) manifest)
    let advanced ← Program.lift (reader.appendDeltaSegment latest.1 latest.2)
    assign fun index => { index with tvvfReader := some advanced }
  | _, _ => return ()

/-- Fold the sidecar into its next epoch when it is due, and read the new epoch back. -/
def foldTvvf (manifest : TvvfManifestEntry) : StoreProgram TvvfManifestEntry := do
  let store ← Program.look
  if tvvfShouldFold manifest store.index.tvvfReader then
    let folded ← onDisk (onStore .tvvf (fold format.tvvf manifest.base.vfEpoch))
    let store ← Program.look
    let reader ← Program.lift (TvvfReader.openWith format.tvvf (store.disk.stores .tvvf) folded)
    assign fun index => { index with tvvfReader := some reader }
    return folded
  else return manifest

/-- Flush the sidecar before the root is swapped. An unreadable one is dropped as soon as a row changes. -/
def flushTvvf : StoreProgram (Option TvvfManifestEntry) := do
  let store ← Program.look
  let index := store.index
  match index.rescoreDtype with
  | none => return index.tvvfManifest
  | some dtype =>
    if index.tvvfSidecarUnavailable && index.tvvfManifest.isSome then
      if rescoreChanged index then
        assign fun index => { index with tvvfManifest := none, rescoreDtype := none, dropTvvfManifest := true }
        return none
      else return index.tvvfManifest
    else if index.tvvfManifest.isSome && !rescoreChanged index then return index.tvvfManifest
    else
      let manifest ← onDisk (writeTvvf format index dtype generation)
      advanceReader format manifest
      let manifest ← foldTvvf format manifest
      assign fun index => { index with tvvfManifest := some manifest }
      return some manifest

/-- An assignment to the index leads from one condition to another. -/
def Assigns (during : Store → Event → Store → Prop) (effect : VectorOnlyIndex → VectorOnlyIndex)
    (pre post : Store → Prop) : Prop :=
  ∀ store, pre store → during store .memory ⟨store.disk, effect store.index⟩ ∧ post ⟨store.disk, effect store.index⟩

/-- What the steps of a flush keep: an invariant, and a property of manifests on their way. -/
structure FlushRules (generation : ℕ) (during : Store → Event → Store → Prop) (failed : CoreError → Store → Prop)
    (I : Store → Prop) (L : TvvfManifestEntry → Store → Prop) : Prop where
  fails : ∀ manifest store error, L manifest store → failed error store
  drops : Assigns during (fun index =>
    { index with tvvfManifest := none, rescoreDtype := none, dropTvvfManifest := true }) I I
  writes : ∀ start dtype, I start → start.index.rescoreDtype = some dtype →
    Triple (· = start) (onDisk (writeTvvf format start.index dtype generation)) during L failed
  reads : ∀ manifest reader, Assigns during (fun index => { index with tvvfReader := some reader }) (L manifest)
    (L manifest)
  folds : ∀ manifest, Triple (L manifest) (onDisk (onStore .tvvf (fold format.tvvf manifest.base.vfEpoch))) during
    L failed
  adopts : ∀ manifest, Assigns during (fun index => { index with tvvfManifest := some manifest }) (L manifest) I

section FlushRules

variable {format} {generation : ℕ} {during : Store → Event → Store → Prop} {failed : CoreError → Store → Prop}
  {I pre : Store → Prop} {L : TvvfManifestEntry → Store → Prop}

/-- Assign the sidecar's manifest and return it. -/
theorem Assigns.returning {effect : VectorOnlyIndex → VectorOnlyIndex} {manifest : Option TvvfManifestEntry}
    (h : Assigns during effect pre I) (hman : ∀ index, manifest = (effect index).tvvfManifest) :
    Triple pre (assign effect >>= fun _ => Pure.pure manifest) during
      (fun returned store => I store ∧ returned = store.index.tvvfManifest) failed :=
  Triple.via (fun _ store => I store ∧ manifest = store.index.tvvfManifest)
    (.perform fun store hstore => ⟨(h store hstore).1, (h store hstore).2, hman store.index⟩) fun _ =>
    .pure fun _ hstore => hstore

variable (h : FlushRules format generation during failed I L)

include h

theorem FlushRules.advanceReader (manifest : TvvfManifestEntry) :
    Triple (L manifest) (advanceReader format manifest) during (fun _ => L manifest) failed := by
  refine Triple.inspect fun looked _ => ?_
  split
  · refine Triple.liftThen (fun store error hstore _ => h.fails manifest store error hstore) fun latest _ => ?_
    refine Triple.liftThen (fun store error hstore _ => h.fails manifest store error hstore) fun advanced _ => ?_
    exact .perform (h.reads manifest advanced)
  · exact .pure fun _ hstore => hstore

theorem FlushRules.foldTvvf (manifest : TvvfManifestEntry) :
    Triple (L manifest) (foldTvvf format manifest) during L failed := by
  refine Triple.inspect fun looked _ => ?_
  split
  · refine (h.folds manifest).bind fun folded => Triple.inspect fun middle _ => ?_
    refine Triple.liftThen (fun store error hstore _ => h.fails folded store error hstore) fun reader _ => ?_
    exact Triple.via (fun _ => L folded) (.perform (h.reads folded reader)) fun _ => .pure fun _ hstore => hstore
  · exact .pure fun _ hstore => hstore

/-- A flush returns the manifest the index keeps. -/
theorem FlushRules.flushTvvf : Triple I (flushTvvf format generation) during
    (fun returned store => I store ∧ returned = store.index.tvvfManifest) failed := by
  refine Triple.named fun start hstart => Triple.lookThen ?_
  have hstarts : ∀ store, store = start → I store := fun _ heq => heq ▸ hstart
  have hkeep : Triple (· = start) (Pure.pure start.index.tvvfManifest : StoreProgram _) during
      (fun returned store => I store ∧ returned = store.index.tvvfManifest) failed :=
    .pure fun store heq => ⟨hstarts store heq, by rw [heq]⟩
  simp only
  split
  · exact hkeep
  · rename_i dtype hdtype
    split
    · split
      · exact (h.drops.returning fun _ => rfl).weakenPre hstarts
      · exact hkeep
    · split
      · exact hkeep
      · refine (h.writes start dtype hstart hdtype).bind fun manifest => ?_
        refine (h.advanceReader manifest).bind fun _ => (h.foldTvvf manifest).bind fun folded => ?_
        exact (h.adopts folded).returning fun _ => rfl

end FlushRules

end Flush

variable (ann : Option (List (List String)))

section Write

/-- What a base commit writes for an index. -/
def commitInput (tvim : Option (TvimBase × UInt64))
    (ann : Option (List (List String))) (tvvfManifest : Option TvvfManifestEntry) :
    GenerationCommitInput where
  generation := generation
  appliedLsn := max index.appliedLsn generation
  baseEpoch := generation
  state := statePayloadForIndex P index
  tvim := tvim
  rawText := if policy.storeText then payloadsFor (·.text) index.documents (keySet index.documents) else ∅
  lexicalTokens :=
    if policy.indexText then payloadsFor lexicalTokens index.documents (keySet index.documents) else ∅
  multivec := payloadsFor (·.patchMatrix) index.documents (keySet index.documents)
  ann := if tvim.isSome && index.annConfigured then ann else none
  tvvfManifest := tvvfManifest

/-- Write a full base, with the cluster assignment a query left in memory. -/
def writeIndexBase (generation : ℕ) : StoreProgram Unit := do
  let tvvfManifest ← flushTvvf format generation
  let store ← Program.look
  let tvim ← Program.lift (tvimBaseForIndex P store.index)
  onDisk do
    writeGenerationCommit format (commitInput P policy store.index generation tvim ann tvvfManifest)
    gcTvvf

/-- Re-seal the root at the current watermark. -/
def writeIndexWatermark : StoreProgram Unit := do
  let store ← Program.look
  onDisk do
    writeGenerationWatermark generation (max store.index.appliedLsn generation)
    gcTvvf

/-- What a delta commit appends. A store that is not retained is still written when a payload has to go from it. -/
def deltaInput (tvim : Option TvimSegment)
    (tvvfManifest : Option TvvfManifestEntry) : GenerationDeltaInput where
  generation := generation
  appliedLsn := max index.appliedLsn generation
  baseEpoch := index.baseEpoch
  state :=
    { upsertedDocuments := (ascending index.pendingUpserts).filterMap fun documentId =>
        index.documents[documentId]?.map (stateJournalDocumentEntry P documentId)
      deletedDocumentIds := ascending index.pendingDeletes
      stateHeader := stateHeaderForIndex index
      documentCountAfter := index.documents.size
      chunkCountAfter := index.chunkCount }
  tvim := tvim
  vectorsChanged := index.pendingVectorsChanged
  tvvfManifest := tvvfManifest
  dropTvvfManifest := index.dropTvvfManifest
  rawTextUpserts :=
    if policy.storeText then some (payloadsFor (·.text) index.documents index.pendingUpserts)
    else if index.pendingRawTextClears ≠ ∅ then some ∅
    else none
  rawTextClears := ascending index.pendingRawTextClears
  lexicalUpserts :=
    if policy.indexText then some (payloadsFor lexicalTokens index.documents index.pendingUpserts)
    else if index.pendingLexicalClears ≠ ∅ then some ∅
    else none
  lexicalClears := ascending index.pendingLexicalClears
  multivecUpserts := some (payloadsFor (·.patchMatrix) index.documents index.pendingUpserts)
  multivecClears := ascending index.pendingMultivecClears
  documentDeletes := ascending index.pendingDeletes

/-- Append a delta onto the live base. -/
def writeIndexDelta : StoreProgram Unit := do
  let tvvfManifest ← flushTvvf format generation
  let store ← Program.look
  let tvim ← Program.lift (buildTvimDelta P store.index)
  onDisk do
    writeGenerationDelta format (deltaInput P policy store.index generation tvim tvvfManifest)
    gcTvvf

end Write

section Persist

variable (index : VectorOnlyIndex)

/-- Whether no mutation waits for a commit. -/
def nothingPending : Bool :=
  index.pendingUpserts = ∅ && index.pendingDeletes = ∅ && index.pendingLexicalClears = ∅ &&
    index.pendingRawTextClears = ∅ && index.pendingMultivecClears = ∅ &&
    index.pendingRemovedStableIds = ∅ && index.pendingRescoreUpserts.isEmpty

/-- Whether only the applied watermark has to be committed. -/
def watermarkOnly : Bool :=
  nothingPending index && index.persistedAppliedLsn < index.appliedLsn

/-- Whether an index is durable as it is. -/
def nothingToPersist : Bool :=
  index.baseEpoch ≠ 0 && nothingPending index && !watermarkOnly index && !index.forceBaseRewrite

/-- A rewrite without a mutation moves to a generation after the base. -/
def bumpedGeneration : ℕ :=
  if (watermarkOnly index || index.forceBaseRewrite) && index.generation ≤ index.baseEpoch then
    index.baseEpoch + 1
  else index.generation

/-- The generation a persist commits. -/
def commitGeneration : ℕ := max (bumpedGeneration index) 1

/-- Whether a pending mutation changes retained text. -/
def pendingText : Bool :=
  policy.storeText && (index.pendingDeletes ≠ ∅ || index.pendingRawTextClears ≠ ∅ ||
    decide (∃ documentId ∈ index.pendingUpserts,
      (index.documents[documentId]?.any fun record => record.text.isSome) = true))

/-- Whether a pending mutation changes retained tokens. -/
def pendingLexical : Bool :=
  policy.indexText && (index.pendingDeletes ≠ ∅ || index.pendingLexicalClears ≠ ∅ ||
    decide (∃ documentId ∈ index.pendingUpserts,
      (index.documents[documentId]?.any fun record => record.tokenLists ≠ []) = true))

/-- Whether the base has the files a delta needs. The patch matrices' base is not asked for. -/
def nativeBaseAppendable (disk : Disk) (baseEpoch : ℕ) (needText needLexical : Bool) : Bool :=
  baseEpoch ≠ 0 && (disk.stores .json).bases.contains baseEpoch &&
    (!needText || (disk.stores .tvtext).bases.contains baseEpoch) &&
    (!needLexical || (disk.stores .tvlex).bases.contains baseEpoch)

/-- Whether the backlog on the base warrants a fresh one. -/
def generationShouldCompact (disk : Disk) (baseEpoch documentCount : ℕ) : Bool :=
  let backlog := generationDeltaBacklog disk baseEpoch
  backlog.1 ≠ 0 && (maxGenerationDeltaSegments ≤ backlog.1 || max documentCount 1 ≤ backlog.2 * 4)

/-- Whether a persist rewrites the base. -/
def needsBase (store : Store) : Bool :=
  let index := store.index
  index.forceBaseRewrite || index.baseEpoch = 0 || !index.vectorsSeeded ||
    liveFingerprint P index ≠ index.baseCalibrationFingerprint ||
    !nativeBaseAppendable store.disk index.baseEpoch (pendingText policy index)
      (pendingLexical policy index) ||
    generationShouldCompact store.disk index.baseEpoch index.documents.size

/-- Note that a base was written. -/
def VectorOnlyIndex.rebased (generation : ℕ) (fingerprint : UInt64) : VectorOnlyIndex :=
  { index with
    baseEpoch := generation
    baseCalibrationFingerprint := fingerprint
    forceBaseRewrite := false }

/-- Note that everything pending is committed. -/
def VectorOnlyIndex.committed (generation : ℕ) : VectorOnlyIndex :=
  { index with
    pendingUpserts := ∅
    pendingDeletes := ∅
    pendingLexicalClears := ∅
    pendingRawTextClears := ∅
    pendingMultivecClears := ∅
    pendingRemovedStableIds := ∅
    pendingRescoreUpserts := ∅
    dropTvvfManifest := false
    tvvfSidecarUnavailable := false
    pendingNewStableIds := ∅
    appliedLsn := max index.appliedLsn generation
    persistedAppliedLsn := max index.appliedLsn generation
    pendingVectorsChanged := false }

/-- Commit an index that is not durable yet. -/
def commitIndex (index : VectorOnlyIndex) (base : Bool) :
    StoreProgram Unit := do
  let generation := commitGeneration index
  assign fun index => { index with generation := bumpedGeneration index }
  if base then
    writeIndexBase P format policy ann generation
    assign (·.rebased generation (liveFingerprint P index))
  else if watermarkOnly index then writeIndexWatermark generation
  else writeIndexDelta P format policy generation
  assign (·.committed generation)

/-- Persist an index. -/
def persistIndexGeneration : StoreProgram Unit := do
  let store ← Program.look
  if nothingToPersist store.index then return ()
  else commitIndex P format policy ann store.index (needsBase P policy store)

end Persist

end LodeDB.Engine
