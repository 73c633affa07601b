import LodeDB.Storage.Layout

/-!
# Generation commits

A base commit writes every store anew under a fresh epoch, swaps the root and collects old epochs. A delta commit
appends to the stores that changed and carries the other manifests over. A watermark commit re-seals the root. The
root manifest is written last; until then a store's manifest on disk runs ahead of the root's copy.
-/

namespace LodeDB.Storage

open Journal Traced TreeMapRules
open LodeDB.Engine (MultiVecRecord)

/-- The name a store's messages use. -/
def StoreKind.context : StoreKind → String
  | .json => "state journal"
  | .tvim => "TurboVec delta"
  | .tvtext => "document text"
  | .tvlex => "lexical index"
  | .tvmv => "multi-vector"
  | .tvann => "tvann index"
  | .tvvf => "tvvf"

/-- An append onto a journal whose manifest is not there. -/
def manifestMissing : StoreKind → CoreError
  | .json => corrupt "state journal manifest is missing"
  | kind => corrupt (kind.context ++ " manifest could not be read")

variable (format : Format)

/-- Record a base of one store. The cluster assignment has no journal beside it. -/
def recordStore (kind : StoreKind) (epoch : ℕ) (content : Base kind) (info : BaseInfo kind) :
    DiskProgram (Manifest (BaseInfo kind)) :=
  onStore kind
    (if kind = .tvann then do
      write (.writeBase epoch content)
      return ⟨(format.digests kind).base content, info, [], 0⟩
    else recordBase (format.digests kind) (·.getD 0 + 1) epoch content info)

/-- A commit that writes every store anew. -/
structure GenerationCommitInput where
  generation : ℕ
  appliedLsn : ℕ
  baseEpoch : ℕ
  state : StatePayload
  tvim : Option (TvimBase × UInt64)
  rawText : ByDocument String
  lexicalTokens : ByDocument (List (List String))
  multivec : ByDocument MultiVecRecord
  ann : Option (List (List String))
  tvvfManifest : Option TvvfManifestEntry

/-- The bases a commit writes: an empty store of payloads is skipped. -/
def GenerationCommitInput.bases (input : GenerationCommitInput) :
    (kind : StoreKind) → Option (Base kind × BaseInfo kind)
  | .json => some (input.state, ())
  | .tvim => input.tvim
  | .tvtext => if input.rawText.isEmpty then none else some (input.rawText, ())
  | .tvlex => if input.lexicalTokens.isEmpty then none else some (input.lexicalTokens, ())
  | .tvmv => if input.multivec.isEmpty then none else some (input.multivec, ())
  | .tvann => input.ann.map fun postings => (postings, ())
  | .tvvf => none

/-- Record the given bases one after another. -/
def recordStores (bases : (kind : StoreKind) → Option (Base kind × BaseInfo kind)) (epoch : ℕ) :
    List StoreKind → Manifests → DiskProgram Manifests
  | [], manifests => return manifests
  | kind :: rest, manifests =>
    match bases kind with
    | none => recordStores bases epoch rest manifests
    | some (content, info) => do
      let manifest ← recordStore format kind epoch content info
      recordStores bases epoch rest (Function.update manifests kind (some manifest))

/-- The stores a base commit writes, in order. -/
def baseKinds : List StoreKind := [.json, .tvim, .tvtext, .tvlex, .tvmv, .tvann]

/-- The stores with a journal that a delta commit may append to, in order. -/
def deltaKinds : List StoreKind := [.json, .tvim, .tvtext, .tvlex, .tvmv]

/-- Remove one epoch's files. The patch matrices' files are not collected. -/
def gcEpoch (epoch : ℕ) : List StoreKind → DiskProgram Unit
  | [] => return ()
  | kind :: rest => do
    onStore kind (write (.removeBase epoch))
    onStore kind (write (.removeDir epoch))
    gcEpoch epoch rest

/-- Remove several epochs' files. -/
def gcEpochs : List ℕ → DiskProgram Unit
  | [] => return ()
  | epoch :: rest => do
    gcEpoch epoch [.json, .tvim, .tvtext, .tvlex, .tvann]
    gcEpochs rest

/-- The epochs with a state base that are neither live nor among the newest ones. -/
def staleEpochs (disk : Disk) (liveEpoch retainedEpochs : ℕ) : List ℕ :=
  let epochs := (disk.stores .json).bases.keys.reverse
  epochs.filter fun epoch => epoch ∉ epochs.take retainedEpochs ∧ epoch ≠ liveEpoch

/-- Collect old epochs, keeping the newest ones and the live one. -/
def gcAfterBaseRewrite (liveEpoch retainedEpochs : ℕ) : DiskProgram Unit := do
  let disk ← Program.look
  gcEpochs (staleEpochs disk liveEpoch retainedEpochs)

/-- The sidecar epoch a root refers to. -/
def CommitManifest.vfEpoch (root : CommitManifest) : Option ℕ :=
  (root.manifests .tvvf).map fun manifest => TvvfInfo.vfEpoch manifest.base

/-- Collect old sidecar epochs, going by the root that is in place. -/
def gcTvvf : DiskProgram Unit := do
  let disk ← Program.look
  match disk.root.bind (·.vfEpoch) with
  | none => return ()
  | some liveEpoch =>
    onStore .tvvf (gcTvvfEpochs liveEpoch
      ((disk.stores .tvvf).bases.keys ++ (disk.stores .tvvf).dirs.keys))

/-- How many epochs with a state base a base commit retains. -/
def retainedEpochs : ℕ := 4

/-- The root manifest of a commit. -/
def buildCommitBody (generation appliedLsn baseEpoch : ℕ) (manifests : Manifests) : CommitManifest :=
  ⟨generation, max appliedLsn generation, baseEpoch, manifests⟩

/-- Commit by writing every store anew. -/
def writeGenerationCommit (input : GenerationCommitInput) : DiskProgram Unit := do
  let manifests ← recordStores format input.bases input.baseEpoch baseKinds fun _ => none
  writeRoot (buildCommitBody input.generation input.appliedLsn input.baseEpoch
    (Function.update manifests .tvvf input.tvvfManifest))
  gcAfterBaseRewrite input.baseEpoch retainedEpochs

/-- A commit that appends what changed. A payload map is given when its store is written. -/
structure GenerationDeltaInput where
  generation : ℕ
  appliedLsn : ℕ
  baseEpoch : ℕ
  state : StateSegment
  tvim : Option TvimSegment
  vectorsChanged : Bool
  tvvfManifest : Option TvvfManifestEntry
  dropTvvfManifest : Bool
  rawTextUpserts : Option (ByDocument String)
  rawTextClears : List String
  lexicalUpserts : Option (ByDocument (List (List String)))
  lexicalClears : List String
  multivecUpserts : Option (ByDocument MultiVecRecord)
  multivecClears : List String
  documentDeletes : List String

/-- The delta of a store of payloads. A delete or a clear is written as an explicit delete, where the store is there. -/
def documentSegment {V : Type} (upserts : Option (ByDocument V)) (deletes clears : List String) (present : Bool) :
    Option (DocumentSegment V × ℕ × ℕ) :=
  match upserts with
  | none => none
  | some upserts =>
    if upserts.isEmpty = false ∨ ((deletes ≠ [] ∨ clears ≠ []) ∧ present = true) then
      some (⟨upserts, deletes ++ clears⟩, upserts.size, (deletes ++ clears).length)
    else none

variable (input : GenerationDeltaInput)

/-- The segments a delta commit appends, with their upsert and delete counts. -/
def GenerationDeltaInput.segments (previous : CommitManifest) :
    (kind : StoreKind) → Option (Segment kind × ℕ × ℕ)
  | .json => some (input.state, input.state.upsertedDocuments.length, input.state.deletedDocumentIds.length)
  | .tvim => match input.tvim with
    | none => none
    | some segment =>
      if segment.upserts = [] ∧ segment.removedStableIds = [] then none
      else some (segment, segment.upserts.length, segment.removedStableIds.length)
  | .tvtext => documentSegment input.rawTextUpserts input.documentDeletes input.rawTextClears
      (previous.manifests .tvtext).isSome
  | .tvlex => documentSegment input.lexicalUpserts input.documentDeletes input.lexicalClears
      (previous.manifests .tvlex).isSome
  | .tvmv => documentSegment input.multivecUpserts input.documentDeletes input.multivecClears
      (previous.manifests .tvmv).isSome
  | .tvann => none
  | .tvvf => none

/-- Append the given segments, onto whatever each journal's manifest on disk says. -/
def appendStores (segments : (kind : StoreKind) → Option (Segment kind × ℕ × ℕ)) (epoch : ℕ) :
    List StoreKind → Manifests → DiskProgram Manifests
  | [], manifests => return manifests
  | kind :: rest, manifests =>
    match segments kind with
    | none => appendStores segments epoch rest manifests
    | some (content, upserted, deleted) => do
      let manifest ← onStore kind (appendDelta (format.digests kind) (manifestMissing kind) epoch content
        upserted deleted)
      appendStores segments epoch rest (Function.update manifests kind (some manifest))

section EachStore

variable {Item : StoreKind → Type} (items : (kind : StoreKind) → Option (Item kind))
  (run : (kind : StoreKind) → Item kind → DiskProgram (Manifest (BaseInfo kind)))

/-- What both loops over the stores do: run a program for each item, and note its manifest. -/
def eachStore : List StoreKind → Manifests → DiskProgram Manifests
  | [], manifests => return manifests
  | kind :: rest, manifests =>
    match items kind with
    | none => eachStore rest manifests
    | some item => do
      let manifest ← run kind item
      eachStore rest (Function.update manifests kind (some manifest))

theorem recordStores_eq (bases : (kind : StoreKind) → Option (Base kind × BaseInfo kind)) (epoch : ℕ)
    (kinds : List StoreKind) (manifests : Manifests) : recordStores format bases epoch kinds manifests =
      eachStore bases (fun kind base => recordStore format kind epoch base.1 base.2) kinds manifests := by
  induction kinds generalizing manifests with
  | nil => rfl
  | cons kind rest ih =>
    unfold recordStores eachStore
    cases bases kind <;> simp only [ih]

theorem appendStores_eq (segments : (kind : StoreKind) → Option (Segment kind × ℕ × ℕ)) (epoch : ℕ)
    (kinds : List StoreKind) (manifests : Manifests) : appendStores format segments epoch kinds manifests =
      eachStore segments (fun kind segment => onStore kind (appendDelta (format.digests kind)
        (manifestMissing kind) epoch segment.1 segment.2.1 segment.2.2)) kinds manifests := by
  induction kinds generalizing manifests with
  | nil => rfl
  | cons kind rest ih =>
    unfold appendStores eachStore
    cases segments kind <;> simp only [ih]

variable {items run} {during : Disk → FileOp → Disk → Prop} {failed : CoreError → Disk → Prop}

/-- An invariant of the stores still to come, the manifests noted and the directory. -/
theorem eachStore_triple {I : List StoreKind → Manifests → Disk → Prop}
    (hskip : ∀ kind rest manifests disk, items kind = none → I (kind :: rest) manifests disk → I rest manifests disk)
    (hrun : ∀ kind rest manifests item, items kind = some item → Triple (I (kind :: rest) manifests) (run kind item)
      during (fun manifest => I rest (Function.update manifests kind (some manifest))) failed)
    (kinds : List StoreKind) (manifests : Manifests) :
    Triple (I kinds manifests) (eachStore items run kinds manifests) during (I []) failed := by
  induction kinds generalizing manifests with
  | nil => exact .pure fun _ h => h
  | cons kind rest ih =>
    unfold eachStore
    split
    · rename_i hnone
      exact (ih manifests).weakenPre (fun disk => hskip kind rest manifests disk hnone)
    · rename_i item hitem
      exact (hrun kind rest manifests item hitem).bind fun manifest => ih _

end EachStore

section Collect

variable {I : Disk → Prop} {during : Disk → FileOp → Disk → Prop} {failed : CoreError → Disk → Prop}

/-- Running two programs on one store one after another. -/
theorem onStore_bind {α β : Type} {kind : StoreKind}
    (program : Program (StoreFiles kind) (Op (Base kind) (Segment kind) (BaseInfo kind)) CoreError α)
    (next : α → Program (StoreFiles kind) (Op (Base kind) (Segment kind) (BaseInfo kind)) CoreError β) :
    onStore kind (program >>= next) = onStore kind program >>= fun value => onStore kind (next value) :=
  zoom_bind (fun disk => setStore_same disk kind) (fun disk => setStore_stores disk kind)
    (fun disk => setStore_setStore disk kind) next

/-- Removing an epoch's base or directory keeps an invariant. -/
def Removable (I : Disk → Prop) (during : Disk → FileOp → Disk → Prop) (kind : StoreKind) (epoch : ℕ) : Prop :=
  ∀ op : Op (Base kind) (Segment kind) (BaseInfo kind), op = .removeBase epoch ∨ op = .removeDir epoch →
    ∀ disk, I disk → during disk (.store kind op) (disk.apply (.store kind op)) ∧ I (disk.apply (.store kind op))

theorem Removable.triple {kind : StoreKind} {epoch : ℕ} (h : Removable I during kind epoch)
    {op : Op (Base kind) (Segment kind) (BaseInfo kind)} (hop : op = .removeBase epoch ∨ op = .removeDir epoch) :
    Triple I (onStore kind (write op)) during (fun _ => I) failed := by
  change Triple I (Program.perform (FileOp.store kind op) (·.apply (.store kind op))) _ _ _
  exact .perform (h op hop)

theorem gcEpoch_triple {epoch : ℕ} {kinds : List StoreKind} (h : ∀ kind ∈ kinds, Removable I during kind epoch) :
    Triple I (gcEpoch epoch kinds) during (fun _ => I) failed := by
  induction kinds with
  | nil => exact .pure fun _ h => h
  | cons kind rest ih =>
    have hkind := h kind List.mem_cons_self
    exact (hkind.triple (.inl rfl)).bind fun _ => (hkind.triple (.inr rfl)).bind fun _ =>
      ih fun other hother => h other (List.mem_cons_of_mem _ hother)

theorem gcEpochs_triple {epochs : List ℕ}
    (h : ∀ epoch ∈ epochs, ∀ kind, kind ≠ .tvvf → Removable I during kind epoch) :
    Triple I (gcEpochs epochs) during (fun _ => I) failed := by
  induction epochs with
  | nil => exact .pure fun _ h => h
  | cons epoch rest ih =>
    refine Triple.bind (gcEpoch_triple fun kind hkind => h epoch List.mem_cons_self kind ?_) fun _ =>
      ih fun other hother => h other (List.mem_cons_of_mem _ hother)
    rintro rfl
    exact absurd hkind (by decide)

/-- Collecting after a base rewrite removes other epochs only. -/
theorem gcAfterBaseRewrite_triple (live count : ℕ)
    (h : ∀ epoch, epoch ≠ live → ∀ kind, kind ≠ .tvvf → Removable I during kind epoch) :
    Triple I (gcAfterBaseRewrite live count) during (fun _ => I) failed := by
  refine Triple.inspect fun disk _ => gcEpochs_triple fun epoch hepoch => h epoch ?_
  simp only [staleEpochs, List.mem_filter, decide_eq_true_eq] at hepoch
  exact hepoch.2.2

theorem gcTvvfEpochs_triple (live : ℕ) (epochs : List ℕ)
    (h : ∀ epoch, epoch ≠ live → Removable I during .tvvf epoch) :
    Triple I (onStore .tvvf (gcTvvfEpochs live epochs)) during (fun _ => I) failed := by
  induction epochs with
  | nil => exact ⟨fun _ _ => trivial, fun _ _ h _ => h, fun _ _ _ herror => by cases herror⟩
  | cons epoch rest ih =>
    unfold gcTvvfEpochs
    split
    · exact ih
    · have hepoch := h epoch (by omega)
      rw [onStore_bind]
      refine (hepoch.triple (.inl rfl)).bind fun _ => ?_
      rw [onStore_bind]
      exact (hepoch.triple (.inr rfl)).bind fun _ => ih

/-- Collecting sidecar epochs removes other epochs than the root's only. -/
theorem gcTvvf_triple {root : Option CommitManifest} (hroot : ∀ disk, I disk → disk.root = root)
    (h : ∀ live, root.bind (·.vfEpoch) = some live → ∀ epoch, epoch ≠ live → Removable I during .tvvf epoch) :
    Triple I gcTvvf during (fun _ => I) failed := by
  refine Triple.inspect fun disk hdisk => ?_
  rw [hroot disk hdisk]
  split
  · exact .pure fun _ h => h
  · rename_i live hlive
    exact gcTvvfEpochs_triple live _ (h live hlive)

end Collect

/-- The sidecar manifests of a delta commit: the cluster assignment goes once a vector changed; the
original-precision one is dropped, replaced or carried over. -/
def GenerationDeltaInput.seal (manifests : Manifests) : Manifests :=
  Function.update
    (Function.update manifests .tvann (if input.vectorsChanged then none else manifests .tvann))
    .tvvf (if input.dropTvvfManifest then none else input.tvvfManifest.or (manifests .tvvf))

/-- Commit by appending what changed onto the live base. -/
def writeGenerationDelta : DiskProgram Unit := do
  let disk ← Program.look
  match disk.root with
  | none => Program.fail (corrupt "generation delta requires an existing commit manifest")
  | some previous =>
    let manifests ← appendStores format (input.segments previous) input.baseEpoch deltaKinds previous.manifests
    writeRoot (buildCommitBody input.generation input.appliedLsn input.baseEpoch (input.seal manifests))

/-- Commit by re-sealing the root at a new generation and watermark. -/
def writeGenerationWatermark (generation appliedLsn : ℕ) : DiskProgram Unit := do
  let disk ← Program.look
  match disk.root with
  | none => Program.fail (corrupt "watermark commit requires an existing commit manifest")
  | some previous =>
    writeRoot (buildCommitBody generation appliedLsn previous.baseEpoch previous.manifests)

/-- The state journal's backlog: its segments and the documents they carry. -/
def generationDeltaBacklog (disk : Disk) (baseEpoch : ℕ) : ℕ × ℕ :=
  match (disk.stores .json).manifest baseEpoch with
  | none => (0, 0)
  | some manifest => (manifest.deltas.length,
      manifest.deltas.foldl (fun count entry => count + entry.upserted + entry.deleted) 0)

end LodeDB.Storage
