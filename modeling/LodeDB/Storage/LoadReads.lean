import LodeDB.Lib.Reading
import LodeDB.Storage.Load

/-!
# The files a load reads

The load of a generation again, with the files it opens on the way. It returns what the load returns, it
opens no file that the root does not name, and of a generation whose files are in place it opens every one
unless it rejects the generation or its original-precision sidecar.
-/

namespace LodeDB.Storage

open ExceptRules Journal Reading

variable {manifest : Option (Manifest Unit)}

/-- A load that notes the files it opens. -/
abbrev LoadReading := Reading (StoreKind × Part) CoreError

/-- The base and the segments a manifest names. -/
def manifestFiles {X : Type} (kind : StoreKind) (epoch : ℕ) (manifest : Manifest X) : List (StoreKind × Part) :=
  (kind, .base epoch) :: manifest.deltas.map fun entry => (kind, .segment epoch entry.seq)

/-- The files of a store that may be absent. -/
def namedFiles {X : Type} (kind : StoreKind) (epoch : Manifest X → ℕ) : Option (Manifest X) → List (StoreKind × Part)
  | none => []
  | some manifest => manifestFiles kind (epoch manifest) manifest

/-- The files of one store that a root names. -/
def CommitManifest.storeFiles (root : CommitManifest) (kind : StoreKind) : List (StoreKind × Part) :=
  namedFiles kind (root.epochOf kind) (root.manifests kind)

/-- Every store, in the order a load reads them. -/
def allKinds : List StoreKind := [.json, .tvim, .tvtext, .tvlex, .tvmv, .tvann, .tvvf]

/-- The files a root names. -/
def CommitManifest.files (root : CommitManifest) : List (StoreKind × Part) := allKinds.flatMap root.storeFiles

section Entries

variable {B G X V : Type} (kind : StoreKind) (errors : ReadErrors CoreError) (digests : Journal.Digests B G)
  (step : V → G → Except CoreError V) (files : Files B G X) (epoch : ℕ)

/-- Read and replay the listed segments. -/
def readEntries : Option ℕ → List DeltaEntry → V → LoadReading V
  | _, [], value => pure value
  | previous, entry :: rest, value =>
    if previous.any (entry.seq ≤ ·) then lift (.error errors.outOfOrder)
    else match files.segment epoch entry.seq with
      | none => lift (.error (errors.missing entry.seq))
      | some content => do
        openFile (kind, .segment epoch entry.seq)
        if digests.segment content = entry.sha256 then
          let value ← lift (step value content)
          readEntries (some entry.seq) rest value
        else lift (.error (errors.checksum entry.seq))

theorem readEntries_result (previous : Option ℕ) (entries : List DeltaEntry) (value : V) :
    (readEntries kind errors digests step files epoch previous entries value).result =
      replayEntries errors digests step files epoch previous entries value := by
  induction entries generalizing previous value with
  | nil => rfl
  | cons entry rest ih =>
    unfold readEntries replayEntries
    split_ifs
    · rfl
    cases files.segment epoch entry.seq with
    | none => rfl
    | some content =>
      dsimp only
      split_ifs
      · simp only [bind_result, openFile_result, lift_result, ih]
        rfl
      · rfl

theorem readEntries_opens (previous : Option ℕ) (entries : List DeltaEntry) (value : V) :
    Opens (entries.map fun entry => (kind, Part.segment epoch entry.seq))
      (readEntries kind errors digests step files epoch previous entries value) := by
  induction entries generalizing previous value with
  | nil => exact opens_pure value
  | cons entry rest ih =>
    unfold readEntries
    split_ifs
    · exact opens_error _ _
    cases files.segment epoch entry.seq with
    | none => exact opens_error _ _
    | some content =>
      dsimp only
      split_ifs
      · exact (opens_openFile _).bind fun _ _ => (opens_lift _).bind fun value _ => ih _ value
      · exact (opens_openFile _).bind fun _ _ => opens_error _ _

end Entries

variable (format : Format)

/-- Read the state. -/
def readState (files : StoreFiles .json) (epoch : ℕ) (manifest : Option (Manifest Unit)) : LoadReading StatePayload :=
  match files.bases[epoch]? with
  | none => lift (.error (corrupt (StoreKind.json.baseContext ++ " could not be read")))
  | some base => do
    openFile (.json, .base epoch)
    match manifest with
    | none => return base
    | some manifest =>
      lift (verifyBase format .json base manifest)
      let maps ← readEntries .json (readErrors .json) (format.digests .json) replayState files epoch none
        manifest.deltas (StateMaps.ofPayload base)
      return maps.toPayload (StatePayload.header base)

/-- Read a payload store. -/
def readDocuments {V : Type} (kind : StoreKind) (digests : DocumentDigests V) (files : DocumentFiles V) (epoch : ℕ)
    (manifest : Option (Manifest Unit)) : LoadReading (ByDocument V) :=
  match manifest, files.bases[epoch]? with
  | none, _ => return ∅
  | some _, none => return ∅
  | some manifest, some base => do
    openFile (kind, .base epoch)
    lift (ensure (digests.base base = manifest.sha256)
      (corrupt (kind.baseContext ++ " failed manifest checksum")))
    readEntries kind (readErrors kind) digests replayDocuments files epoch none manifest.deltas base

/-- Read the vector store's files without applying them. -/
def readTvim (files : StoreFiles .tvim) (epoch : ℕ) (manifest : Option (Manifest UInt64)) : LoadReading Unit :=
  match manifest with
  | none => return ()
  | some manifest =>
    match files.bases[epoch]? with
    | none => lift (.error (corrupt (StoreKind.tvim.baseContext ++ " could not be read")))
    | some base => do
      openFile (.tvim, .base epoch)
      lift (verifyBase format .tvim base manifest)
      readEntries .tvim (readErrors .tvim) (format.digests .tvim) (fun _ _ => .ok ()) files epoch none
        manifest.deltas ()

/-- Read the cluster assignment, for a state that is configured for it. -/
def readAnn (files : StoreFiles .tvann) (epoch : ℕ) (manifest : Option (Manifest Unit)) (configured : Bool) :
    LoadReading (Option (List (List String))) :=
  match manifest, (files.bases[epoch]? : Option (List (List String))) with
  | some manifest, some postings =>
    if configured then do
      openFile (.tvann, .base epoch)
      return if (format.digests .tvann).base postings = manifest.sha256 then some postings else none
    else return none
  | _, _ => return none

variable (files : TvvfFiles)

/-- Read the original-precision sidecar. -/
def readTvvf (manifest : TvvfManifestEntry) : LoadReading TvvfReader :=
  match files.bases[manifest.base.vfEpoch]? with
  | none => lift (.error (tvvfIo "base segment not found"))
  | some base => do
    openFile (.tvvf, .base manifest.base.vfEpoch)
    lift (readIndex format.tvvf base)
    lift (ensure (manifest.base.dtype = base.dtype ∧ manifest.base.dim = base.dim ∧
        manifest.base.rowCount = base.rows.length ∧ manifest.sha256 = format.tvvf.digests.base base)
      (tvvfCorrupt "tvvf manifest base does not match committed base identity"))
    let deltas ← readEntries .tvvf tvvfErrors format.tvvf.digests
      (fun deltas segment => do
        readIndex format.tvvf segment
        TvvfReader.push base deltas segment)
      files manifest.base.vfEpoch none manifest.deltas []
    return ⟨manifest.base.vfEpoch, base, deltas, (manifest.deltas.getLast?).map (·.seq)⟩

/-- Read the sidecar a root may name; one that does not open is only noted. -/
def readSidecar : Option TvvfManifestEntry → LoadReading (Option TvvfReader)
  | none => return none
  | some manifest => (readTvvf format files manifest).orNone

/-- Read the generation a root describes. -/
def readGenerationStore (disk : Disk) (root : CommitManifest) : LoadReading LoadedStore := do
  let state ← readState format (disk.stores .json) root.baseEpoch (root.manifests .json)
  readTvim format (disk.stores .tvim) root.baseEpoch (root.manifests .tvim)
  let rawText ← readDocuments .tvtext (format.digests .tvtext) (disk.stores .tvtext) root.baseEpoch
    (root.manifests .tvtext)
  let lexicalTokens ← readDocuments .tvlex (format.digests .tvlex) (disk.stores .tvlex) root.baseEpoch
    (root.manifests .tvlex)
  let multivec ← readDocuments .tvmv (format.digests .tvmv) (disk.stores .tvmv) root.baseEpoch
    (root.manifests .tvmv)
  let ann ← readAnn format (disk.stores .tvann) root.baseEpoch (root.manifests .tvann) state.header.ann
  let tvvfReader ← readSidecar format (disk.stores .tvvf) (root.manifests .tvvf)
  return {
    generation := root.generation
    appliedLsn := root.appliedLsn
    baseEpoch := root.baseEpoch
    state := state
    tvimManifest := root.manifests .tvim
    rawText := rawText
    lexicalTokens := lexicalTokens
    multivec := multivec
    ann := ann
    tvvfManifest := root.manifests .tvvf
    tvvfReader := tvvfReader }

/-! ### What a reading returns -/

variable {format}

theorem readState_result (files : StoreFiles .json) (epoch : ℕ) (manifest : Option (Manifest Unit)) :
    (readState format files epoch manifest).result = loadState format files epoch manifest := by
  unfold readState loadState
  cases files.bases[epoch]? with
  | none => rfl
  | some base =>
    cases manifest with
    | none => rfl
    | some manifest =>
      simp only [bind_result, openFile_result, lift_result, readEntries_result, pure_result]
      rfl

theorem readDocuments_result {V : Type} (kind : StoreKind) (digests : DocumentDigests V) (files : DocumentFiles V)
    (epoch : ℕ) (manifest : Option (Manifest Unit)) :
    (readDocuments kind digests files epoch manifest).result = loadDocuments kind digests files epoch manifest := by
  unfold readDocuments loadDocuments
  cases manifest with
  | none => rfl
  | some manifest =>
    cases files.bases[epoch]? with
    | none => rfl
    | some base =>
      simp only [bind_result, openFile_result, lift_result, readEntries_result]
      rfl

theorem readTvim_result (files : StoreFiles .tvim) (epoch : ℕ) (manifest : Option (Manifest UInt64)) :
    (readTvim format files epoch manifest).result = validateTvim format files epoch manifest := by
  unfold readTvim validateTvim
  cases manifest with
  | none => rfl
  | some manifest =>
    cases files.bases[epoch]? with
    | none => rfl
    | some base =>
      simp only [bind_result, openFile_result, lift_result, readEntries_result]
      rfl

theorem readAnn_result (files : StoreFiles .tvann) (epoch : ℕ) (manifest : Option (Manifest Unit)) (configured : Bool) :
    (readAnn format files epoch manifest configured).result = .ok (loadAnn format files epoch manifest configured) := by
  unfold readAnn loadAnn
  cases manifest with
  | none => rfl
  | some manifest =>
    cases (files.bases[epoch]? : Option (List (List String))) with
    | none => rfl
    | some postings => cases configured <;> simp

theorem readTvvf_result (manifest : TvvfManifestEntry) :
    (readTvvf format files manifest).result = TvvfReader.openWith format.tvvf files manifest := by
  unfold readTvvf TvvfReader.openWith
  cases files.bases[manifest.base.vfEpoch]? with
  | none => rfl
  | some base =>
    simp only [bind_result, openFile_result, lift_result, readEntries_result, pure_result]
    rfl

theorem readSidecar_result (manifest : Option TvvfManifestEntry) :
    (readSidecar format files manifest).result =
      .ok (manifest.bind fun manifest => ignoreError (TvvfReader.openWith format.tvvf files manifest)) := by
  cases manifest with
  | none => rfl
  | some manifest =>
    rw [readSidecar, orNone_result, readTvvf_result, Option.bind_some]
    cases TvvfReader.openWith format.tvvf files manifest <;> rfl

/-- The load, erasing the files it opens. -/
theorem readGenerationStore_result (disk : Disk) (root : CommitManifest) :
    (readGenerationStore format disk root).result = loadGenerationStore format disk root := by
  unfold readGenerationStore loadGenerationStore
  simp only [bind_result, readState_result, readTvim_result, readDocuments_result, readAnn_result,
    readSidecar_result, pure_result]
  rfl

/-! ### What a reading opens -/

theorem readState_opens (files : StoreFiles .json) (epoch : ℕ) (manifest : Manifest Unit) :
    Opens (manifestFiles .json epoch manifest) (readState format files epoch (some manifest)) := by
  unfold readState
  cases files.bases[epoch]? with
  | none => exact opens_error _ _
  | some base =>
    exact (opens_openFile _).bind fun _ _ => (opens_lift _).bind fun _ _ =>
      (readEntries_opens _ _ _ _ _ _ _ _ _).map _

theorem readDocuments_opens {V : Type} (kind : StoreKind) (digests : DocumentDigests V) (files : DocumentFiles V)
    (epoch : ℕ) (hbase : manifest.isSome → (files.bases[epoch]?).isSome) :
    Opens (namedFiles kind (fun _ => epoch) manifest) (readDocuments kind digests files epoch manifest) := by
  unfold readDocuments
  cases manifest with
  | none => exact opens_pure _
  | some manifest =>
    obtain ⟨base, hfound⟩ := Option.isSome_iff_exists.mp (hbase rfl)
    rw [hfound]
    exact (opens_openFile _).bind fun _ _ => (opens_lift _).bind fun _ _ => readEntries_opens _ _ _ _ _ _ _ _ _

theorem readTvim_opens (files : StoreFiles .tvim) (epoch : ℕ) (manifest : Option (Manifest UInt64)) :
    Opens (namedFiles .tvim (fun _ => epoch) manifest) (readTvim format files epoch manifest) := by
  unfold readTvim
  cases manifest with
  | none => exact opens_pure _
  | some manifest =>
    dsimp only
    cases files.bases[epoch]? with
    | none => exact opens_error _ _
    | some base =>
      exact (opens_openFile _).bind fun _ _ => (opens_lift _).bind fun _ _ => readEntries_opens _ _ _ _ _ _ _ _ _

theorem readAnn_opens {files : StoreFiles .tvann} {epoch : ℕ} {configured : Bool}
    (hbase : manifest.isSome → (files.bases[epoch]? : Option (List (List String))).isSome ∧ configured = true)
    (hdeltas : ∀ present, manifest = some present → present.deltas = []) :
    Opens (namedFiles .tvann (fun _ => epoch) manifest) (readAnn format files epoch manifest configured) := by
  unfold readAnn
  cases manifest with
  | none => exact opens_pure _
  | some manifest =>
    obtain ⟨hfound, rfl⟩ := hbase rfl
    obtain ⟨postings, hposts⟩ := Option.isSome_iff_exists.mp hfound
    rw [hposts, namedFiles, manifestFiles, hdeltas manifest rfl]
    exact (opens_openFile _).bind fun _ _ => opens_pure _

theorem readTvvf_opens (manifest : TvvfManifestEntry) :
    Opens (manifestFiles .tvvf manifest.base.vfEpoch manifest) (readTvvf format files manifest) := by
  unfold readTvvf
  cases files.bases[manifest.base.vfEpoch]? with
  | none => exact opens_error _ _
  | some base =>
    exact (opens_openFile _).bind fun _ _ => (opens_lift _).bind fun _ _ => (opens_lift _).bind fun _ _ =>
      (readEntries_opens _ _ _ _ _ _ _ _ _).map _

/-- The files a root names are in place, with their digests. A commit records a state, and a cluster assignment,
which has no journal, only beside a state configured for it. -/
structure Complete (format : Format) (disk : Disk) (root : CommitManifest) : Prop where
  state : (root.manifests .json).isSome
  annSeq : ∀ manifest, root.manifests .tvann = some manifest → manifest.nextSeq = 0
  ann : (root.manifests .tvann).isSome → ∀ base : StatePayload,
    (disk.stores .json).bases[root.baseEpoch]? = some base → base.header.ann = true
  stands : ∀ kind manifest, root.manifests kind = some manifest → ∃ base segments,
    Stands (format.digests kind) (disk.stores kind) (root.epochOf kind manifest) manifest base segments

variable {disk : Disk} {root : CommitManifest}

theorem storeFiles_subset (root : CommitManifest) (kind : StoreKind) : root.storeFiles kind ⊆ root.files := by
  intro file hfile
  exact List.mem_flatMap.mpr ⟨kind, by cases kind <;> decide, hfile⟩

theorem mem_files {kind : StoreKind} {part : Part} : (kind, part) ∈ root.files ↔
    ∃ manifest, root.manifests kind = some manifest ∧
      (kind, part) ∈ manifestFiles kind (root.epochOf kind manifest) manifest := by
  constructor
  · intro hfile
    obtain ⟨named, _, hfile⟩ := List.mem_flatMap.mp hfile
    unfold CommitManifest.storeFiles at hfile
    cases hman : root.manifests named with
    | none =>
      rw [hman] at hfile
      cases hfile
    | some manifest =>
      rw [hman] at hfile
      obtain rfl : kind = named := by
        rcases List.mem_cons.mp hfile with heq | hseg
        · exact (Prod.mk.inj heq).1
        · obtain ⟨_, _, heq⟩ := List.mem_map.mp hseg
          exact (Prod.mk.inj heq).1.symm
      exact ⟨manifest, hman, hfile⟩
  · rintro ⟨manifest, hman, hfile⟩
    apply storeFiles_subset root kind
    rw [CommitManifest.storeFiles, hman]
    exact hfile

/-- A cluster configuration of the base stays configured. -/
theorem loadState_ann {files : StoreFiles .json} {epoch : ℕ} {state : StatePayload}
    (hann : ∀ base : StatePayload, files.bases[epoch]? = some base → base.header.ann = true)
    (hstate : loadState format files epoch manifest = .ok state) : state.header.ann = true := by
  unfold loadState at hstate
  rcases Option.eq_none_or_eq_some (files.bases[epoch]? : Option StatePayload) with hbase | ⟨base, hbase⟩
  · rw [hbase] at hstate
    cases hstate
  · rw [hbase] at hstate
    cases manifest with
    | none =>
      cases hstate
      exact hann _ hbase
    | some manifest =>
      simp only [bind_eq_ok] at hstate
      obtain ⟨_, _, maps, _, hpay⟩ := hstate
      cases hpay
      have hconf := hann base hbase
      cases hlast : maps.lastHeader with
      | none => simp [StateMaps.toPayload, StateHeader.merge, hlast, hconf]
      | some last => simp [StateMaps.toPayload, StateHeader.merge, hlast, hconf]

theorem Complete.base (h : Complete format disk root) (kind : StoreKind) {manifest : Manifest (BaseInfo kind)}
    (hman : root.manifests kind = some manifest) :
    ((disk.stores kind).bases[root.epochOf kind manifest]?).isSome := by
  obtain ⟨base, _, hstands⟩ := h.stands kind manifest hman
  rw [hstands.baseFile]
  rfl

theorem Complete.ann_deltas (h : Complete format disk root) {manifest : Manifest Unit}
    (hman : root.manifests .tvann = some manifest) : manifest.deltas = [] := by
  obtain ⟨_, segments, hstands⟩ := h.stands .tvann manifest hman
  have hnone : segments = [] := List.eq_nil_iff_forall_not_mem.mpr fun segment _ => Empty.elim segment
  have hlen := hstands.segmentFiles.length_eq
  rw [hnone] at hlen
  exact List.eq_nil_of_length_eq_zero hlen

/-- A load opens only files the root names, and one that rejects neither generation nor sidecar opens all. -/
theorem readGenerationStore_opens (h : Complete format disk root)
    (hside : ∀ manifest, root.manifests .tvvf = some manifest →
      ∃ reader, TvvfReader.openWith format.tvvf (disk.stores .tvvf) manifest = .ok reader) :
    Opens root.files (readGenerationStore format disk root) := by
  have hpay (kind : StoreKind) (hkind : kind ≠ .tvvf) (hsome : (root.manifests kind).isSome) :
      ((disk.stores kind).bases[root.baseEpoch]?).isSome := by
    obtain ⟨manifest, hman⟩ := Option.isSome_iff_exists.mp hsome
    have hbase := h.base kind hman
    cases kind with
    | tvvf => exact absurd rfl hkind
    | _ => exact hbase
  obtain ⟨manifest, hman⟩ := Option.isSome_iff_exists.mp h.state
  have hjson : root.storeFiles .json = manifestFiles .json root.baseEpoch manifest := by
    rw [CommitManifest.storeFiles, hman]
    rfl
  have hfiles : root.files = root.storeFiles .json ++ (root.storeFiles .tvim ++ (root.storeFiles .tvtext ++
      (root.storeFiles .tvlex ++ (root.storeFiles .tvmv ++ (root.storeFiles .tvann ++ (root.storeFiles .tvvf ++ [])))))) := rfl
  rw [hfiles, hjson]
  unfold readGenerationStore
  rw [hman]
  refine (readState_opens _ _ _).bind fun state hstate => ?_
  rw [readState_result] at hstate
  refine (readTvim_opens _ _ _).bind fun _ _ => ?_
  refine (readDocuments_opens _ _ _ _ (hpay .tvtext (by decide))).bind fun _ _ => ?_
  refine (readDocuments_opens _ _ _ _ (hpay .tvlex (by decide))).bind fun _ _ => ?_
  refine (readDocuments_opens _ _ _ _ (hpay .tvmv (by decide))).bind fun _ _ => ?_
  refine Opens.bind (readAnn_opens ?_ ?_) fun _ _ => Opens.bind ?_ fun _ _ => opens_pure _
  · intro hsome
    exact ⟨hpay .tvann (by decide) hsome, loadState_ann (h.ann hsome) hstate⟩
  · exact fun present hpres => h.ann_deltas hpres
  · unfold CommitManifest.storeFiles
    cases hpres : root.manifests .tvvf with
    | none => exact opens_pure _
    | some sidecar =>
      obtain ⟨reader, hreader⟩ := hside sidecar hpres
      exact (readTvvf_opens (disk.stores .tvvf) sidecar).orNone ((readTvvf_result _ _).trans hreader)

end LodeDB.Storage
