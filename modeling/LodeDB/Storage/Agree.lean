import LodeDB.Lib.Alike
import LodeDB.Storage.Contents
import LodeDB.Storage.Load

/-!
# Directories that agree on a commit

Two directories agree on a store when they hold the same under every file the root lists for it. A load looks
at nothing else. Where the journals' manifests agree too, a delta commit does the same on both and leaves
directories that agree again.
-/

namespace Journal

open Traced TreeMapRules

variable {B G X E V : Type} {digests : Digests B G} {files other : Files B G X} {epoch : ℕ} {manifest : Manifest X}

variable {kind : StoreKind} {loaded : LoadedStore}

/-- Two versions of a store hold the same under the files a manifest lists. -/
structure SameListed (epoch : ℕ) (manifest : Manifest X) (files other : Files B G X) : Prop where
  base : other.bases[epoch]? = files.bases[epoch]?
  segments : ∀ entry ∈ manifest.deltas, other.segment epoch entry.seq = files.segment epoch entry.seq

/-- A replay looks at the listed segments only. -/
theorem replayEntries_congr (errors : ReadErrors E) (step : V → G → Except E V) {entries : List DeltaEntry}
    (hsame : ∀ entry ∈ entries, other.segment epoch entry.seq = files.segment epoch entry.seq) (previous : Option ℕ)
    (value : V) : replayEntries errors digests step other epoch previous entries value =
      replayEntries errors digests step files epoch previous entries value := by
  induction entries generalizing previous value with
  | nil => rfl
  | cons entry rest ih =>
    have hrest := ih fun later hlater => hsame later (List.mem_cons_of_mem _ hlater)
    simp only [replayEntries, hsame entry List.mem_cons_self, hrest]

/-- An append puts one segment, under the next number. -/
theorem appendedFiles_segment (content : G) (upserted deleted seq : ℕ) :
    (appendedFiles digests files epoch manifest content upserted deleted).segment epoch seq =
      if seq = manifest.nextSeq then some content else files.segment epoch seq := by
  rw [appendedFiles, apply_segment _ (by simp [Op.Modifies])]
  split_ifs with hseq
  · rw [hseq, writeSegment_segment]
  · rw [apply_segment _ (by simpa [Op.Modifies] using fun h => hseq h)]

/-- The same segment on the same manifest. -/
theorem SameListed.appended (h : SameListed epoch manifest files other) (content : G) (upserted deleted : ℕ) :
    SameListed epoch (manifest.push (digests.segment content) upserted deleted)
      (appendedFiles digests files epoch manifest content upserted deleted)
      (appendedFiles digests other epoch manifest content upserted deleted) := by
  refine ⟨h.base, fun entry hentry => ?_⟩
  rw [appendedFiles_segment, appendedFiles_segment]
  split_ifs with hseq
  · rfl
  · rcases List.mem_append.mp hentry with hlist | hpushed
    · exact h.segments entry hlist
    · rw [List.mem_singleton.mp hpushed] at hseq
      exact absurd rfl hseq

end Journal

namespace LodeDB.Storage

open Journal Traced TreeMapRules

variable {format : Format} {disk other : Disk} {root : CommitManifest}

/-- Two directories agree on one store of a commit. -/
def Agree (root : CommitManifest) (disk other : Disk) (kind : StoreKind) : Prop :=
  ∀ manifest, root.manifests kind = some manifest →
    SameListed (root.epochOf kind manifest) manifest (disk.stores kind) (other.stores kind)

section Load

/-- A load of the state reads listed files only. -/
theorem loadState_congr {files other : StoreFiles .json} {epoch : ℕ} {manifest : Manifest Unit}
    (h : SameListed epoch manifest files other) :
    loadState format other epoch (some manifest) = loadState format files epoch (some manifest) := by
  unfold loadState
  rw [h.base]
  simp only [replayEntries_congr _ _ h.segments]

/-- The check of the vector rows reads listed files only. -/
theorem validateTvim_congr {files other : StoreFiles .tvim} {epoch : ℕ} {manifest : Option (Manifest UInt64)}
    (h : ∀ present, manifest = some present → SameListed epoch present files other) :
    validateTvim format other epoch manifest = validateTvim format files epoch manifest := by
  cases manifest with
  | none => rfl
  | some manifest =>
    have hsame := h manifest rfl
    unfold validateTvim
    rw [hsame.base]
    simp only [replayEntries_congr _ _ hsame.segments]

/-- A load of payloads reads listed files only. -/
theorem loadDocuments_congr {V : Type} {digests : DocumentDigests V} {files other : DocumentFiles V} {epoch : ℕ}
    {manifest : Option (Manifest Unit)}
    (h : ∀ present, manifest = some present → SameListed epoch present files other) :
    loadDocuments kind digests other epoch manifest = loadDocuments kind digests files epoch manifest := by
  cases manifest with
  | none => rfl
  | some manifest =>
    have hsame := h manifest rfl
    unfold loadDocuments
    rw [hsame.base]
    cases files.bases[epoch]? with
    | none => rfl
    | some base => simp only [replayEntries_congr _ _ hsame.segments]

/-- A load of the cluster assignment reads listed files only. -/
theorem loadAnn_congr {files other : StoreFiles .tvann} {epoch : ℕ} {manifest : Option (Manifest Unit)}
    (h : ∀ present, manifest = some present → SameListed epoch present files other) (configured : Bool) :
    loadAnn format other epoch manifest configured = loadAnn format files epoch manifest configured := by
  cases manifest with
  | none => rfl
  | some manifest =>
    unfold loadAnn
    rw [(h manifest rfl).base]

/-- Opening the sidecar reads listed files only. -/
theorem openWith_congr {files other : TvvfFiles} {manifest : TvvfManifestEntry}
    (h : SameListed manifest.base.vfEpoch manifest files other) :
    TvvfReader.openWith format.tvvf other manifest = TvvfReader.openWith format.tvvf files manifest := by
  unfold TvvfReader.openWith
  rw [h.base]
  simp only [replayEntries_congr _ _ h.segments]

/-- A load of the vector rows reads listed files only. -/
theorem loadIdMap_congr {P : Primitives} {files other : StoreFiles .tvim} {epoch : ℕ} {manifest : Manifest UInt64}
    (h : SameListed epoch manifest files other) :
    loadIdMap P format other epoch manifest = loadIdMap P format files epoch manifest := by
  unfold loadIdMap
  rw [h.base]
  simp only [replayEntries_congr _ _ h.segments]

/-- What a load returns, but for the original-precision sidecar. -/
def LoadedStore.withoutReader (loaded : LoadedStore) : LoadedStore := { loaded with tvvfReader := none }

/-- A loaded store is its sidecar reader and the rest. -/
theorem LoadedStore.eq_of_withoutReader {other : LoadedStore} (h : loaded.withoutReader = other.withoutReader)
    (hreader : loaded.tvvfReader = other.tvvfReader) : loaded = other := by
  cases loaded
  cases other
  simp only [withoutReader, mk.injEq] at h hreader ⊢
  simp_all

/-- Directories that agree on all stores but the sidecar load alike but for its reader. -/
theorem loadGenerationStore_withoutReader (hstate : (root.manifests .json).isSome)
    (h : ∀ kind, kind ≠ .tvvf → Agree root disk other kind) :
    (loadGenerationStore format other root).map LoadedStore.withoutReader =
      (loadGenerationStore format disk root).map LoadedStore.withoutReader := by
  obtain ⟨manifest, hman⟩ := Option.isSome_iff_exists.mp hstate
  have hjson : loadState format (other.stores .json) root.baseEpoch (root.manifests .json) =
      loadState format (disk.stores .json) root.baseEpoch (root.manifests .json) := by
    rw [hman]
    exact loadState_congr (h .json (by decide) manifest hman)
  have htvim : validateTvim format (other.stores .tvim) root.baseEpoch (root.manifests .tvim) =
      validateTvim format (disk.stores .tvim) root.baseEpoch (root.manifests .tvim) :=
    validateTvim_congr (h .tvim (by decide))
  have htext : loadDocuments .tvtext (format.digests .tvtext) (other.stores .tvtext) root.baseEpoch
      (root.manifests .tvtext) = loadDocuments .tvtext (format.digests .tvtext) (disk.stores .tvtext) root.baseEpoch
        (root.manifests .tvtext) := loadDocuments_congr (h .tvtext (by decide))
  have hlex : loadDocuments .tvlex (format.digests .tvlex) (other.stores .tvlex) root.baseEpoch
      (root.manifests .tvlex) = loadDocuments .tvlex (format.digests .tvlex) (disk.stores .tvlex) root.baseEpoch
        (root.manifests .tvlex) := loadDocuments_congr (h .tvlex (by decide))
  have hmv : loadDocuments .tvmv (format.digests .tvmv) (other.stores .tvmv) root.baseEpoch
      (root.manifests .tvmv) = loadDocuments .tvmv (format.digests .tvmv) (disk.stores .tvmv) root.baseEpoch
        (root.manifests .tvmv) := loadDocuments_congr (h .tvmv (by decide))
  have hann (configured : Bool) : loadAnn format (other.stores .tvann) root.baseEpoch (root.manifests .tvann) configured =
      loadAnn format (disk.stores .tvann) root.baseEpoch (root.manifests .tvann) configured :=
    loadAnn_congr (h .tvann (by decide)) configured
  unfold loadGenerationStore
  simp only [hjson, htvim, htext, hlex, hmv, hann, ExceptRules.map_bind]
  rfl

/-- The reader of a loaded store is the sidecar, if it opens. -/
theorem loadGenerationStore_tvvfReader (h : loadGenerationStore format disk root = .ok loaded) :
    loaded.tvvfReader = (root.manifests .tvvf).bind fun manifest =>
      ignoreError (TvvfReader.openWith format.tvvf (disk.stores .tvvf) manifest) := by
  unfold loadGenerationStore at h
  simp only [ExceptRules.bind_eq_ok] at h
  obtain ⟨_, _, _, _, _, _, _, _, _, _, hload⟩ := h
  obtain rfl := Except.ok.inj hload
  rfl

/-- A load looks only at the files the root lists. -/
theorem loadGenerationStore_congr (hstate : (root.manifests .json).isSome) (h : ∀ kind, Agree root disk other kind) :
    loadGenerationStore format other root = loadGenerationStore format disk root := by
  have hrest : (loadGenerationStore format other root).map LoadedStore.withoutReader =
      (loadGenerationStore format disk root).map LoadedStore.withoutReader :=
    loadGenerationStore_withoutReader hstate fun kind _ => h kind
  have hreader : ((root.manifests .tvvf).bind fun manifest =>
      ignoreError (TvvfReader.openWith format.tvvf (other.stores .tvvf) manifest)) =
      (root.manifests .tvvf).bind fun manifest =>
        ignoreError (TvvfReader.openWith format.tvvf (disk.stores .tvvf) manifest) := by
    cases hman : root.manifests .tvvf with
    | none => rfl
    | some manifest =>
      have hsame := h .tvvf manifest hman
      rw [Option.bind_some, Option.bind_some, openWith_congr hsame]
  refine ExceptRules.eq_of_map_eq hrest fun loaded original hload horiginal hsame => ?_
  apply LoadedStore.eq_of_withoutReader hsame
  rw [loadGenerationStore_tvvfReader hload, loadGenerationStore_tvvfReader horiginal, hreader]

end Load

section Delta

variable {epoch : ℕ} {manifests : Manifests}

/-- Two directories hold the same under some manifests, which are also their journals' manifests on disk. The
original-precision sidecar is left aside. -/
structure Apace (epoch : ℕ) (manifests : Manifests) (disk other : Disk) : Prop where
  root : other.root = disk.root
  state : (manifests .json).isSome
  journal : ∀ kind ∈ deltaKinds, (disk.stores kind).manifest epoch = manifests kind ∧
    (other.stores kind).manifest epoch = manifests kind
  listed : ∀ kind, kind ≠ .tvvf → ∀ manifest, manifests kind = some manifest →
    SameListed epoch manifest (disk.stores kind) (other.stores kind)

/-- The same append to two directories keeps them apace. -/
theorem Apace.append (h : Apace epoch manifests disk other) (hkind : kind ∈ deltaKinds)
    {manifest : Manifest (BaseInfo kind)} (hman : manifests kind = some manifest) (content : Segment kind)
    (upserted deleted : ℕ) :
    Apace epoch (Function.update manifests kind
        (some (manifest.push ((format.digests kind).segment content) upserted deleted)))
      (disk.setStore kind (appendedFiles (format.digests kind) (disk.stores kind) epoch manifest content upserted deleted))
      (other.setStore kind
        (appendedFiles (format.digests kind) (other.stores kind) epoch manifest content upserted deleted)) := by
  refine ⟨h.root, ?_, fun next hnext => ?_, fun next hnext listed hlist => ?_⟩
  · by_cases hsame : StoreKind.json = kind
    · subst hsame
      rw [Function.update_self]
      rfl
    · rw [Function.update_of_ne hsame]
      exact h.state
  · by_cases hsame : next = kind
    · subst hsame
      rw [setStore_same, setStore_same, Function.update_self, appendedFiles_manifest, appendedFiles_manifest]
      exact ⟨rfl, rfl⟩
    · rw [setStore_other _ _ _ hsame, setStore_other _ _ _ hsame, Function.update_of_ne hsame]
      exact h.journal next hnext
  · by_cases hsame : next = kind
    · subst hsame
      rw [Function.update_self] at hlist
      obtain rfl := Option.some.inj hlist
      rw [setStore_same, setStore_same]
      exact (h.listed next hnext manifest hman).appended content upserted deleted
    · rw [Function.update_of_ne hsame] at hlist
      rw [setStore_other _ _ _ hsame, setStore_other _ _ _ hsame]
      exact h.listed next hnext listed hlist

/-- Appending to one store of two directories. -/
theorem appendDelta_alike (hkind : kind ∈ deltaKinds) (missing : CoreError) (content : Segment kind)
    (upserted deleted : ℕ) :
    Alike (Apace epoch manifests)
      (onStore kind (appendDelta (format.digests kind) missing epoch content upserted deleted))
      (onStore kind (appendDelta (format.digests kind) missing epoch content upserted deleted))
      fun pushed => Apace epoch (Function.update manifests kind (some pushed)) := by
  cases hman : manifests kind with
  | none =>
    refine Alike.fails missing fun disk other h => ?_
    obtain ⟨hdisk, hother⟩ := h.journal kind hkind
    rw [hman] at hdisk hother
    unfold onStore Program.zoom
    rw [appendDelta_missing _ _ _ _ _ hdisk, appendDelta_missing _ _ _ _ _ hother]
    exact ⟨rfl, rfl⟩
  | some manifest =>
    refine Alike.runs fun disk other h => ?_
    obtain ⟨hdisk, hother⟩ := h.journal kind hkind
    rw [hman] at hdisk hother
    exact ⟨_, _, _, Runs.zoom (setStore_stores disk kind) (appendDelta_runs hdisk missing content upserted deleted),
      Runs.zoom (setStore_stores other kind) (appendDelta_runs hother missing content upserted deleted),
      h.append hkind hman content upserted deleted⟩

/-- Appending the same segments to directories apace does the same. -/
theorem appendStores_alike (segments : (kind : StoreKind) → Option (Segment kind × ℕ × ℕ)) {kinds : List StoreKind}
    (hkinds : kinds ⊆ deltaKinds) (manifests : Manifests) :
    Alike (Apace epoch manifests) (appendStores format segments epoch kinds manifests)
      (appendStores format segments epoch kinds manifests) (Apace epoch) := by
  induction kinds generalizing manifests with
  | nil => exact Alike.pure fun _ _ h => h
  | cons kind rest ih =>
    have hrest := fun next hnext => hkinds (List.mem_cons_of_mem kind (a := next) hnext)
    unfold appendStores
    cases segments kind with
    | none => exact ih hrest manifests
    | some segment =>
      exact (appendDelta_alike (hkinds List.mem_cons_self) _ _ _ _).bind fun pushed => ih hrest _

/-- A sealed manifest, the sidecar's aside, is one that was given. -/
theorem GenerationDeltaInput.seal_eq_some {input : GenerationDeltaInput} (hkind : kind ≠ .tvvf)
    {manifest : Manifest (BaseInfo kind)} (h : input.seal manifests kind = some manifest) :
    manifests kind = some manifest := by
  rw [GenerationDeltaInput.seal, Function.update_of_ne hkind] at h
  by_cases hann : kind = .tvann
  · subst hann
    rw [Function.update_self] at h
    split_ifs at h
    exact h
  · rwa [Function.update_of_ne hann] at h

/-- A delta commit on agreeing directories returns the same, and they agree on the new commit. -/
theorem writeGenerationDelta_alike {input : GenerationDeltaInput} (hepoch : input.baseEpoch = root.baseEpoch) :
    Alike (fun disk other => disk.root = some root ∧ Apace root.baseEpoch root.manifests disk other)
      (writeGenerationDelta format input) (writeGenerationDelta format input) fun _ disk other =>
        ∃ next, disk.root = some next ∧ other.root = some next ∧ (next.manifests .json).isSome ∧
          ∀ kind, kind ≠ .tvvf → Agree next disk other kind := by
  refine Alike.lookThen fun disk other ⟨hroot, h⟩ => ?_
  simp only [hroot, h.root]
  refine Alike.via (fun manifests => Apace root.baseEpoch manifests) ?_ fun manifests => ?_
  · rw [hepoch]
    refine (appendStores_alike _ (List.Subset.refl _) _).weaken ?_
    rintro _ _ ⟨rfl, rfl⟩
    exact h
  · refine Alike.perform fun disk other h => ?_
    refine ⟨_, rfl, rfl, ?_, fun kind hkind manifest hman => ?_⟩
    · change (input.seal manifests .json).isSome
      rw [input.seal_apply manifests (show StoreKind.json ∈ deltaKinds by decide)]
      exact h.state
    · rw [CommitManifest.epochOf_of_ne hkind]
      change SameListed input.baseEpoch manifest (disk.stores kind) (other.stores kind)
      rw [hepoch]
      exact h.listed kind hkind manifest (GenerationDeltaInput.seal_eq_some hkind hman)

end Delta

end LodeDB.Storage
