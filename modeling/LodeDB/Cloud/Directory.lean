import LodeDB.Cloud.Export
import LodeDB.Cloud.StoreBody
import LodeDB.Storage.Agree

/-!
# Pushing and pulling a persistence directory

A push copies the artifacts a committed body names into another store and publishes the body there. A pull copies
into a local directory; the candidate has to open through the engine before the pointer moves, and the journals'
manifests, which no transfer ships, are rebuilt from the body.

Both ends have a single writer. Graph topologies, the pending-log check of a pull and the sync sidecar are left out.
-/

namespace LodeDB.Cloud

open Journal ExceptRules TreeMapRules
open LodeDB.Storage

variable {artifacts : List ArtifactRef} {epoch : ℕ}

/-- The content of an artifact. -/
inductive Blob
  | base (kind : StoreKind) (content : Base kind)
  | segment (kind : StoreKind) (content : Segment kind)

namespace Blob

/-- The digest of an artifact. -/
def sha256 (format : Format) : Blob → String
  | .base kind content => (format.digests kind).base content
  | .segment kind content => (format.digests kind).segment content

variable (kind : StoreKind)

/-- An artifact read as a base of a store. -/
def asBase : Blob → Option (Base kind)
  | .base other content => if h : other = kind then some (h ▸ content) else none
  | .segment _ _ => none

/-- An artifact read as a segment of a store. -/
def asSegment : Blob → Option (Segment kind)
  | .base _ _ => none
  | .segment other content => if h : other = kind then some (h ▸ content) else none

@[simp] theorem asBase_base (content : Base kind) : asBase kind (.base kind content) = some content := by
  simp [asBase]

@[simp] theorem asSegment_segment (content : Segment kind) :
    asSegment kind (.segment kind content) = some content := by
  simp [asSegment]

end Blob

/-- An artifact store: the committed body and the artifacts by name. -/
structure ArtifactStore where
  pointer : Option Value
  artifacts : String → Option Blob

/-- A store without anything. -/
def ArtifactStore.empty : ArtifactStore := ⟨none, fun _ => none⟩

@[simp] theorem ArtifactStore.empty_pointer : ArtifactStore.empty.pointer = none := rfl

/-- A local directory: an artifact store with the journals' manifests by path. -/
structure Directory extends ArtifactStore where
  journals : String → Option Value

/-- A directory without any file. -/
def Directory.empty : Directory := ⟨.empty, fun _ => none⟩

/-! ### The directory of an engine -/

/-- The artifact a file of the directory holds. -/
def blobAt (disk : Disk) (kind : StoreKind) : Part → Option Blob
  | .base epoch => (disk.stores kind).bases[epoch]?.map (Blob.base kind)
  | .segment epoch seq => ((disk.stores kind).segment epoch seq).map (Blob.segment kind)
  | .manifest _ => none

/-- The bases and segments of a store. -/
def partsOf {B G X : Type} (files : Files B G X) : List Part :=
  files.bases.keys.map Part.base ++
    files.dirs.keys.flatMap fun epoch => (files.dir epoch).segments.keys.map (Part.segment epoch)

/-- The bases and segments of a directory. -/
def diskParts (disk : Disk) : List (StoreKind × Part) :=
  allKinds.flatMap fun kind => (partsOf (disk.stores kind)).map fun part => (kind, part)

variable (indexKey : String)

/-- Read the artifact at a path. -/
def openRead (disk : Disk) (name : String) : Option Blob :=
  ((diskParts disk).find? fun file => filePath indexKey file.1 file.2 = name).bind fun file => blobAt disk file.1 file.2

/-- A persistence directory as an artifact store. -/
def localStore (details : BodyDetails) (indexKey : String) (disk : Disk) : ArtifactStore :=
  ⟨disk.root.map (commitBody details indexKey), openRead indexKey disk⟩

/-- The files of a store that an engine finds where a manifest says they are. -/
def Directory.storeFiles (directory : Directory) (indexKey : String) (kind : StoreKind) (epoch : ℕ)
    (manifest : Manifest (BaseInfo kind)) : StoreFiles kind where
  bases := match (directory.artifacts (filePath indexKey kind (.base epoch))).bind (Blob.asBase kind) with
    | none => ∅
    | some content => (∅ : Std.ExtTreeMap ℕ (Base kind) compare).insert epoch content
  dirs := (∅ : Std.ExtTreeMap ℕ (Dir (Segment kind) (BaseInfo kind)) compare).insert epoch
    ⟨(directory.journals (filePath indexKey kind (.manifest epoch))).bind (manifestOfValue kind),
      writeAll ∅ (manifest.deltas.filterMap fun entry =>
        ((directory.artifacts (filePath indexKey kind (.segment epoch entry.seq))).bind (Blob.asSegment kind)).map
          fun content => (entry.seq, content))⟩

/-- What an engine finds in a directory: the pointer's commit, and the files it names. -/
def Directory.disk (directory : Directory) : Option Disk :=
  (directory.pointer.bind rootOfBody).map fun root => ⟨some root, fun kind =>
    match root.manifests kind with
    | none => .empty
    | some manifest => directory.storeFiles indexKey kind (root.epochOf kind manifest) manifest⟩

/-! ### Transfers -/

section Transfer

variable {Id : Type} [DecidableEq Id] (digests : Digests Id) (format : Format)

/-- The refusal of a name that is taken by other content. -/
def overwriteError (artifact : ArtifactRef) (stored : String) : ArtifactStoreError :=
  .integrity ("artifact " ++ quoted artifact.name ++ " already exists with different content (stored " ++ stored ++
    ", incoming " ++ artifact.sha256 ++ "); refusing to overwrite an immutable artifact")

/-- Write an artifact under its name, unless the same content is there already. -/
def ArtifactStore.writeIfAbsent (store : ArtifactStore) (artifact : ArtifactRef) (blob : Blob) :
    Except ArtifactStoreError ArtifactStore :=
  match store.artifacts artifact.name with
  | some existing =>
    if existing.sha256 format = artifact.sha256 then .ok store
    else .error (overwriteError artifact (existing.sha256 format))
  | none =>
    if blob.sha256 format = artifact.sha256 then
      .ok { store with artifacts := Function.update store.artifacts artifact.name (some blob) }
    else .error (checksumError artifact (blob.sha256 format))

variable (source dest : ArtifactStore)

/-- Copy one artifact. -/
def copyArtifact (artifact : ArtifactRef) : Except ArtifactStoreError ArtifactStore :=
  match source.artifacts artifact.name with
  | none => .error (.notFound artifact.name)
  | some blob => dest.writeIfAbsent format artifact blob

/-- Copy the artifacts the destination lacks, without touching its pointer. -/
def stageGeneration (job : Export) : Except ArtifactStoreError ArtifactStore := do
  let uploads ← stageExport job dest.pointer
  uploads.foldlM (copyArtifact format source) dest

variable (indexKey : String)

/-- The refusal of a source that holds no commit. -/
def nothingToExport : ArtifactStoreError :=
  .notFound ("no committed generation to export for index key " ++ quoted indexKey)

/-- Copy a committed generation to another store and publish it there. -/
def exportGeneration (policy : TransferPolicy) : Except ArtifactStoreError ArtifactStore :=
  match source.pointer with
  | none => .error (nothingToExport indexKey)
  | some rawBody => do
    let job : Export := ⟨indexKey, policy, rawBody⟩
    let staged ← stageGeneration format source dest job
    let published := publishStaged digests indexKey staged.pointer dest.pointer job.sourceBody
    let _ ← published.2
    return { staged with pointer := published.1 }

/-- The base name beside which a journal's manifest goes. -/
def journalBaseName (kind : String) (subManifest : Value) (baseEpoch : ℕ) : Except ArtifactStoreError String :=
  if kind = "tvvf" then
    match (subManifest.get "vf_epoch").bind Value.asU64 with
    | some vfEpoch => .ok ("vf" ++ toString vfEpoch ++ ".tvvf")
    | none => .error (.integrity "tvvf sub-manifest carries no vf_epoch; cannot place its journal manifest")
  else .ok ("g" ++ toString baseEpoch ++ "." ++ kind)

/-- Rebuild one journal's manifest from the body, for a store that keeps a journal. -/
def restoreJournal (body : Value) (journals : String → Option Value) (store : String × String) :
    Except ArtifactStoreError (String → Option Value) :=
  if store.1 = "tvann" ∨ store.1 ∈ graphStoreKinds then .ok journals
  else match (body.get store.1).filter fun manifest => manifest ≠ .null with
    | none => .ok journals
    | some subManifest => do
      let baseName ← journalBaseName store.1 subManifest (u64Field body "base_epoch")
      return Function.update journals (indexKey ++ ".gen/" ++ baseName ++ store.2 ++ "/" ++ "manifest.json")
        (some subManifest)

/-- Rebuild the journals' manifests from the body. -/
def writeRestoredJournalManifests (body : Value) (journals : String → Option Value) :
    Except ArtifactStoreError (String → Option Value) :=
  storeKinds.foldlM (restoreJournal indexKey body) journals

/-- Link one artifact of a candidate into the scratch directory. -/
def linkArtifact (staged : ArtifactStore) (scratch : String → Option Blob) (artifact : ArtifactRef) :
    Except ArtifactStoreError (String → Option Blob) :=
  match staged.artifacts artifact.name with
  | none => .error (.io ("no such file: " ++ artifact.name))
  | some blob => .ok (Function.update scratch artifact.name (some blob))

/-- Open a candidate through the engine, from a scratch directory. -/
def verifyCandidateOpens (staged : ArtifactStore) (body : Value) : Except ArtifactStoreError Unit := do
  let inventory ← inventoryFromBody indexKey body
  let scratch ← inventory.foldlM (linkArtifact staged) fun _ => none
  let journals ← writeRestoredJournalManifests indexKey body fun _ => none
  match Directory.disk indexKey ⟨⟨some body, scratch⟩, journals⟩ with
  | none => throw (.core (corrupt "commit manifest could not be read"))
  | some disk =>
    match disk.root with
    | none => throw (.core (corrupt "commit manifest could not be read"))
    | some root =>
      match loadGenerationStore format disk root with
      | .error error => throw (.core error)
      | .ok _ => return ()

/-- Restore a committed generation into a local directory. -/
def pull (remote : ArtifactStore) (directory : Directory) (indexKey : String) :
    Except ArtifactStoreError Directory :=
  match remote.pointer with
  | none => .error (nothingToExport indexKey)
  | some rawBody => do
    let job : Export := ⟨indexKey, .full, rawBody⟩
    let staged ← stageGeneration format remote directory.toArtifactStore job
    verifyCandidateOpens format indexKey staged job.sourceBody
    let published := publishStaged digests indexKey staged.pointer directory.pointer job.sourceBody
    let restored ← published.2
    let journals ← writeRestoredJournalManifests indexKey restored directory.journals
    return ⟨⟨published.1, staged.artifacts⟩, journals⟩

end Transfer

/-! ### What a path leads to -/

section OpenRead

variable {indexKey : String} {disk : Disk} {kind : StoreKind} {part : Part}

theorem mem_partsOf {B G X : Type} {files : Files B G X} : part ∈ partsOf files ↔
    (∃ epoch, part = .base epoch ∧ (files.bases[epoch]?).isSome) ∨
      ∃ epoch seq, part = .segment epoch seq ∧ (files.segment epoch seq).isSome := by
  have hdir {epoch seq : ℕ} (h : (files.segment epoch seq).isSome) : epoch ∈ files.dirs := by
    by_contra hnone
    rw [Files.segment, Files.dir, Std.ExtTreeMap.getElem?_eq_none hnone] at h
    simp at h
  simp only [partsOf, List.mem_append, List.mem_map, List.mem_flatMap, Std.ExtTreeMap.mem_keys]
  constructor
  · rintro (⟨epoch, hepoch, rfl⟩ | ⟨epoch, -, seq, hseq, rfl⟩)
    · exact .inl ⟨epoch, rfl, Std.ExtTreeMap.isSome_getElem?_iff_mem.mpr hepoch⟩
    · exact .inr ⟨epoch, seq, rfl, Std.ExtTreeMap.isSome_getElem?_iff_mem.mpr hseq⟩
  · rintro (⟨epoch, rfl, hepoch⟩ | ⟨epoch, seq, rfl, hseq⟩)
    · exact .inl ⟨epoch, Std.ExtTreeMap.isSome_getElem?_iff_mem.mp hepoch, rfl⟩
    · exact .inr ⟨epoch, hdir hseq, seq, Std.ExtTreeMap.isSome_getElem?_iff_mem.mp hseq, rfl⟩

theorem mem_diskParts : (kind, part) ∈ diskParts disk ↔ part ∈ partsOf (disk.stores kind) := by
  simp only [diskParts, List.mem_flatMap, List.mem_map, Prod.mk.injEq]
  constructor
  · rintro ⟨_, _, _, hpart, rfl, rfl⟩
    exact hpart
  · exact fun hpart => ⟨kind, by cases kind <;> decide, part, hpart, rfl, rfl⟩

theorem isArtifact_of_mem (h : (kind, part) ∈ diskParts disk) : IsArtifact kind part := by
  obtain ⟨epoch, rfl, -⟩ | ⟨epoch, seq, rfl, hseq⟩ := mem_partsOf.mp (mem_diskParts.mp h)
  · trivial
  · rintro rfl
    exact Empty.elim ((disk.stores .tvann).segment epoch seq |>.get hseq)

theorem mem_of_blobAt (h : (blobAt disk kind part).isSome) : (kind, part) ∈ diskParts disk := by
  rw [mem_diskParts, mem_partsOf]
  cases part with
  | base epoch => exact .inl ⟨epoch, rfl, by simpa [blobAt] using h⟩
  | manifest epoch => cases h
  | segment epoch seq => exact .inr ⟨epoch, seq, rfl, by simpa [blobAt] using h⟩

/-- The path of an artifact leads to it. -/
theorem openRead_filePath (hpart : IsArtifact kind part) :
    openRead indexKey disk (filePath indexKey kind part) = blobAt disk kind part := by
  unfold openRead
  cases hfound : (diskParts disk).find? fun file => filePath indexKey file.1 file.2 = filePath indexKey kind part with
  | none =>
    rw [List.find?_eq_none] at hfound
    cases hblob : blobAt disk kind part with
    | none => rfl
    | some blob =>
      have hmem : (kind, part) ∈ diskParts disk := mem_of_blobAt (by rw [hblob]; rfl)
      exact absurd (decide_eq_true rfl) (hfound (kind, part) hmem)
  | some file =>
    obtain ⟨other, found⟩ := file
    have hmem := isArtifact_of_mem (List.mem_of_find?_eq_some hfound)
    have hpath : filePath indexKey other found = filePath indexKey kind part := by
      simpa using List.find?_some hfound
    obtain ⟨rfl, rfl⟩ := filePath_inj hmem hpart hpath
    rfl

end OpenRead

/-! ### Copying -/

section Copy

variable {format : Format} {source dest : ArtifactStore}

/-- A store after the artifacts of some names were copied into it. -/
def copied (source dest : ArtifactStore) (names : List String) : ArtifactStore :=
  { dest with artifacts := fun name => if name ∈ names then source.artifacts name else dest.artifacts name }

@[simp] theorem copied_pointer (names : List String) : (copied source dest names).pointer = dest.pointer := rfl

/-- The source holds an artifact with the digest its reference records. -/
def Holds (format : Format) (source : ArtifactStore) (artifact : ArtifactRef) : Prop :=
  ∃ blob, source.artifacts artifact.name = some blob ∧ blob.sha256 format = artifact.sha256

theorem copied_nil : copied source dest [] = dest := by
  simp [copied]

theorem copied_cons (name : String) (names : List String) :
    copied source (copied source dest [name]) names = copied source dest (name :: names) := by
  simp only [copied, List.mem_cons]
  congr 1
  funext other
  by_cases hother : other ∈ names <;> simp [hother]

theorem copied_of_same {name : String} (h : dest.artifacts name = source.artifacts name) :
    copied source dest [name] = dest := by
  unfold copied
  congr 1
  funext other
  by_cases hother : other = name
  · simp [hother, h]
  · simp [hother]

theorem copyArtifact_eq_ok {artifact : ArtifactRef} (hheld : Holds format source artifact)
    (hdest : dest.artifacts artifact.name = none ∨ dest.artifacts artifact.name = source.artifacts artifact.name) :
    copyArtifact format source dest artifact = .ok (copied source dest [artifact.name]) := by
  obtain ⟨blob, hblob, hsha⟩ := hheld
  unfold copyArtifact ArtifactStore.writeIfAbsent
  rw [hblob]
  obtain hnone | hsame := hdest
  · rw [hnone]
    dsimp only
    rw [if_pos hsha]
    congr 2
    funext name
    by_cases hname : name = artifact.name
    · simp [hname, hblob]
    · simp [hname]
  · rw [hsame, hblob]
    dsimp only
    rw [if_pos hsha, copied_of_same hsame]

/-- Artifacts are copied, in any order, into a store without their names. -/
theorem copyAll_eq_ok (hheld : ∀ artifact ∈ artifacts, Holds format source artifact) (hdest : ∀ artifact ∈ artifacts,
      dest.artifacts artifact.name = none ∨ dest.artifacts artifact.name = source.artifacts artifact.name) :
    artifacts.foldlM (copyArtifact format source) dest = .ok (copied source dest (artifacts.map ArtifactRef.name)) := by
  induction artifacts generalizing dest with
  | nil => rw [List.map_nil, copied_nil]; rfl
  | cons artifact rest ih =>
    rw [List.foldlM_cons, copyArtifact_eq_ok (hheld artifact List.mem_cons_self) (hdest artifact List.mem_cons_self),
      ok_bind, ih (fun other hother => hheld other (List.mem_cons_of_mem _ hother)), List.map_cons, copied_cons]
    intro other hother
    by_cases hname : other.name = artifact.name
    · exact .inr (by simp [copied, hname])
    · rcases hdest other (List.mem_cons_of_mem _ hother) with hnone | hsame
      · exact .inl (by simpa [copied, hname] using hnone)
      · exact .inr (by simpa [copied, hname] using hsame)

/-- Linking artifacts that are there. -/
theorem linkAll_eq_ok (hheld : ∀ artifact ∈ artifacts, (source.artifacts artifact.name).isSome)
    (scratch : String → Option Blob) :
    artifacts.foldlM (linkArtifact source) scratch = .ok fun name =>
      if name ∈ artifacts.map ArtifactRef.name then source.artifacts name else scratch name := by
  induction artifacts generalizing scratch with
  | nil => rfl
  | cons artifact rest ih =>
    obtain ⟨blob, hblob⟩ := Option.isSome_iff_exists.mp (hheld artifact List.mem_cons_self)
    have hlink : linkArtifact source scratch artifact = .ok (Function.update scratch artifact.name (some blob)) := by
      rw [linkArtifact, hblob]
    rw [List.foldlM_cons, hlink, ok_bind, ih fun other hother => hheld other (List.mem_cons_of_mem _ hother)]
    congr 1
    funext name
    by_cases hname : name = artifact.name
    · subst hname
      simp [hblob]
    · simp [hname]

end Copy

/-! ### The journals' manifests -/

section Journals

variable {details : BodyDetails} {indexKey : String} {root : CommitManifest}

/-- The journals with one store's manifest rebuilt. -/
def journaled (details : BodyDetails) (indexKey : String) (root : CommitManifest) (journals : String → Option Value)
    (kind : StoreKind) : String → Option Value :=
  match root.manifests kind with
  | none => journals
  | some manifest =>
    if kind = .tvann then journals
    else Function.update journals (filePath indexKey kind (.manifest (root.epochOf kind manifest)))
      (some (manifestValue details indexKey kind (root.epochOf kind manifest) manifest))

theorem manifestPath_eq (kind : StoreKind) (epoch : ℕ) :
    indexKey ++ ".gen/" ++ baseName kind epoch ++ kind.deltaDirSuffix ++ "/" ++ "manifest.json" =
      filePath indexKey kind (.manifest epoch) := by
  rw [gen_append]
  simp only [filePath, deltaDir, String.append_assoc]

theorem journalBaseName_manifestValue (kind : StoreKind) (manifest : Manifest (BaseInfo kind)) :
    journalBaseName kind.key (manifestValue details indexKey kind (root.epochOf kind manifest) manifest) root.baseEpoch =
      .ok (baseName kind (root.epochOf kind manifest)) := by
  unfold journalBaseName
  by_cases hkind : kind = .tvvf
  · subst hkind
    rw [if_pos (show StoreKind.tvvf.key = "tvvf" from rfl), get_vfEpoch, Option.bind_some, asU64_natural, baseName_tvvf]
  · have hne : kind.key ≠ "tvvf" := key_ne_of_ne hkind
    rw [if_neg hne, CommitManifest.epochOf_of_ne hkind, baseName_of_ne hkind]

variable (journals : String → Option Value)

theorem restoreJournal_commitBody (kind : StoreKind) :
    restoreJournal indexKey (commitBody details indexKey root) journals (kind.key, kind.deltaDirSuffix) =
      .ok (journaled details indexKey root journals kind) := by
  have hpres : ((commitBody details indexKey root).get kind.key).filter (fun manifest => manifest ≠ .null) =
      storeValue details indexKey root kind := presentStore_commitBody kind
  unfold restoreJournal journaled
  rw [hpres, storeValue, baseEpoch_commitBody]
  by_cases hann : kind = .tvann
  · subst hann
    rw [if_pos (.inl rfl)]
    cases root.manifests .tvann <;> rfl
  have hskip : ¬ (kind.key = "tvann" ∨ kind.key ∈ graphStoreKinds) :=
    not_or_intro (key_ne_of_ne hann) (key_notMem_graphStoreKinds kind)
  rw [if_neg hskip]
  cases root.manifests kind with
  | none => rfl
  | some manifest =>
    dsimp only [Option.map_some]
    rw [journalBaseName_manifestValue, ok_bind, if_neg hann, manifestPath_eq]
    rfl

theorem restoreJournal_graph {store : String × String} (hstore : store.1 ∈ graphStoreKinds) (body : Value) :
    restoreJournal indexKey body journals store = .ok journals := by
  rw [restoreJournal, if_pos (.inr hstore)]

theorem writeRestoredJournalManifests_commitBody :
    writeRestoredJournalManifests indexKey (commitBody details indexKey root) journals =
      .ok (allKinds.foldl (journaled details indexKey root) journals) := by
  have hkinds (kinds : List StoreKind) (journals : String → Option Value) :
      (kinds.map fun kind => (kind.key, kind.deltaDirSuffix)).foldlM
        (restoreJournal indexKey (commitBody details indexKey root)) journals =
      .ok (kinds.foldl (journaled details indexKey root) journals) := by
    induction kinds generalizing journals with
    | nil => rfl
    | cons kind rest ih =>
      rw [List.map_cons, List.foldlM_cons, restoreJournal_commitBody, ok_bind, ih, List.foldl_cons]
  rw [writeRestoredJournalManifests, storeKinds_eq, List.foldlM_append, hkinds, ok_bind, List.foldlM_cons,
    restoreJournal_graph _ (by decide), ok_bind, List.foldlM_cons, restoreJournal_graph _ (by decide), ok_bind]
  rfl

theorem foldl_journaled {kind : StoreKind} {manifest : Manifest (BaseInfo kind)} (hkind : kind ≠ .tvann)
    (hman : root.manifests kind = some manifest) (kinds : List StoreKind) (journals : String → Option Value) :
    kinds.foldl (journaled details indexKey root) journals
        (filePath indexKey kind (.manifest (root.epochOf kind manifest))) =
      if kind ∈ kinds then some (manifestValue details indexKey kind (root.epochOf kind manifest) manifest)
      else journals (filePath indexKey kind (.manifest (root.epochOf kind manifest))) := by
  induction kinds generalizing journals with
  | nil => rfl
  | cons other rest ih =>
    rw [List.foldl_cons, ih]
    by_cases hrest : kind ∈ rest
    · rw [if_pos hrest, if_pos (List.mem_cons_of_mem _ hrest)]
    rw [if_neg hrest]
    unfold journaled
    by_cases hother : other = kind
    · subst hother
      rw [hman]
      simp [hkind]
    · rw [if_neg (by simp [Ne.symm hother, hrest])]
      cases root.manifests other with
      | none => rfl
      | some named =>
        dsimp only
        split_ifs
        · rfl
        · exact Function.update_of_ne (fun hpath => hother (manifestPath_inj hpath).symm) _ _

end Journals

/-! ### What an engine finds -/

section Found

variable {details : BodyDetails} {indexKey : String} {root : CommitManifest} {disk : Disk} {directory : Directory}

theorem getElem?_segments {G : Type} {entries : List DeltaEntry} (find : ℕ → Option G) {entry : DeltaEntry}
    (hentry : entry ∈ entries) :
    (writeAll (∅ : Std.ExtTreeMap ℕ G compare) (entries.filterMap fun entry =>
      (find entry.seq).map fun content => (entry.seq, content)))[entry.seq]? = find entry.seq := by
  cases hfind : find entry.seq with
  | none =>
    rw [getElem?_writeAll_of_notMem]
    · simp
    · simp only [List.mem_map, List.mem_filterMap, Option.map_eq_some_iff, not_exists, not_and]
      rintro _ ⟨other, _, content, hcont, rfl⟩ hseq
      have hseq : other.seq = entry.seq := hseq
      rw [hseq, hfind] at hcont
      cases hcont
  | some content =>
    have hkey : entry.seq ∈ (entries.filterMap fun entry =>
        (find entry.seq).map fun content => (entry.seq, content)).map Prod.fst :=
      List.mem_map.mpr ⟨(entry.seq, content), List.mem_filterMap.mpr ⟨entry, hentry, by rw [hfind]; rfl⟩, rfl⟩
    obtain ⟨value, hvalue, hmem⟩ := exists_mem_of_getElem?_writeAll (∅ : Std.ExtTreeMap ℕ G compare) hkey
    obtain ⟨other, _, hother⟩ := List.mem_filterMap.mp hmem
    obtain ⟨found, hfound, hpair⟩ := Option.map_eq_some_iff.mp hother
    obtain ⟨hseq, rfl⟩ := Prod.mk.inj hpair
    rw [hseq, hfind] at hfound
    rw [hvalue, hfound]

/-- The files of a store, found where the manifest says they are. -/
theorem storeFiles_sameListed {kind : StoreKind} {manifest : Manifest (BaseInfo kind)}
    (hfiles : ∀ part, (kind, part) ∈ manifestFiles kind epoch manifest →
      directory.artifacts (filePath indexKey kind part) = blobAt disk kind part) :
    SameListed epoch manifest (disk.stores kind) (directory.storeFiles indexKey kind epoch manifest) := by
  refine ⟨?_, fun entry hentry => ?_⟩
  · have hbase := hfiles (.base epoch) List.mem_cons_self
    unfold Directory.storeFiles
    dsimp only
    rw [hbase, blobAt]
    cases (disk.stores kind).bases[epoch]? with
    | none => simp
    | some content => simp
  · have hseg := hfiles (.segment epoch entry.seq)
      (List.mem_cons_of_mem _ (List.mem_map.mpr ⟨entry, hentry, rfl⟩))
    have hdir : (directory.storeFiles indexKey kind epoch manifest).segment epoch entry.seq =
        (directory.artifacts (filePath indexKey kind (.segment epoch entry.seq))).bind (Blob.asSegment kind) := by
      unfold Files.segment
      rw [Directory.storeFiles, dir_insert, if_pos rfl]
      exact getElem?_segments (fun seq => (directory.artifacts (filePath indexKey kind (.segment epoch seq))).bind
        (Blob.asSegment kind)) hentry
    rw [hdir, hseg, blobAt]
    cases (disk.stores kind).segment epoch entry.seq <;> simp

theorem storeFiles_manifest {kind : StoreKind} {manifest : Manifest (BaseInfo kind)} :
    (directory.storeFiles indexKey kind epoch manifest).manifest epoch =
      (directory.journals (filePath indexKey kind (.manifest epoch))).bind (manifestOfValue kind) := by
  unfold Files.manifest
  rw [Directory.storeFiles, dir_insert, if_pos rfl]

/-- A directory with a commit: its body, the files it names, its journals' manifests. -/
structure Carries (details : BodyDetails) (indexKey : String) (root : CommitManifest) (disk : Disk)
    (directory : Directory) : Prop where
  pointer : directory.pointer = some (commitBody details indexKey root)
  artifacts : ∀ file ∈ root.files, directory.artifacts (filePath indexKey file.1 file.2) = blobAt disk file.1 file.2
  journals : ∀ kind manifest, kind ≠ .tvann → root.manifests kind = some manifest →
    directory.journals (filePath indexKey kind (.manifest (root.epochOf kind manifest))) =
      some (manifestValue details indexKey kind (root.epochOf kind manifest) manifest)

/-- What an engine finds where a commit was carried to. -/
theorem Carries.disk_eq (h : Carries details indexKey root disk directory)
    (hann : ∀ manifest, root.manifests .tvann = some manifest → manifest.deltas = [] ∧ manifest.nextSeq = 0) :
    ∃ found, directory.disk indexKey = some found ∧ found.root = some root ∧ (∀ kind, Agree root disk found kind) ∧
      ∀ kind ∈ deltaKinds, InSync found root kind := by
  have hread : directory.disk indexKey = some ⟨some root, fun kind =>
      match root.manifests kind with
      | none => .empty
      | some manifest => directory.storeFiles indexKey kind (root.epochOf kind manifest) manifest⟩ := by
    rw [Directory.disk, h.pointer, Option.bind_some, rootOfBody_commitBody hann, Option.map_some]
  refine ⟨_, hread, rfl, fun kind manifest hman => ?_, fun kind hkind => ?_⟩
  · dsimp only
    rw [hman]
    refine storeFiles_sameListed fun part hpart => h.artifacts (kind, part) ?_
    apply storeFiles_subset root kind
    rw [CommitManifest.storeFiles, hman]
    exact hpart
  · unfold InSync
    dsimp only
    have hne : kind ≠ .tvann ∧ kind ≠ .tvvf := by
      revert hkind
      cases kind <;> decide
    cases hman : root.manifests kind with
    | none => exact empty_manifest _
    | some manifest =>
      dsimp only
      have hepoch : root.epochOf kind manifest = root.baseEpoch := CommitManifest.epochOf_of_ne hne.2 manifest
      have hjournal := h.journals kind manifest hne.1 hman
      rw [hepoch] at hjournal
      rw [hepoch, storeFiles_manifest, hjournal, Option.bind_some, ← hepoch]
      exact manifestOfValue_manifestValue fun hkind => absurd hkind hne.1

end Found

end LodeDB.Cloud
