import LodeDB.Cloud.Directory
import LodeDB.Engine.OpenAgree
import LodeDB.Engine.Replayed

/-!
# Restoring a pushed generation

The inventory of a commit lists the files its load opens. Pushed to an empty store and pulled into an empty
directory, the commit opens to the same index, and the next delta commit leaves the same contents on both,
as long as the journals' manifests of the original are the copies its root records.
-/

namespace LodeDB.Cloud

open Journal ExceptRules Traced
open LodeDB.Storage LodeDB.Engine

variable {name : String} {first : Char} {rest : List Char} {kind : StoreKind} {part : Part}
  {artifact : ArtifactRef} {body : Value} {source : ArtifactStore} {found restored : Disk}
  {loaded : LoadedStore}

/-! ### Names inside the generation directory -/

/-- A path through plain file names into the generation directory of an index. -/
def InGenerationDir (indexKey path : String) : Prop :=
  ∃ names : List String, path = names.foldl (fun path name => path ++ "/" ++ name) (generationDir indexKey) ∧
    ∀ name ∈ names, ensurePlainFileName "" name = .ok ()

/-- Characters without a path separator among them. -/
def Unseparated (chars : List Char) : Prop := '/' ∉ chars ∧ '\\' ∉ chars

instance (chars : List Char) : Decidable (Unseparated chars) := inferInstanceAs (Decidable (_ ∧ _))

theorem unseparated_append {left right : List Char} (hleft : Unseparated left) (hright : Unseparated right) :
    Unseparated (left ++ right) :=
  ⟨by simp [hleft.1, hright.1], by simp [hleft.2, hright.2]⟩

theorem unseparated_toDigits (n : ℕ) : Unseparated (Nat.toDigits 10 n) := by
  have hdigit (c : Char) (hc : c ∈ Nat.toDigits 10 n) : c.isDigit = true :=
    Nat.isDigit_of_mem_toDigits (by decide) (by decide) hc
  exact ⟨fun hmem => absurd (hdigit _ hmem) (by decide), fun hmem => absurd (hdigit _ hmem) (by decide)⟩

theorem unseparated_stem (kind : StoreKind) (epoch : ℕ) : Unseparated (stem kind epoch) := by
  unfold stem
  refine unseparated_append ?_ (unseparated_toDigits epoch)
  split_ifs <;> decide

theorem unseparated_padded8 (n : ℕ) : Unseparated (padded8 n).toList := by
  rw [padded8, String.toList_append, String.toList_ofList, toString_toList]
  refine unseparated_append ⟨?_, ?_⟩ (unseparated_toDigits n)
  · exact fun hmem => absurd (List.eq_of_mem_replicate hmem) (by decide)
  · exact fun hmem => absurd (List.eq_of_mem_replicate hmem) (by decide)

/-- A name that has no separator and does not start with a dot is plain. -/
theorem ensurePlainFileName_eq_ok (hname : name.toList = first :: rest) (hdot : first ≠ '.')
    (hchars : Unseparated name.toList) : ensurePlainFileName "" name = .ok () := by
  refine if_neg ?_
  rintro (rfl | hmem | hmem | rfl | rfl)
  · cases hname
  · exact hchars.1 hmem
  · exact hchars.2 hmem
  · exact hdot (List.cons.inj hname).1.symm
  · exact hdot (List.cons.inj hname).1.symm

theorem ensurePlainFileName_stem {epoch : ℕ} (hname : name.toList = stem kind epoch ++ rest)
    (hrest : Unseparated rest) : ensurePlainFileName "" name = .ok () := by
  have hchars : Unseparated name.toList := hname ▸ unseparated_append (unseparated_stem kind epoch) hrest
  by_cases hkind : kind = .tvvf
  · rw [stem, if_pos hkind] at hname
    exact ensurePlainFileName_eq_ok hname (by decide) hchars
  · rw [stem, if_neg hkind] at hname
    exact ensurePlainFileName_eq_ok hname (by decide) hchars

theorem ensurePlainFileName_baseName (kind : StoreKind) (epoch : ℕ) :
    ensurePlainFileName "" (baseName kind epoch) = .ok () :=
  ensurePlainFileName_stem (baseName_toList kind epoch) (by cases kind <;> decide)

theorem ensurePlainFileName_deltaDir (kind : StoreKind) (epoch : ℕ) :
    ensurePlainFileName "" (deltaDir kind epoch) = .ok () :=
  ensurePlainFileName_stem (deltaDir_toList kind epoch) (by cases kind <;> decide)

theorem ensurePlainFileName_numbered {before after : String} (hbefore : before.toList = first :: rest)
    (hdot : first ≠ '.') (hplain : Unseparated before.toList) (hafter : Unseparated after.toList) (seq : ℕ) :
    ensurePlainFileName "" (before ++ padded8 seq ++ after) = .ok () := by
  have hname : (before ++ padded8 seq ++ after).toList = before.toList ++ (padded8 seq).toList ++ after.toList := by
    rw [String.toList_append, String.toList_append]
  have hhead : (before ++ padded8 seq ++ after).toList = first :: (rest ++ (padded8 seq).toList ++ after.toList) := by
    rw [hname, hbefore, List.cons_append, List.cons_append]
  refine ensurePlainFileName_eq_ok hhead hdot ?_
  rw [hname]
  exact unseparated_append (unseparated_append hplain (unseparated_padded8 seq)) hafter

theorem ensurePlainFileName_segmentName (hkind : kind ≠ .tvann) (seq : ℕ) :
    ensurePlainFileName "" (segmentName kind seq) = .ok () := by
  cases kind with
  | tvann => exact absurd rfl hkind
  | _ => exact ensurePlainFileName_numbered rfl (by decide) (by decide) (by decide) seq

theorem filePath_inGenerationDir {indexKey : String} (hpart : IsArtifact kind part) :
    InGenerationDir indexKey (filePath indexKey kind part) := by
  cases part with
  | manifest epoch => exact hpart.elim
  | base epoch =>
    refine ⟨[baseName kind epoch], rfl, ?_⟩
    simpa using ensurePlainFileName_baseName kind epoch
  | segment epoch seq =>
    refine ⟨[deltaDir kind epoch, segmentName kind seq], rfl, ?_⟩
    simpa using ⟨ensurePlainFileName_deltaDir kind epoch, ensurePlainFileName_segmentName hpart seq⟩

/-! ### The artifacts of a commit -/

section Artifacts

variable {format : Format} {details : BodyDetails} {indexKey : String} {root : CommitManifest} {disk : Disk}

theorem isArtifact_of_complete (h : Complete format disk root) (hfile : (kind, part) ∈ root.files) :
    IsArtifact kind part := by
  obtain ⟨manifest, hman, hfile⟩ := mem_files.mp hfile
  rcases List.mem_cons.mp hfile with heq | hseg
  · rw [(Prod.mk.inj heq).2]
    trivial
  · obtain ⟨entry, hentry, heq⟩ := List.mem_map.mp hseg
    rw [← (Prod.mk.inj heq).2]
    rintro rfl
    rw [h.ann_deltas hman] at hentry
    cases hentry

/-- The directory holds every artifact of its commit, with its recorded digest. -/
theorem holds_of_complete (h : Complete format disk root) (hart : artifact ∈ rootRefs details indexKey root) :
    Holds format (localStore details indexKey disk) artifact := by
  obtain ⟨kind, _, hstore⟩ := List.mem_flatMap.mp hart
  unfold storeRefs at hstore
  cases hman : root.manifests kind with
  | none =>
    rw [hman] at hstore
    cases hstore
  | some manifest =>
    rw [hman] at hstore
    obtain ⟨base, segments, hstands⟩ := h.stands kind manifest hman
    rcases List.mem_cons.mp hstore with rfl | hseg
    · refine ⟨.base kind base, ?_, hstands.sha256.symm⟩
      refine (openRead_filePath (show IsArtifact kind (.base _) from trivial)).trans ?_
      rw [blobAt, hstands.baseFile, Option.map_some]
    · obtain ⟨entry, hentry, rfl⟩ := List.mem_map.mp hseg
      obtain ⟨content, hcont, hsha⟩ := hstands.exists_segment hentry
      have hpart := isArtifact_of_complete h (mem_files.mpr ⟨manifest, hman,
          List.mem_cons_of_mem _ (List.mem_map.mpr ⟨entry, hentry, rfl⟩)⟩)
      refine ⟨.segment kind content, (openRead_filePath hpart).trans ?_, hsha⟩
      rw [blobAt, hcont, Option.map_some]

end Artifacts

/-! ### Push and pull -/

section RoundTrip

variable {Id : Type} [DecidableEq Id] {digests : Digests Id} {format : Format} {details : BodyDetails} {indexKey : String}
  {root : CommitManifest} {disk : Disk} {artifacts : List ArtifactRef}

theorem diffInventories_nil (source : List ArtifactRef) : diffInventories source [] = source := by
  simp [diffInventories, namedSha256]

theorem stageExport_full (h : inventoryFromBody indexKey body = .ok artifacts) :
    stageExport ⟨indexKey, .full, body⟩ none = .ok artifacts := by
  unfold stageExport Export.sourceBody
  dsimp only
  rw [redactBody_full, h]
  change Except.ok (diffInventories artifacts []) = _
  rw [diffInventories_nil]

theorem stageGeneration_full (hacc : inventoryFromBody indexKey body = .ok artifacts)
    (hheld : ∀ artifact ∈ artifacts, Holds format source artifact) :
    stageGeneration format source .empty ⟨indexKey, .full, body⟩ =
      .ok (copied source .empty (artifacts.map ArtifactRef.name)) := by
  have hcopied : artifacts.foldlM (copyArtifact format source) ArtifactStore.empty =
      .ok (copied source .empty (artifacts.map ArtifactRef.name)) := copyAll_eq_ok hheld fun _ _ => .inl rfl
  unfold stageGeneration
  rw [ArtifactStore.empty_pointer, stageExport_full hacc, ok_bind, hcopied]

theorem publishStaged_absent (body : Value) :
    publishStaged digests indexKey none none body = (some body, .ok body) := by
  simp [publishStaged, pointerPublished, compareAndSwapPointer]

/-- A store with every artifact of a body ships the body to an empty store. -/
theorem exportGeneration_full (hptr : source.pointer = some body)
    (hacc : inventoryFromBody indexKey body = .ok artifacts)
    (hheld : ∀ artifact ∈ artifacts, Holds format source artifact) :
    exportGeneration digests format source .empty indexKey .full =
      .ok { copied source .empty (artifacts.map ArtifactRef.name) with pointer := some body } := by
  unfold exportGeneration
  rw [hptr]
  dsimp only
  rw [stageGeneration_full hacc hheld, ok_bind, Export.sourceBody]
  dsimp only
  rw [redactBody_full, copied_pointer, ArtifactStore.empty_pointer, publishStaged_absent]
  rfl

/-- The directory a pull leaves. -/
def restoredTo (details : BodyDetails) (indexKey : String) (root : CommitManifest) (source : ArtifactStore)
    (names : List String) : Directory :=
  ⟨⟨some (commitBody details indexKey root), (copied source .empty names).artifacts⟩,
    allKinds.foldl (journaled details indexKey root) fun _ => none⟩

/-- A candidate that loads passes the check. -/
theorem verifyCandidateOpens_eq_ok
    (hacc : inventoryFromBody indexKey (commitBody details indexKey root) = .ok artifacts)
    (hheld : ∀ artifact ∈ artifacts, Holds format source artifact)
    (hfound : (restoredTo details indexKey root source (artifacts.map ArtifactRef.name)).disk indexKey = some found)
    (hroot : found.root = some root) (hload : loadGenerationStore format found root = .ok loaded) :
    verifyCandidateOpens format indexKey (copied source .empty (artifacts.map ArtifactRef.name))
      (commitBody details indexKey root) = .ok () := by
  have hlink : artifacts.foldlM (linkArtifact (copied source .empty (artifacts.map ArtifactRef.name)))
      (fun _ => none) = .ok (copied source .empty (artifacts.map ArtifactRef.name)).artifacts := by
    rw [linkAll_eq_ok]
    · congr 1
      funext name
      by_cases hname : name ∈ artifacts.map ArtifactRef.name
      · rw [if_pos hname]
      · rw [if_neg hname, copied]
        simp only [if_neg hname]
        rfl
    · intro artifact hart
      obtain ⟨blob, hblob, _⟩ := hheld artifact hart
      have hname : artifact.name ∈ artifacts.map ArtifactRef.name := List.mem_map_of_mem hart
      simp only [copied, if_pos hname, hblob, Option.isSome_some]
  unfold verifyCandidateOpens
  rw [hacc, ok_bind, hlink, ok_bind, writeRestoredJournalManifests_commitBody, ok_bind]
  unfold restoredTo at hfound
  rw [hfound]
  dsimp only
  rw [hroot]
  dsimp only
  rw [hload]
  rfl

/-- A pull of a commit that loads, into an empty directory. -/
theorem pull_full {remote : ArtifactStore} (hptr : remote.pointer = some (commitBody details indexKey root))
    (hacc : inventoryFromBody indexKey (commitBody details indexKey root) = .ok artifacts)
    (hheld : ∀ artifact ∈ artifacts, Holds format remote artifact)
    (hfound : (restoredTo details indexKey root remote (artifacts.map ArtifactRef.name)).disk indexKey = some found)
    (hroot : found.root = some root) (hload : loadGenerationStore format found root = .ok loaded) :
    pull digests format remote .empty indexKey =
      .ok (restoredTo details indexKey root remote (artifacts.map ArtifactRef.name)) := by
  unfold pull
  rw [hptr]
  dsimp only
  rw [show Directory.empty.toArtifactStore = ArtifactStore.empty from rfl, stageGeneration_full hacc hheld, ok_bind]
  rw [Export.sourceBody]
  dsimp only
  rw [redactBody_full, verifyCandidateOpens_eq_ok hacc hheld hfound hroot hload, ok_bind, copied_pointer,
    ArtifactStore.empty_pointer, publishStaged_absent]
  dsimp only
  rw [ok_bind, writeRestoredJournalManifests_commitBody, ok_bind]
  rfl

end RoundTrip

/-! ### What a restored commit is good for -/

section Faithful

variable {Id : Type} [DecidableEq Id] {P : Primitives} {digests : Digests Id} {format : Format} {details : BodyDetails}
  {indexKey : String} {root : CommitManifest} {disk : Disk} {artifacts : List ArtifactRef}

/-- A delta commit does the same on two directories: what it returns and, on success, what they open to. -/
structure CommitsAlike (P : Primitives) (format : Format) (disk other : Disk) (input : GenerationDeltaInput) :
    Prop where
  returned : (writeGenerationDelta format input other).2 = (writeGenerationDelta format input disk).2
  contents : (writeGenerationDelta format input disk).2 = .ok () → ∀ chunkCharacterLimit,
    (openStore P format (after other (writeGenerationDelta format input other).1) chunkCharacterLimit).map
        (Option.map VectorOnlyIndex.contents) =
      (openStore P format (after disk (writeGenerationDelta format input disk).1) chunkCharacterLimit).map
        (Option.map VectorOnlyIndex.contents)

/-- A restored commit opens to the same index, as does the next delta commit on it. -/
structure RestoresTo (P : Primitives) (format : Format) (root : CommitManifest) (disk restored : Disk) : Prop where
  index : ∀ chunkCharacterLimit,
    openStore P format restored chunkCharacterLimit = openStore P format disk chunkCharacterLimit
  commits : ∀ input : GenerationDeltaInput, input.baseEpoch = root.baseEpoch → CommitsAlike P format disk restored input

/-- The inventory of a commit lists what its load opens, inside the generation directory; and the commit,
pushed in full to an empty store and pulled into an empty directory, is restored. -/
structure Faithful (P : Primitives) (digests : Digests Id) (format : Format) (details : BodyDetails) (indexKey : String)
    (root : CommitManifest) (disk : Disk) (artifacts : List ArtifactRef) : Prop where
  inside : ∀ artifact ∈ artifacts, InGenerationDir indexKey artifact.name
  listed : ∀ name, name ∈ artifacts.map ArtifactRef.name ↔
    name ∈ (readGenerationStore format disk root).opened.map fun file => filePath indexKey file.1 file.2
  restored : ∃ remote directory restored,
    exportGeneration digests format (localStore details indexKey disk) .empty indexKey .full = .ok remote ∧
      pull digests format remote .empty indexKey = .ok directory ∧ directory.disk indexKey = some restored ∧
      RestoresTo P format root disk restored

theorem restoresTo_of_agree (hroot : disk.root = some root) (hrest : restored.root = some root)
    (hstate : (root.manifests .json).isSome) (hagree : ∀ kind, Agree root disk restored kind)
    (hsync : ∀ kind ∈ deltaKinds, InSync disk root kind)
    (hjournals : ∀ kind ∈ deltaKinds, InSync restored root kind) : RestoresTo P format root disk restored := by
  refine ⟨openStore_congr hroot hrest hstate hagree, fun input hepoch => ?_⟩
  have hapace : Apace root.baseEpoch root.manifests disk restored := by
    refine ⟨hrest.trans hroot.symm, hstate, fun kind hkind => ⟨hsync kind hkind, hjournals kind hkind⟩, ?_⟩
    intro kind hkind manifest hman
    have hlist := hagree kind manifest hman
    rwa [CommitManifest.epochOf_of_ne hkind] at hlist
  have halike : Alike _ (writeGenerationDelta format input) (writeGenerationDelta format input) _ :=
    writeGenerationDelta_alike hepoch
  refine ⟨(halike.returned disk restored ⟨hroot, hapace⟩).symm, fun hok chunkCharacterLimit => ?_⟩
  obtain ⟨next, hnext, hother, hstate, hagree⟩ := halike.ends disk restored () ⟨hroot, hapace⟩ hok
  exact openStore_contents hnext hother hstate hagree chunkCharacterLimit

/-- What a transfer relies on: the generation loads with its sidecar, and the journals are in step with the root. -/
structure Sound (format : Format) (disk : Disk) (root : CommitManifest) : Prop where
  committed : disk.root = some root
  complete : Complete format disk root
  loads : ∃ loaded, loadGenerationStore format disk root = .ok loaded
  sidecar : ∀ manifest, root.manifests .tvvf = some manifest →
    ∃ reader, TvvfReader.openWith format.tvvf (disk.stores .tvvf) manifest = .ok reader
  inSync : ∀ kind ∈ deltaKinds, InSync disk root kind

theorem Sound.ann (h : Sound format disk root) {manifest : Manifest Unit}
    (hman : root.manifests .tvann = some manifest) : manifest.deltas = [] ∧ manifest.nextSeq = 0 :=
  ⟨h.complete.ann_deltas hman, h.complete.annSeq manifest hman⟩

/-- The load opens exactly the files the root names. -/
theorem Sound.mem_opened (h : Sound format disk root) (file : StoreKind × Part) :
    file ∈ (readGenerationStore format disk root).opened ↔ file ∈ root.files := by
  obtain ⟨loaded, hload⟩ := h.loads
  constructor
  · exact (readGenerationStore_opens h.complete h.sidecar).within file
  · exact fun hfile => (readGenerationStore_opens h.complete h.sidecar).covers loaded
      ((readGenerationStore_result disk root).trans hload) file hfile

/-- The store a push leaves: the body and the artifacts it names. -/
def pushedTo (details : BodyDetails) (indexKey : String) (root : CommitManifest) (disk : Disk) : ArtifactStore :=
  { copied (localStore details indexKey disk) .empty ((rootRefs details indexKey root).map ArtifactRef.name) with
    pointer := some (commitBody details indexKey root) }

theorem holds_pushedTo (h : Complete format disk root) (hart : artifact ∈ rootRefs details indexKey root) :
    Holds format (pushedTo details indexKey root disk) artifact := by
  obtain ⟨blob, hblob, hsha⟩ := holds_of_complete h hart
  refine ⟨blob, ?_, hsha⟩
  rw [← hblob, pushedTo, copied]
  exact if_pos (List.mem_map_of_mem hart)

/-- Pushed and pulled, a commit is carried over. -/
theorem carries_restoredTo (h : Complete format disk root) :
    Carries details indexKey root disk (restoredTo details indexKey root (pushedTo details indexKey root disk)
      ((rootRefs details indexKey root).map ArtifactRef.name)) := by
  refine ⟨rfl, fun file hfile => ?_, fun kind manifest hkind hman => ?_⟩
  · have hname : filePath indexKey file.1 file.2 ∈ (rootRefs details indexKey root).map ArtifactRef.name := by
      rw [names_rootRefs]
      exact List.mem_map_of_mem hfile
    simp only [restoredTo, pushedTo, copied, if_pos hname]
    exact openRead_filePath (isArtifact_of_complete h hfile)
  · refine (foldl_journaled hkind hman allKinds _).trans (if_pos ?_)
    cases kind <;> decide

/-- A commit whose files are in place and whose journals are in step with the root is restored faithfully. -/
theorem restored_faithful (h : Sound format disk root)
    (haccepted : inventoryFromBody indexKey (commitBody details indexKey root) = .ok artifacts) :
    Faithful P digests format details indexKey root disk artifacts := by
  obtain rfl := inventoryFromBody_commitBody (fun manifest hmanifest => (h.ann hmanifest).1) haccepted
  have hpointer : (localStore details indexKey disk).pointer = some (commitBody details indexKey root) := by
    rw [localStore, h.committed, Option.map_some]
  obtain ⟨found, hfound, hroot, hagree, hjournals⟩ :=
    (carries_restoredTo h.complete).disk_eq fun manifest hmanifest => h.ann hmanifest
  obtain ⟨loaded, hloaded⟩ := h.loads
  have hload := (loadGenerationStore_congr h.complete.state hagree).trans hloaded
  refine ⟨fun artifact hartifact => ?_, fun name => ?_, ?_⟩
  · have hname : artifact.name ∈ (rootRefs details indexKey root).map ArtifactRef.name := List.mem_map_of_mem hartifact
    rw [names_rootRefs] at hname
    obtain ⟨file, hfile, hpath⟩ := List.mem_map.mp hname
    rw [← hpath]
    exact filePath_inGenerationDir (isArtifact_of_complete h.complete hfile)
  · rw [names_rootRefs]
    simp only [List.mem_map, h.mem_opened]
  · exact ⟨pushedTo details indexKey root disk, _, found,
      exportGeneration_full hpointer haccepted fun artifact hartifact => holds_of_complete h.complete hartifact,
      pull_full rfl haccepted (fun artifact hartifact => holds_pushedTo h.complete hartifact) hfound hroot hload, hfound,
      restoresTo_of_agree h.committed hroot h.complete.state hagree h.inSync hjournals⟩

end Faithful

/-! ### Concrete commits -/

section Sample

variable {format : Format} {disk : Disk} {root : CommitManifest}

instance : (kind : StoreKind) → DecidableEq (BaseInfo kind)
  | .tvim => inferInstanceAs (DecidableEq UInt64)
  | .tvvf => inferInstanceAs (DecidableEq TvvfInfo)
  | .json | .tvtext | .tvlex | .tvmv | .tvann => inferInstanceAs (DecidableEq Unit)

/-- A commit in place, without sidecars. -/
def InPlace (format : Format) (disk : Disk) (root : CommitManifest) : Prop :=
  ((root.manifests .json).isSome ∧ (root.manifests .tvann).isNone ∧ (root.manifests .tvvf).isNone) ∧
    (∀ kind ∈ allKinds, ∀ manifest ∈ root.manifests kind,
      ((disk.stores kind).bases[root.epochOf kind manifest]?).any (fun base =>
        manifest.sha256 = (format.digests kind).base base) ∧
      (∀ entry ∈ manifest.deltas, ((disk.stores kind).segment (root.epochOf kind manifest) entry.seq).any fun content =>
        (format.digests kind).segment content = entry.sha256) ∧
      (manifest.deltas.map (·.seq)).Pairwise (· < ·) ∧ ∀ entry ∈ manifest.deltas, entry.seq < manifest.nextSeq) ∧
    ∀ kind ∈ deltaKinds, (disk.stores kind).manifest root.baseEpoch = root.manifests kind

instance : Decidable (InPlace format disk root) := inferInstanceAs (Decidable (_ ∧ _ ∧ _))

/-- Such a commit can be transferred. -/
theorem InPlace.sound (h : InPlace format disk root) (hroot : disk.root = some root)
    (hload : loadGenerationStore format disk root = .ok loaded) : Sound format disk root := by
  obtain ⟨⟨hstate, hann, htvvf⟩, hfiles, hsync⟩ := h
  rw [Option.isNone_iff_eq_none] at hann htvvf
  refine ⟨hroot, ⟨hstate, ?_, ?_, fun kind manifest hman => ?_⟩, ⟨loaded, hload⟩, ?_, hsync⟩
  · rw [hann]
    exact fun _ hsome => by cases hsome
  · rw [hann]
    exact fun hsome => by cases hsome
  · obtain ⟨hbase, hsegments, hascending, hbelow⟩ := hfiles kind (by cases kind <;> decide) manifest hman
    obtain ⟨base, hfound, hsha⟩ := (Option.any_eq_true _ _).mp hbase
    obtain ⟨segments, hlisted⟩ := exists_forall₂.mpr fun entry hentry => (Option.any_eq_true _ _).mp (hsegments entry hentry)
    refine ⟨base, segments, hfound, of_decide_eq_true hsha, ?_, hascending, hbelow⟩
    exact hlisted.imp fun _ _ hsegment => ⟨hsegment.1, of_decide_eq_true hsegment.2⟩
  · rw [htvvf]
    exact fun _ hsome => by cases hsome

/-- Digests of the shape a body records. -/
def hexFormat : Format :=
  { Format.sample with
    digests _ := ⟨fun _ => String.ofList (List.replicate 64 'a'), fun _ => String.ofList (List.replicate 64 'b')⟩ }

/-- A body that records no sizes. -/
def plainDetails : BodyDetails := ⟨4, 4, none, false, fun _ _ => 0, fun _ => []⟩

/-- A machine after one more action. -/
def taking (machine : Machine) (action : Action) : Machine :=
  (machine.step .sample hexFormat ⟨8, none, false⟩ action).getD machine

/-- A machine that has put and persisted four documents. -/
def committedFour : Machine :=
  taking (taking (.fresh ⟨8, none, false⟩)
    (calling (.upsertVectors [zeroDocument "a", zeroDocument "b", zeroDocument "c", zeroDocument "d"]))) persisting

/-- The machine once it has put a fifth document. -/
def fifthPut : Machine := taking committedFour (calling (.upsertVectors [zeroDocument "e"]))

/-- The base of four documents and the delta of a fifth, pushed and pulled. -/
theorem restored_faithful_fifth : ∃ root artifacts, (taking fifthPut persisting).disk.root = some root ∧
    (∀ kind ∈ [StoreKind.json, .tvim], (root.manifests kind).any fun manifest => manifest.deltas.length = 1) ∧
    inventoryFromBody "notes" (commitBody plainDetails "notes" root) = .ok artifacts ∧
    Faithful .sample plainDigests hexFormat plainDetails "notes" root (taking fifthPut persisting).disk artifacts := by
  have hchecks : (taking fifthPut persisting).disk.root.any (fun root =>
      decide (InPlace hexFormat (taking fifthPut persisting).disk root) &&
      decide (∀ kind ∈ [StoreKind.json, .tvim], (root.manifests kind).any fun manifest => manifest.deltas.length = 1) &&
      (ignoreError (loadGenerationStore hexFormat (taking fifthPut persisting).disk root)).isSome &&
      (inventoryFromBody "notes" (commitBody plainDetails "notes" root)).toBool) = true := by decide +kernel
  obtain ⟨root, hroot, hcheck⟩ := (Option.any_eq_true _ _).mp hchecks
  simp only [Bool.and_eq_true, decide_eq_true_eq] at hcheck
  obtain ⟨⟨⟨hfiles, hdeltas⟩, hload⟩, hinventory⟩ := hcheck
  cases hloaded : loadGenerationStore hexFormat (taking fifthPut persisting).disk root with
  | error error =>
    rw [hloaded] at hload
    cases hload
  | ok loaded =>
    cases haccepted : inventoryFromBody "notes" (commitBody plainDetails "notes" root) with
    | error error =>
      rw [haccepted] at hinventory
      cases hinventory
    | ok artifacts =>
      exact ⟨root, artifacts, hroot, hdeltas, haccepted, restored_faithful (hfiles.sound hroot hloaded) haccepted⟩

/-- A crash in the commit of a fifth document, between journals and root. -/
def stoppedFifth : Machine := taking fifthPut (.crash ⟨false, false⟩ none 4)

/-- The delta commit of a sixth document, once the directory is opened again. -/
def sixthInput : Option GenerationDeltaInput :=
  (taking (taking stoppedFifth (.reopen 100)) (calling (.upsertVectors [zeroDocument "f"]))).session.bind
    fun session => (ignoreError (buildTvimDelta .sample session.index)).map fun tvim =>
      deltaInput .sample ⟨false, false⟩ session.index 2 tvim none

/-- A directory pushed and pulled. -/
def restoredFrom (disk : Disk) : Option Disk :=
  match exportGeneration plainDigests hexFormat (localStore plainDetails "notes" disk) .empty "notes" .full with
  | .error _ => none
  | .ok remote =>
    match pull plainDigests hexFormat remote .empty "notes" with
    | .error _ => none
    | .ok directory => directory.disk "notes"

/-- Whether a directory opens after a delta commit. -/
def opensAfter (input : GenerationDeltaInput) (disk : Disk) : Bool :=
  (openStore .sample hexFormat (after disk (writeGenerationDelta hexFormat input disk).1) 100).toBool

/-- The sixth document's commit goes after the crash's segment: only the restored directory still opens. -/
theorem sixthInput_differs : (sixthInput.any fun input => stoppedFifth.disk.root.any fun root =>
    decide (input.baseEpoch = root.baseEpoch) &&
      decide ((writeGenerationDelta hexFormat input stoppedFifth.disk).2 = .ok ()) &&
      !opensAfter input stoppedFifth.disk && (restoredFrom stoppedFifth.disk).all (opensAfter input) &&
      (inventoryFromBody "notes" (commitBody plainDetails "notes" root)).toBool) = true := by
  decide +kernel

theorem toBool_map {ε α β : Type} (result : Except ε α) (f : α → β) : (result.map f).toBool = result.toBool := by
  cases result <;> rfl

theorem CommitsAlike.opensAfter_eq {input : GenerationDeltaInput}
    (h : CommitsAlike .sample hexFormat disk restored input)
    (hok : (writeGenerationDelta hexFormat input disk).2 = .ok ()) :
    opensAfter input restored = opensAfter input disk := by
  have hcont := congrArg Except.toBool (h.contents hok 100)
  rwa [toBool_map, toBool_map] at hcont

theorem run_taking {machine last : Machine} {action : Action} {rest : List Action}
    (hstep : (machine.step .sample hexFormat ⟨8, none, false⟩ action).isSome = true) (hholds : machine.Holds action)
    (hrest : MachineRun .sample hexFormat ⟨8, none, false⟩ (fun _ _ => True) (taking machine action) rest last) :
    MachineRun .sample hexFormat ⟨8, none, false⟩ (fun _ _ => True) machine (action :: rest) last := by
  obtain ⟨next, hnext⟩ := Option.isSome_iff_exists.mp hstep
  refine .step hholds trivial hnext ?_
  rwa [taking, hnext, Option.getD_some] at hrest

/-- A commit stopped after its journals were written leaves them ahead of the root. The restored directory goes by
the root: the next delta commit opens there, but not on the original. -/
theorem exists_run_not_faithful :
    ¬ ∀ (P : Primitives) (digests : Digests Value) (format : Format) (details : BodyDetails) (indexKey : String)
      (creation : Creation) (actions : List Action) (last : Machine) (root : CommitManifest)
      (artifacts : List ArtifactRef),
      MachineRun P format creation (fun _ _ => True) (.fresh creation) actions last → last.disk.root = some root →
      inventoryFromBody indexKey (commitBody details indexKey root) = .ok artifacts →
      Faithful P digests format details indexKey root last.disk artifacts := by
  intro hclaim
  have hrun : MachineRun .sample hexFormat ⟨8, none, false⟩ (fun _ _ => True) (.fresh ⟨8, none, false⟩)
      [calling (.upsertVectors [zeroDocument "a", zeroDocument "b", zeroDocument "c", zeroDocument "d"]), persisting,
        calling (.upsertVectors [zeroDocument "e"]), .crash ⟨false, false⟩ none 4] stoppedFifth := by
    refine run_taking (by decide +kernel) (fun _ _ => trivial) ?_
    refine run_taking (by decide +kernel) trivial ?_
    refine run_taking (by decide +kernel) (fun _ _ => trivial) ?_
    exact run_taking (by decide +kernel) trivial (.done _)
  obtain ⟨input, -, hinput⟩ := (Option.any_eq_true _ _).mp sixthInput_differs
  obtain ⟨root, hroot, hcheck⟩ := (Option.any_eq_true _ _).mp hinput
  simp only [Bool.and_eq_true, decide_eq_true_eq, Bool.not_eq_true'] at hcheck
  obtain ⟨⟨⟨⟨hepoch, hok⟩, horiginal⟩, hopens⟩, hinventory⟩ := hcheck
  cases haccepted : inventoryFromBody "notes" (commitBody plainDetails "notes" root) with
  | error error =>
    rw [haccepted] at hinventory
    cases hinventory
  | ok artifacts =>
    obtain ⟨remote, directory, restored, hexport, hpull, hdisk, hrestores⟩ :=
      (hclaim .sample plainDigests hexFormat plainDetails "notes" _ _ _ root artifacts hrun hroot haccepted).restored
    have hrestored : restoredFrom stoppedFifth.disk = some restored := by
      rw [restoredFrom, hexport]
      dsimp only
      rw [hpull]
      exact hdisk
    rw [hrestored, Option.all_some, (hrestores.commits input hepoch).opensAfter_eq hok, horiginal] at hopens
    cases hopens

end Sample

end LodeDB.Cloud
