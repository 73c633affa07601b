import LodeDB.Storage.Commit

/-!
# What a commit leaves in the stores

Each store is followed on its own. A base commit leaves the recorded base, a delta commit one more segment on the
journal's manifest on disk; a delta commit that stops has appended to some stores and left the root in place.
`Standing` says what a store holds under a root's copy of its manifest.
-/

namespace LodeDB.Storage

open Journal Traced

variable {kinds rest : List StoreKind} {live : ℕ} {failed : Disk → Prop}

/-- What a store holds: a base and the segments after it, or nothing. -/
abbrev Content (kind : StoreKind) := Option (Base kind × List (Segment kind))

/-- A content with one more segment. -/
def Content.push {kind : StoreKind} (content : Content kind) (segment : Option (Segment kind × ℕ × ℕ)) :
    Content kind :=
  match content, segment with
  | some (base, segments), some (next, _, _) => some (base, segments ++ [next])
  | content, _ => content

variable (format : Format)

/-- The files of a store hold a content, going by a copy of its manifest. -/
inductive Standing (kind : StoreKind) (files : StoreFiles kind) (epoch : ℕ) :
    Option (Manifest (BaseInfo kind)) → Content kind → Prop
  | absent : Standing kind files epoch none none
  | present {manifest : Manifest (BaseInfo kind)} {base : Base kind} {segments : List (Segment kind)}
      (h : Stands (format.digests kind) files epoch manifest base segments) :
      Standing kind files epoch (some manifest) (some (base, segments))

variable {format}

theorem Standing.stands {kind : StoreKind} {files : StoreFiles kind} {epoch : ℕ}
    {manifest : Manifest (BaseInfo kind)} {base : Base kind} {segments : List (Segment kind)}
    (h : Standing format kind files epoch (some manifest) (some (base, segments))) :
    Stands (format.digests kind) files epoch manifest base segments := by
  cases h with
  | present hstands => exact hstands

section Loop

variable {Item : StoreKind → Type} {items : (kind : StoreKind) → Option (Item kind)}
  {run : (kind : StoreKind) → Item kind → DiskProgram (Manifest (BaseInfo kind))}
  {Done : (kind : StoreKind) → Item kind → StoreFiles kind → Manifest (BaseInfo kind) → StoreFiles kind → Prop}
  {start disk : Disk} {initial manifests : Manifests} {canFail : Prop} {kind : StoreKind}

/-- The stores on the way of a loop: those to come and those without an item are as they were, the others are done. -/
structure StoresDone (items : (kind : StoreKind) → Option (Item kind))
    (Done : (kind : StoreKind) → Item kind → StoreFiles kind → Manifest (BaseInfo kind) → StoreFiles kind → Prop)
    (kinds : List StoreKind) (start : Disk) (initial : Manifests) (rest : List StoreKind) (manifests : Manifests)
    (disk : Disk) : Prop where
  nodup : rest.Nodup
  subset : rest ⊆ kinds
  root : disk.root = start.root
  skipped : ∀ kind, kind ∈ rest ∨ kind ∉ kinds ∨ items kind = none →
    disk.stores kind = start.stores kind ∧ manifests kind = initial kind
  done : ∀ kind ∈ kinds, kind ∉ rest → ∀ item, items kind = some item →
    ∃ manifest, manifests kind = some manifest ∧ Done kind item (start.stores kind) manifest (disk.stores kind)

/-- One more store is done. -/
theorem StoresDone.next (h : StoresDone items Done kinds start initial (kind :: rest) manifests disk)
    {item : Item kind} (hitem : items kind = some item) {manifest : Manifest (BaseInfo kind)}
    {files : StoreFiles kind} (hdone : Done kind item (disk.stores kind) manifest files) :
    StoresDone items Done kinds start initial rest (Function.update manifests kind (some manifest))
      (disk.setStore kind files) := by
  obtain ⟨hnotMem, hnodup⟩ := List.nodup_cons.mp h.nodup
  have hkind := h.subset List.mem_cons_self
  refine ⟨hnodup, fun _ hmem => h.subset (List.mem_cons_of_mem _ hmem), h.root, ?_, ?_⟩
  · intro other hother
    have hne : other ≠ kind := by
      rintro rfl
      rcases hother with hmem | hnot | hnone
      · exact hnotMem hmem
      · exact hnot hkind
      · simp [hitem] at hnone
    rw [setStore_other _ _ _ hne, Function.update_of_ne hne]
    exact h.skipped other (hother.imp_left (List.mem_cons_of_mem _))
  · intro other hmem hnot otherItem hother
    by_cases heq : other = kind
    · subst heq
      obtain rfl := Option.some.inj (hitem.symm.trans hother)
      rw [(h.skipped other (.inl List.mem_cons_self)).1] at hdone
      exact ⟨manifest, Function.update_self .., by rwa [setStore_same]⟩
    · rw [setStore_other _ _ _ heq, Function.update_of_ne heq]
      exact h.done other hmem (by simp [heq, hnot]) otherItem hother

/-- A loop whose programs each replace their store's files ends with all of them done, or stops on the way. -/
theorem eachStore_ends (hrun : ∀ kind item disk, Ends (· = disk) (run kind item)
      (fun manifest next => ∃ files, next = disk.setStore kind files ∧ Done kind item (disk.stores kind) manifest files)
      fun next => canFail ∧ next = disk) (hnodup : kinds.Nodup) (start : Disk) (initial : Manifests) :
    Ends (· = start) (eachStore items run kinds initial) (StoresDone items Done kinds start initial [])
      fun disk => canFail ∧ ∃ rest manifests, StoresDone items Done kinds start initial rest manifests disk := by
  refine (eachStore_triple (I := StoresDone items Done kinds start initial) ?_ ?_ kinds initial).weakenPre ?_
  · intro kind rest manifests disk hnone h
    refine ⟨h.nodup.of_cons, fun _ hmem => h.subset (List.mem_cons_of_mem _ hmem), h.root,
      fun other hother => h.skipped other (hother.imp_left (List.mem_cons_of_mem _)), ?_⟩
    intro other hmem hnot item hitem
    refine h.done other hmem ?_ item hitem
    rintro (_ | ⟨_, hrest⟩)
    · simp [hnone] at hitem
    · exact hnot hrest
  · intro kind rest manifests item hitem
    refine Triple.named fun disk h => (hrun kind item disk).weaken (fun _ h => h) ?_ ?_
    · rintro manifest _ ⟨files, rfl, hdone⟩
      exact h.next hitem hdone
    · rintro _ _ ⟨hfail, rfl⟩
      exact ⟨hfail, _, _, h⟩
  · rintro _ rfl
    exact ⟨hnodup, List.Subset.refl _, rfl, fun _ _ => ⟨rfl, rfl⟩, fun _ hmem hnot => absurd hmem hnot⟩

end Loop

section Base

variable {epoch : ℕ} {start : Disk}

/-- What recording a base leaves. The cluster assignment is not followed. -/
abbrev RecordDone (format : Format) (epoch : ℕ) (kind : StoreKind) (base : Base kind × BaseInfo kind)
    (files : StoreFiles kind) (manifest : Manifest (BaseInfo kind)) (next : StoreFiles kind) : Prop :=
  kind ≠ .tvann → next = recordedFiles (format.digests kind) (·.getD 0 + 1) files epoch base.1 base.2 ∧
      manifest = recorded (format.digests kind) (·.getD 0 + 1) files epoch base.1 base.2

/-- Recording one store. -/
theorem recordStore_ends (kind : StoreKind) (base : Base kind × BaseInfo kind) (start : Disk) :
    Ends (· = start) (recordStore format kind epoch base.1 base.2)
      (fun manifest disk => ∃ files, disk = start.setStore kind files ∧
        RecordDone format epoch kind base (start.stores kind) manifest files) fun disk => False ∧ disk = start := by
  unfold recordStore
  refine Ends.zoom (fun disk => setStore_stores disk kind) ?_
  rintro disk rfl
  split
  · rename_i hann
    refine ⟨fun _ _ => steps_true, ?_, fun _ _ _ herror => by cases herror⟩
    rintro _ manifest rfl _
    exact ⟨_, rfl, fun hne => absurd hann hne⟩
  · refine ⟨fun _ _ => steps_true, ?_, fun _ _ _ herror => by cases herror⟩
    rintro _ manifest rfl hok
    cases hok
    exact ⟨_, rfl, fun _ => ⟨rfl, rfl⟩⟩

/-- After collecting old epochs the root and the live epoch are as they were. -/
structure CollectedDisk (live : ℕ) (start disk : Disk) : Prop where
  root : disk.root = start.root
  stores : ∀ kind, SameEpoch live (start.stores kind) (disk.stores kind)

theorem CollectedDisk.refl (live : ℕ) (disk : Disk) : CollectedDisk live disk disk :=
  ⟨rfl, fun kind => .refl live (disk.stores kind)⟩

/-- Replacing a store by what a collection leaves of it. -/
theorem CollectedDisk.setStore {disk : Disk} (h : CollectedDisk live start disk) {kind : StoreKind}
    {files : StoreFiles kind} (hfiles : SameEpoch live (disk.stores kind) files) :
    CollectedDisk live start (disk.setStore kind files) := by
  refine ⟨h.root, ?_⟩
  intro other
  by_cases heq : other = kind
  · subst heq
    rw [setStore_same]
    exact (h.stores other).trans hfiles
  · rw [setStore_other _ _ _ heq]
    exact h.stores other

/-- Collecting after a base rewrite. -/
theorem gcAfterBaseRewrite_ends (live count : ℕ) (start : Disk) :
    Ends (· = start) (gcAfterBaseRewrite live count) (fun _ => CollectedDisk live start) fun _ => False := by
  refine Triple.weaken (gcAfterBaseRewrite_triple live count ?_) (fun _ heq => heq ▸ .refl live start)
    (fun _ _ h => h) fun _ _ h => h
  rintro epoch hepoch kind - op (rfl | rfl) disk h
  · exact ⟨trivial, h.setStore (sameEpoch_removeBase _ hepoch)⟩
  · exact ⟨trivial, h.setStore (sameEpoch_removeDir _ hepoch)⟩

/-- The directory after a base commit. -/
structure BaseCommitted (format : Format) (input : GenerationCommitInput) (start disk : Disk) : Prop where
  root : ∃ manifests : Manifests, disk.root =
      some (buildCommitBody input.generation input.appliedLsn input.baseEpoch manifests) ∧
    manifests .tvvf = input.tvvfManifest ∧
    ∀ kind ∈ deltaKinds, Standing format kind (disk.stores kind) input.baseEpoch (manifests kind)
        ((input.bases kind).map fun base => (base.1, [])) ∧
      (∀ content info, input.bases kind = some (content, info) → ∃ manifest, manifests kind = some manifest ∧
        (disk.stores kind).manifest input.baseEpoch = some manifest ∧ manifest.base = info)

/-- A base commit succeeds. -/
theorem writeGenerationCommit_ends (input : GenerationCommitInput) (start : Disk) :
    Ends (· = start) (writeGenerationCommit format input) (fun _ => BaseCommitted format input start)
      fun _ => False := by
  unfold writeGenerationCommit
  rw [recordStores_eq]
  apply ((eachStore_ends recordStore_ends (by decide) start fun _ => none).weakenFailed fun _ _ h => h.1).bind
  intro manifests
  refine Triple.named fun recorded h => ?_
  apply Triple.via fun _ disk => disk = recorded.apply (.root (buildCommitBody input.generation
    input.appliedLsn input.baseEpoch (Function.update manifests .tvvf input.tvvfManifest)))
  · apply Triple.perform
    rintro _ rfl
    exact ⟨trivial, rfl⟩
  intro _
  refine (gcAfterBaseRewrite_ends input.baseEpoch retainedEpochs _).weakenPost ?_
  intro _ disk hgc
  have hmem : ∀ kind ∈ deltaKinds, kind ∈ baseKinds ∧ kind ≠ .tvann ∧ kind ≠ .tvvf := by decide
  refine ⟨_, hgc.root, by simp, ?_⟩
  intro kind hkind
  obtain ⟨hbaseKind, hann, htvvf⟩ := hmem kind hkind
  have hkept : SameEpoch input.baseEpoch (recorded.stores kind) (disk.stores kind) := hgc.stores kind
  rw [Function.update_of_ne htvvf]
  cases hbase : input.bases kind with
  | none =>
    rw [(h.skipped kind (.inr (.inr hbase))).2]
    exact ⟨.absent, fun _ _ hsome => by cases hsome⟩
  | some base =>
    obtain ⟨_, hman, hdone⟩ := h.done kind hbaseKind List.not_mem_nil base hbase
    obtain ⟨hstore, rfl⟩ := hdone hann
    rw [hstore] at hkept
    rw [hman]
    refine ⟨.present ((stands_recorded _ _ _ base.1 base.2).sameEpoch hkept), ?_⟩
    intro content info hsome
    cases hsome
    refine ⟨_, rfl, ?_, rfl⟩
    rw [hkept.manifest_eq]
    exact writeManifest_manifest _ _ _

end Base

section Delta

variable {segments : (kind : StoreKind) → Option (Segment kind × ℕ × ℕ)} {epoch : ℕ} {start : Disk}

/-- What appending a segment leaves. -/
abbrev AppendDone (format : Format) (epoch : ℕ) (kind : StoreKind) (segment : Segment kind × ℕ × ℕ)
    (files : StoreFiles kind) (pushed : Manifest (BaseInfo kind)) (next : StoreFiles kind) : Prop :=
  ∃ manifest, files.manifest epoch = some manifest ∧
    next = appendedFiles (format.digests kind) files epoch manifest segment.1 segment.2.1 segment.2.2 ∧
    pushed = manifest.push ((format.digests kind).segment segment.1) segment.2.1 segment.2.2

/-- The stores on the way of an append to some of them. -/
abbrev AppendedStores (format : Format) (segments : (kind : StoreKind) → Option (Segment kind × ℕ × ℕ))
    (epoch : ℕ) : List StoreKind → Disk → Manifests → List StoreKind → Manifests → Disk → Prop :=
  StoresDone segments (AppendDone format epoch)

/-- Appending to one store. -/
theorem appendDelta_ends (kind : StoreKind) (segment : Segment kind × ℕ × ℕ) (start : Disk) :
    Ends (· = start) (onStore kind (appendDelta (format.digests kind) (manifestMissing kind) epoch segment.1
        segment.2.1 segment.2.2)) (fun pushed disk => ∃ files, disk = start.setStore kind files ∧
        AppendDone format epoch kind segment (start.stores kind) pushed files) fun disk => True ∧ disk = start := by
  refine Ends.zoom (fun disk => setStore_stores disk kind) ?_
  rintro disk rfl
  cases hman : (disk.stores kind).manifest epoch with
  | none =>
    refine ⟨fun _ _ => steps_true, ?_, ?_⟩
    · rintro files pushed rfl hok
      rw [appendDelta_missing _ _ _ _ _ hman] at hok
      cases hok
    · rintro files error rfl _
      rw [appendDelta_missing _ _ _ _ _ hman]
      exact ⟨trivial, setStore_stores disk kind⟩
  | some manifest =>
    have hruns : Runs (appendDelta (format.digests kind) (manifestMissing kind) epoch segment.1 segment.2.1
        segment.2.2) _ _ _ := appendDelta_runs hman _ _ _ _
    refine ⟨fun _ _ => steps_true, ?_, ?_⟩
    · rintro files pushed rfl hok
      rw [hruns.returned] at hok
      cases hok
      exact ⟨_, by rw [hruns.final], manifest, hman, rfl, rfl⟩
    · rintro files error rfl herror
      rw [hruns.returned] at herror
      cases herror

/-- The directory after a delta commit. -/
structure DeltaCommitted (format : Format) (input : GenerationDeltaInput) (previous : CommitManifest)
    (start disk : Disk) : Prop where
  before : start.root = some previous
  appended : ∃ manifests, AppendedStores format (input.segments previous) input.baseEpoch deltaKinds start
      previous.manifests [] manifests { disk with root := start.root } ∧
    disk.root = some (buildCommitBody input.generation input.appliedLsn input.baseEpoch (input.seal manifests))

/-- A delta commit that stops leaves the root in place. -/
structure DeltaStopped (format : Format) (input : GenerationDeltaInput) (start disk : Disk) : Prop where
  root : disk.root = start.root
  appended : disk = start ∨ ∃ previous rest manifests, start.root = some previous ∧
    AppendedStores format (input.segments previous) input.baseEpoch deltaKinds start previous.manifests rest
      manifests disk

theorem writeGenerationDelta_ends (input : GenerationDeltaInput) (start : Disk) :
    Ends (· = start) (writeGenerationDelta format input)
      (fun _ disk => ∃ previous, DeltaCommitted format input previous start disk)
      (DeltaStopped format input start) := by
  refine Triple.lookThen ?_
  cases hroot : start.root with
  | none => exact .fail _ fun disk hdisk => ⟨by rw [hdisk], .inl hdisk⟩
  | some previous =>
    simp only [appendStores_eq]
    apply ((eachStore_ends appendDelta_ends (by decide) start previous.manifests).weakenFailed ?_).bind
    · intro manifests
      refine Triple.perform fun disk h => ⟨trivial, previous, hroot, manifests, ?_, rfl⟩
      exact ⟨h.nodup, h.subset, rfl, h.skipped, h.done⟩
    · rintro _ disk ⟨-, rest, manifests, h⟩
      exact ⟨h.root, .inr ⟨previous, rest, manifests, hroot, h⟩⟩

/-- The stores whose manifest on disk is the root's copy. -/
def InSync (disk : Disk) (root : CommitManifest) (kind : StoreKind) : Prop :=
  (disk.stores kind).manifest root.baseEpoch = root.manifests kind

variable {kind : StoreKind} {content : Content kind} {initial manifests : Manifests} {disk : Disk}

/-- A store on the way of an append is as it was, or has one more segment on disk. -/
theorem StoresDone.appended (h : AppendedStores format segments epoch kinds start initial rest manifests disk)
    (hkind : kind ∈ kinds) (hsync : segments kind ≠ none → (start.stores kind).manifest epoch = initial kind) :
    (disk.stores kind = start.stores kind ∧ manifests kind = initial kind ∧ (rest = [] → segments kind = none)) ∨
      ∃ segment manifest, segments kind = some segment ∧ initial kind = some manifest ∧
        disk.stores kind = appendedFiles (format.digests kind) (start.stores kind) epoch manifest segment.1
          segment.2.1 segment.2.2 ∧
        manifests kind = some (manifest.push ((format.digests kind).segment segment.1) segment.2.1 segment.2.2) := by
  by_cases hskip : kind ∈ rest ∨ segments kind = none
  · obtain ⟨hstore, hman⟩ := h.skipped kind (hskip.imp_right .inr)
    refine .inl ⟨hstore, hman, ?_⟩
    rintro rfl
    exact hskip.resolve_left List.not_mem_nil
  · rw [not_or] at hskip
    obtain ⟨segment, hseg⟩ := Option.ne_none_iff_exists'.mp hskip.2
    obtain ⟨pushed, hpushed, manifest, hman, hstore, rfl⟩ := h.done kind hkind hskip.1 segment hseg
    exact .inr ⟨segment, manifest, hseg, (hsync hskip.2).symm.trans hman, hstore, hpushed⟩

/-- Sealing a delta commit touches only the sidecars. -/
theorem GenerationDeltaInput.seal_apply (input : GenerationDeltaInput) (manifests : Manifests)
    (hkind : kind ∈ deltaKinds) : input.seal manifests kind = manifests kind := by
  have hne : kind ≠ .tvvf ∧ kind ≠ .tvann := by
    revert hkind
    cases kind <;> decide
  rw [GenerationDeltaInput.seal, Function.update_of_ne hne.1, Function.update_of_ne hne.2]

variable (hsync : segments kind ≠ none → (start.stores kind).manifest epoch = initial kind) (hkind : kind ∈ kinds)

include hsync hkind

/-- A store after an append, if the manifest on disk was the copy it started from. -/
theorem StoresDone.standing (h : AppendedStores format segments epoch kinds start initial [] manifests disk)
    (hstand : Standing format kind (start.stores kind) epoch (initial kind) content) :
    Standing format kind (disk.stores kind) epoch (manifests kind) (content.push (segments kind)) := by
  rcases h.appended hkind hsync with ⟨hstore, hman, hnone⟩ | ⟨segment, manifest, hseg, hinit, hstore, hpushed⟩
  · rw [hstore, hman, hnone rfl]
    cases content <;> exact hstand
  · rw [hinit] at hstand
    rw [hstore, hpushed, hseg]
    cases hstand with
    | present hstands => exact .present (hstands.append _ _ _)

/-- An append keeps what a manifest says of its base, and needs a manifest. -/
theorem StoresDone.base (h : AppendedStores format segments epoch kinds start initial [] manifests disk) :
    (manifests kind).map (·.base) = (initial kind).map (·.base) ∧ (segments kind ≠ none → initial kind ≠ none) := by
  rcases h.appended hkind hsync with ⟨-, hman, hnone⟩ | ⟨segment, manifest, -, hinit, -, hpushed⟩
  · exact ⟨by rw [hman], fun hne => absurd (hnone rfl) hne⟩
  · rw [hpushed, hinit]
    exact ⟨rfl, fun _ => Option.some_ne_none _⟩

/-- A store after an append that stopped still holds what the root says. -/
theorem StoresDone.stillStanding (h : AppendedStores format segments epoch kinds start initial rest manifests disk)
    (hstand : Standing format kind (start.stores kind) epoch (initial kind) content) :
    Standing format kind (disk.stores kind) epoch (initial kind) content := by
  rcases h.appended hkind hsync with ⟨hstore, -⟩ | ⟨segment, manifest, -, hinit, hstore, -⟩
  · rwa [hstore]
  · rw [hinit] at hstand ⊢
    rw [hstore]
    cases hstand with
    | present hstands => exact .present (hstands.appended _ _ _)

end Delta

section Sidecar

variable {start : Disk}

/-- Nothing but the original-precision sidecar differs. -/
structure OnlySidecar (start disk : Disk) : Prop where
  root : disk.root = start.root
  stores : ∀ kind, kind ≠ .tvvf → disk.stores kind = start.stores kind

theorem OnlySidecar.refl (disk : Disk) : OnlySidecar disk disk := ⟨rfl, fun _ _ => rfl⟩

theorem OnlySidecar.setStore {disk : Disk} (h : OnlySidecar start disk) (files : StoreFiles .tvvf) :
    OnlySidecar start (disk.setStore .tvvf files) :=
  ⟨h.root, fun kind hkind => (setStore_other _ _ _ hkind).trans (h.stores kind hkind)⟩

/-- A program on the sidecar's files. -/
theorem onlySidecar_ends {α : Type}
    (program : Program (StoreFiles .tvvf) (Op (Base .tvvf) (Segment .tvvf) (BaseInfo .tvvf)) CoreError α) :
    Ends (OnlySidecar start) (onStore .tvvf program) (fun _ => OnlySidecar start) (OnlySidecar start) := by
  refine Ends.zoom (fun disk => setStore_stores disk .tvvf) fun disk h => ?_
  exact ⟨fun _ _ => steps_true, fun _ _ _ _ => h.setStore _, fun _ _ _ _ => h.setStore _⟩

/-- Collecting old sidecar epochs does not fail. -/
theorem gcTvvf_ends (start : Disk) : Ends (OnlySidecar start) gcTvvf (fun _ => OnlySidecar start) fun _ => False :=
  gcTvvf_triple (fun _ h => h.root) fun _ _ _ _ _ _ _ h => ⟨trivial, h.setStore _⟩

/-- The directory after a watermark commit. -/
def watermarkCommitted (generation appliedLsn : ℕ) (previous : CommitManifest) (disk : Disk) : Disk :=
  disk.apply (.root (buildCommitBody generation appliedLsn previous.baseEpoch previous.manifests))

theorem writeGenerationWatermark_ends (generation appliedLsn : ℕ) (start : Disk) :
    Ends (· = start) (writeGenerationWatermark generation appliedLsn)
      (fun _ disk => ∃ previous, start.root = some previous ∧
        disk = watermarkCommitted generation appliedLsn previous start) (· = start) := by
  refine Triple.lookThen ?_
  cases hroot : start.root with
  | none => exact .fail _ fun _ h => h
  | some previous =>
    apply Triple.perform
    rintro _ rfl
    exact ⟨trivial, previous, rfl, rfl⟩

/-- A commit followed by a collection of sidecar epochs. -/
theorem thenGcTvvf_ends {commit : DiskProgram Unit} {post : Disk → Prop}
    (h : Ends (· = start) commit (fun _ => post) failed) :
    Ends (· = start) (commit >>= fun _ => gcTvvf)
      (fun _ disk => ∃ committed, post committed ∧ OnlySidecar committed disk) failed := by
  apply h.bind
  intro _
  refine Triple.named fun disk hpost => (gcTvvf_ends disk).weaken ?_ (fun _ _ h => ⟨disk, hpost, h⟩) fun _ _ h => h.elim
  rintro _ rfl
  exact .refl _

end Sidecar

end LodeDB.Storage
