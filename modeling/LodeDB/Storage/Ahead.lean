import LodeDB.Storage.Commit

/-!
# Journals that run ahead of the root

A root holds copies of the journals' manifests. On disk a journal's numbering is always ahead of the
root's copy, so an append never writes under a number the root lists; and a base commit under an epoch
of its own writes no file the root names.
-/

namespace LodeDB.Storage

open Journal Traced

variable {kind : StoreKind}

/-- Every entry is numbered below a bound. -/
def Below (deltas : List DeltaEntry) (bound : ℕ) : Prop := ∀ entry ∈ deltas, entry.seq < bound

theorem Below.mono {deltas : List DeltaEntry} {bound larger : ℕ} (h : Below deltas bound) (hle : bound ≤ larger) :
    Below deltas larger := fun entry hentry => (h entry hentry).trans_le hle

theorem below_push {X : Type} {manifest : Manifest X} (h : Below manifest.deltas manifest.nextSeq)
    (sha256 : String) (upserted deleted : ℕ) :
    Below (manifest.push sha256 upserted deleted).deltas (manifest.push sha256 upserted deleted).nextSeq := by
  intro entry hentry
  rcases List.mem_append.mp hentry with hold | hnew
  · exact Nat.lt_succ_of_lt (h entry hold)
  · rw [List.mem_singleton] at hnew
    subst hnew
    exact Nat.lt_succ_self _

/-- A step writes and removes no file the root names. -/
def Spares (disk : Disk) (op : FileOp) : Prop :=
  ∀ root, disk.root = some root → ∀ file, root.Names file → ¬ op.Modifies file

/-- A root's entries are numbered below what the journals beside an epoch give out next. -/
def Sealed (disk : Disk) (epoch : ℕ) (manifests : Manifests) : Prop :=
  ∀ kind, kind ≠ .tvvf → ∀ manifest, manifests kind = some manifest →
    Below manifest.deltas ((disk.stores kind).nextSeq epoch)

/-- No manifest of a list of stores has a delta. -/
def WithoutDeltas (manifests : Manifests) : Prop :=
  ∀ kind, kind ≠ .tvvf → ∀ manifest, manifests kind = some manifest → manifest.deltas = []

/-- What a writer remembers: the epoch it appends to, and the sidecar's manifest. -/
structure Remembered where
  baseEpoch : ℕ
  sidecar : Option TvvfManifestEntry
  rescored : Bool

/-- A sidecar manifest leads the one in the root. -/
structure Leads (root : Option CommitManifest) (manifest : TvvfManifestEntry) : Prop where
  own : Below manifest.deltas manifest.nextSeq
  committed : ∀ committed, root = some committed → ∀ sidecar : TvvfManifestEntry,
    committed.manifests .tvvf = some sidecar → sidecar.base.vfEpoch < manifest.base.vfEpoch ∨
      (sidecar.base.vfEpoch = manifest.base.vfEpoch ∧ Below sidecar.deltas manifest.nextSeq)

/-- The root lists the state's journal; the journals and the writer run ahead of it. A writer that missed a base
commit faces a root without deltas. -/
structure Trails (disk : Disk) (writer : Remembered) (root : CommitManifest) : Prop where
  state : (root.manifests .json).isSome
  journals : Sealed disk root.baseEpoch root.manifests
  missed : writer.baseEpoch ≠ root.baseEpoch → WithoutDeltas root.manifests
  sidecar : ∀ manifest, root.manifests .tvvf = some manifest → Below manifest.deltas manifest.nextSeq
  first : writer.rescored = true → writer.sidecar = none → root.manifests .tvvf = none

/-- The journals and the writer run ahead of the root in place. -/
structure Ahead (disk : Disk) (writer : Remembered) : Prop where
  numbered : ∀ kind, kind ≠ .tvvf → ∀ epoch manifest, (disk.stores kind).manifest epoch = some manifest →
    Below manifest.deltas manifest.nextSeq
  root : ∀ root, disk.root = some root → Trails disk writer root
  sidecar : ∀ manifest, writer.sidecar = some manifest → Leads disk.root manifest

/-- A step keeps the journals ahead, and spares the root's files if it should. -/
def Guarded (writer : Remembered) (fresh : Prop) (disk : Disk) (op : FileOp) (next : Disk) : Prop :=
  Ahead next writer ∧ (fresh → Spares disk op)

/-- No root is committed under an epoch. -/
def Unused (fresh : Prop) (epoch : ℕ) (disk : Disk) : Prop :=
  fresh → ∀ root, disk.root = some root → root.baseEpoch ≠ epoch

variable {disk : Disk} {writer : Remembered} {fresh : Prop} {epoch : ℕ}

section Steps

theorem apply_store_stores (kind other : StoreKind) (op : Op (Base kind) (Segment kind) (BaseInfo kind)) :
    (disk.apply (.store kind op)).stores other =
      if h : other = kind then h ▸ (disk.stores kind).apply op else disk.stores other := by
  by_cases h : other = kind
  · subst h
    simp [Disk.apply]
  · simp [Disk.apply, h, setStore_other disk kind _ h]

/-- A step on one store keeps the journals ahead if it keeps that store's numbering. -/
theorem Ahead.store (h : Ahead disk writer) {op : Op (Base kind) (Segment kind) (BaseInfo kind)}
    (hnumbered : kind ≠ .tvvf → ∀ epoch manifest, ((disk.stores kind).apply op).manifest epoch = some manifest →
      Below manifest.deltas manifest.nextSeq)
    (hnext : kind ≠ .tvvf → ∀ root, disk.root = some root →
      (disk.stores kind).nextSeq root.baseEpoch ≤ ((disk.stores kind).apply op).nextSeq root.baseEpoch) :
    Ahead (disk.apply (.store kind op)) writer where
  numbered other hother epoch manifest hman := by
    rw [apply_store_stores] at hman
    split at hman
    · rename_i heq
      subst heq
      exact hnumbered hother epoch manifest hman
    · exact h.numbered other hother epoch manifest hman
  root root hroot := by
    refine { h.root root hroot with journals := fun other hother manifest hman => ?_ }
    have hbelow := (h.root root hroot).journals other hother manifest hman
    rw [apply_store_stores]
    split
    · rename_i heq
      subst heq
      exact hbelow.mono (hnext hother root hroot)
    · exact hbelow
  sidecar := h.sidecar

/-- A step that spares the manifests keeps the journals ahead. -/
theorem Ahead.keepsManifests (h : Ahead disk writer) {op : Op (Base kind) (Segment kind) (BaseInfo kind)}
    (hspares : ∀ epoch, ¬ op.Modifies (.manifest epoch)) : Ahead (disk.apply (.store kind op)) writer := by
  have hsame : ∀ epoch, ((disk.stores kind).apply op).manifest epoch = (disk.stores kind).manifest epoch :=
    fun epoch => apply_manifest _ (hspares epoch)
  refine h.store ?_ ?_
  · intro hkind epoch manifest hman
    exact h.numbered kind hkind epoch manifest (hsame epoch ▸ hman)
  · intro _ root _
    simp only [Files.nextSeq, hsame, le_refl]

/-- Writing a manifest whose numbering goes on keeps the journals ahead. -/
theorem Ahead.writeManifest (h : Ahead disk writer) (epoch : ℕ) (manifest : Manifest (BaseInfo kind))
    (hbelow : kind ≠ .tvvf → Below manifest.deltas manifest.nextSeq)
    (hnext : kind ≠ .tvvf → (disk.stores kind).nextSeq epoch ≤ manifest.nextSeq) :
    Ahead (disk.apply (.store kind (.writeManifest epoch manifest))) writer := by
  have hother : ∀ other, other ≠ epoch → ((disk.stores kind).apply (.writeManifest epoch manifest)).manifest other =
        (disk.stores kind).manifest other := by
    intro other hne
    exact apply_manifest _ (by simpa [Op.Modifies] using hne)
  refine h.store ?_ ?_
  · intro hkind other found hfound
    by_cases heq : other = epoch
    · subst heq
      rw [writeManifest_manifest] at hfound
      cases hfound
      exact hbelow hkind
    · exact h.numbered kind hkind other found (hother other heq ▸ hfound)
  · intro hkind root _
    by_cases heq : root.baseEpoch = epoch
    · rw [heq]
      simp only [Files.nextSeq, writeManifest_manifest, Option.map_some, Option.getD_some]
      exact hnext hkind
    · simp only [Files.nextSeq, hother _ heq, le_refl]

/-- Removing an epoch the root does not use keeps the journals ahead. -/
theorem Ahead.removeDir (h : Ahead disk writer)
    (hunused : kind ≠ .tvvf → ∀ root, disk.root = some root → root.baseEpoch ≠ epoch) :
    Ahead (disk.apply (.store kind (.removeDir epoch))) writer := by
  have hother : ∀ other, other ≠ epoch → ((disk.stores kind).apply (.removeDir epoch)).manifest other =
      (disk.stores kind).manifest other := by
    intro other hne
    exact apply_manifest _ (by simpa [Op.Modifies] using hne)
  refine h.store ?_ ?_
  · intro hkind other found hfound
    by_cases heq : other = epoch
    · subst heq
      simp [Files.apply, Files.manifest, Files.dir] at hfound
    · exact h.numbered kind hkind other found (hother other heq ▸ hfound)
  · intro hkind root hroot
    simp only [Files.nextSeq, hother _ (hunused hkind root hroot), le_refl]

/-- A step on a store spares the root's files if it spares those of that store. -/
theorem spares_store {op : Op (Base kind) (Segment kind) (BaseInfo kind)}
    (h : ∀ root, disk.root = some root → ∀ manifest, root.manifests kind = some manifest →
      ∀ part, manifest.Names (root.epochOf kind manifest) part → ¬ op.Modifies part) :
    Spares disk (.store kind op) := by
  intro root hroot file hnames hmod
  cases file with
  | root => exact hmod
  | part other part =>
    obtain ⟨rfl, hmod⟩ := hmod
    obtain ⟨manifest, hman, hnames⟩ := hnames
    exact h root hroot manifest hman part hnames hmod

/-- A step on one epoch's files spares the root's if the root has another. -/
theorem spares_epoch (epoch : ℕ) {op : Op (Base kind) (Segment kind) (BaseInfo kind)}
    (hop : ∀ other, other ≠ epoch → ¬ op.Modifies (.base other) ∧ ∀ seq, ¬ op.Modifies (.segment other seq))
    (hother : ∀ root, disk.root = some root → ∀ manifest, root.manifests kind = some manifest →
      root.epochOf kind manifest ≠ epoch) : Spares disk (.store kind op) := by
  apply spares_store
  rintro root hroot manifest hman part (rfl | ⟨entry, -, rfl⟩)
  · exact (hop _ (hother root hroot manifest hman)).1
  · exact (hop _ (hother root hroot manifest hman)).2 _

/-- Writing a store's manifest spares every base and segment. -/
theorem spares_writeManifest (kind : StoreKind) (epoch : ℕ) (manifest : Manifest (BaseInfo kind)) :
    Spares disk (.store kind (.writeManifest epoch manifest)) := by
  apply spares_store
  rintro root - committed - part (rfl | ⟨entry, -, rfl⟩) hmod <;> cases hmod

/-- Writing a root spares every base and segment. -/
theorem spares_root (manifest : CommitManifest) : Spares disk (.root manifest) := by
  intro root _ file hnames hmod
  cases file with
  | root => exact hnames
  | part kind part => exact hmod

end Steps

section Programs

/-- Two steps on one store. -/
theorem apply_store_apply (kind : StoreKind) (first second : Op (Base kind) (Segment kind) (BaseInfo kind)) :
    (disk.apply (.store kind first)).apply (.store kind second) =
      disk.setStore kind (((disk.stores kind).apply first).apply second) := by
  simp [Disk.apply]

/-- A program that fails at once, or takes two steps on a store. -/
theorem spec_twoSteps {α : Type} {pre : Disk → Prop} {post : α → Disk → Prop}
    {program : Program (StoreFiles kind) (Op (Base kind) (Segment kind) (BaseInfo kind)) CoreError α}
    (h : ∀ disk, pre disk → (∃ error, program (disk.stores kind) = ([], .error error)) ∨ ∃ first second value,
        program (disk.stores kind) = ([(first, (disk.stores kind).apply first),
          (second, ((disk.stores kind).apply first).apply second)], .ok value) ∧
        Guarded writer fresh disk (.store kind first) (disk.apply (.store kind first)) ∧
        Guarded writer fresh (disk.apply (.store kind first)) (.store kind second)
          ((disk.apply (.store kind first)).apply (.store kind second)) ∧
        post value ((disk.apply (.store kind first)).apply (.store kind second))) :
    Spec pre (onStore kind program) (Guarded writer fresh) post := by
  refine ⟨?_, ?_, fun _ _ _ _ => trivial⟩
  · intro disk hpre
    rcases h disk hpre with ⟨error, hrun⟩ | ⟨first, second, value, hrun, hfirst, hsec, -⟩
    · simp only [onStore, Program.zoom, hrun, List.map_nil, steps_nil]
    · rw [apply_store_apply] at hsec
      simp only [onStore, Program.zoom, hrun, List.map_cons, List.map_nil, steps_cons, steps_nil, and_true]
      exact ⟨hfirst, hsec⟩
  · intro disk result hpre hok
    rcases h disk hpre with ⟨error, hrun⟩ | ⟨first, second, value, hrun, -, -, hpost⟩
    · simp only [onStore, Program.zoom, hrun] at hok
      cases hok
    · simp only [onStore, Program.zoom, hrun, Except.ok.injEq] at hok
      subst hok
      simp only [onStore, Program.zoom, hrun, List.map_cons, List.map_nil, after_cons, after_nil]
      rw [apply_store_apply] at hpost
      exact hpost

variable (format : Format)

/-- Writing a base under an epoch of its own spares the root's files. -/
theorem spares_writeBase (hkind : kind ≠ .tvvf)
    (hunused : ∀ root, disk.root = some root → root.baseEpoch ≠ epoch) (content : Base kind) :
    Spares disk (.store kind (.writeBase epoch content)) := by
  refine spares_epoch epoch (by simp [Op.Modifies]) fun root hroot manifest _ => ?_
  rw [root.epochOf_of_ne hkind]
  exact hunused root hroot

/-- Recording a base under an epoch of its own. -/
theorem recordBase_spec (hkind : kind ≠ .tvvf) (content : Base kind) (info : BaseInfo kind) :
    Spec (fun disk => Ahead disk writer ∧ Unused fresh epoch disk)
      (onStore kind (recordBase (format.digests kind) (·.getD 0 + 1) epoch content info)) (Guarded writer fresh)
      fun manifest disk => (Ahead disk writer ∧ Unused fresh epoch disk) ∧ manifest.deltas = [] := by
  apply spec_twoSteps
  rintro disk ⟨hahead, hunused⟩
  have hwr : Ahead (disk.apply (.store kind (.writeBase epoch content))) writer :=
    hahead.keepsManifests (by simp [Op.Modifies])
  have hsame : ((disk.apply (.store kind (.writeBase epoch content))).stores kind).manifest epoch =
      (disk.stores kind).manifest epoch := by
    simp only [Disk.apply, setStore_same]
    rfl
  have hrecd := hwr.writeManifest epoch ⟨(format.digests kind).base content, info, [],
    (((disk.stores kind).manifest epoch).map (·.nextSeq)).getD 0 + 1⟩ (fun _ => by simp [Below])
    (fun _ => by simp only [Files.nextSeq, hsame]; omega)
  exact .inr ⟨.writeBase epoch content, .writeManifest epoch _, _, rfl,
    ⟨hwr, fun hfresh => spares_writeBase hkind (hunused hfresh) content⟩,
    ⟨hrecd, fun _ => spares_writeManifest _ _ _⟩, ⟨hrecd, hunused⟩, rfl⟩

/-- Recording one store of a base commit. -/
theorem recordStore_spec (hkind : kind ≠ .tvvf) (content : Base kind) (info : BaseInfo kind) :
    Spec (fun disk => Ahead disk writer ∧ Unused fresh epoch disk)
      (recordStore format kind epoch content info) (Guarded writer fresh)
      fun manifest disk => (Ahead disk writer ∧ Unused fresh epoch disk) ∧ manifest.deltas = [] := by
  have hwr : ∀ disk, Ahead disk writer → Ahead (disk.apply (.store kind (.writeBase epoch content))) writer :=
    fun disk hahead => hahead.keepsManifests (by simp [Op.Modifies])
  unfold recordStore
  split
  · refine ⟨?_, ?_, fun _ _ _ _ => trivial⟩
    · rintro disk ⟨hahead, hunused⟩
      exact ⟨⟨hwr disk hahead, fun hfresh => spares_writeBase hkind (hunused hfresh) content⟩, trivial⟩
    · rintro disk manifest ⟨hahead, hunused⟩ hok
      cases hok
      exact ⟨⟨hwr disk hahead, hunused⟩, rfl⟩
  · exact recordBase_spec format hkind content info

theorem WithoutDeltas.update {manifests : Manifests} (h : WithoutDeltas manifests)
    {manifest : Manifest (BaseInfo kind)} (hdeltas : manifest.deltas = []) :
    WithoutDeltas (Function.update manifests kind (some manifest)) := by
  intro other hother found hfound
  by_cases heq : other = kind
  · subst heq
    rw [Function.update_self] at hfound
    cases hfound
    exact hdeltas
  · rw [Function.update_of_ne heq] at hfound
    exact h other hother found hfound

/-- The state's manifest is noted, or its store is still to come. -/
def StateNoted (rest : List StoreKind) (manifests : Manifests) : Prop := .json ∈ rest ∨ (manifests .json).isSome

theorem StateNoted.update {rest : List StoreKind} {manifests : Manifests} (h : StateNoted (kind :: rest) manifests)
    (manifest : Manifest (BaseInfo kind)) : StateNoted rest (Function.update manifests kind (some manifest)) := by
  by_cases hkind : kind = .json
  · subst hkind
    exact .inr (by rw [Function.update_self]; rfl)
  · exact h.imp (fun hmem => (List.mem_cons.mp hmem).resolve_left (Ne.symm hkind)) fun hsome => by
      rwa [Function.update_of_ne (Ne.symm hkind)]

/-- Recording the stores of a base commit, the state's among them. -/
theorem recordStores_spec (bases : (kind : StoreKind) → Option (Base kind × BaseInfo kind))
    (hstate : bases .json ≠ none) (kinds : List StoreKind) (hkinds : .tvvf ∉ kinds) (manifests : Manifests)
    (hempty : WithoutDeltas manifests) (hnoted : StateNoted kinds manifests) :
    Spec (fun disk => Ahead disk writer ∧ Unused fresh epoch disk)
      (recordStores format bases epoch kinds manifests) (Guarded writer fresh) fun recorded disk =>
        (Ahead disk writer ∧ Unused fresh epoch disk) ∧ WithoutDeltas recorded ∧ (recorded .json).isSome := by
  rw [recordStores_eq]
  refine (eachStore_triple (I := fun rest manifests disk => (.tvvf ∉ rest ∧ WithoutDeltas manifests ∧
    StateNoted rest manifests) ∧ Ahead disk writer ∧ Unused fresh epoch disk) ?_ ?_ kinds manifests).weaken
    (fun _ h => ⟨⟨hkinds, hempty, hnoted⟩, h⟩) (fun _ _ h => ⟨h.2, h.1.2.1, h.1.2.2.resolve_left (by simp)⟩) fun _ _ h => h
  · rintro kind rest manifests disk hnone ⟨⟨hnot, hempty, hnoted⟩, hdisk⟩
    refine ⟨⟨fun hmem => hnot (by simp [hmem]), hempty, hnoted.imp (fun hmem => ?_) id⟩, hdisk⟩
    exact (List.mem_cons.mp hmem).resolve_left fun heq => hstate (heq ▸ hnone)
  · intro kind rest manifests base _
    refine Triple.given (.tvvf ∉ kind :: rest ∧ WithoutDeltas manifests ∧ StateNoted (kind :: rest) manifests) _ ?_
      fun _ h => h
    rintro ⟨hnot, hempty, hnoted⟩
    rw [List.mem_cons, not_or] at hnot
    refine (recordStore_spec format (Ne.symm hnot.1) base.1 base.2).weaken (fun _ h => h) ?_
    exact fun manifest disk h => ⟨⟨hnot.2, hempty.update h.2, hnoted.update manifest⟩, h.1⟩

/-- Removing an epoch under which the root finds no file of the store. -/
theorem Ahead.removable {root : Option CommitManifest}
    (hbase : kind ≠ .tvvf → ∀ committed, root = some committed → committed.baseEpoch ≠ epoch)
    (hother : ∀ committed, root = some committed → ∀ manifest, committed.manifests kind = some manifest →
      committed.epochOf kind manifest ≠ epoch) :
    Removable (fun disk => Ahead disk writer ∧ disk.root = root) (Guarded writer fresh) kind epoch := by
  rintro op hop disk ⟨hahead, rfl⟩
  have hnext : Ahead (disk.apply (.store kind op)) writer := by
    rcases hop with rfl | rfl
    · exact hahead.keepsManifests (by simp [Op.Modifies])
    · exact hahead.removeDir hbase
  refine ⟨⟨hnext, fun _ => spares_epoch epoch ?_ hother⟩, hnext, rfl⟩
  rcases hop with rfl | rfl <;> simp [Op.Modifies]

end Programs

end LodeDB.Storage
