import LodeDB.Storage.Ahead

/-!
# Commits keep the journals ahead of the root

Each kind of commit writes the files of its stores first, none of which the root in place names, and
then the root. What the collection after it removes is not named by the new root.
-/

namespace LodeDB.Storage

open Journal Traced

variable {disk : Disk} {writer : Remembered} {fresh : Prop} {epoch : ℕ}

variable {α : Type} {kind : StoreKind} {manifests : Manifests} {previous : CommitManifest}

/-- Putting a root in place. Its sidecar is the writer's, or the one before it, or none. -/
theorem Ahead.putRoot (h : Ahead disk writer) {root : CommitManifest} (hstate : (root.manifests .json).isSome)
    (hsealed : Sealed disk root.baseEpoch root.manifests)
    (hmissed : writer.baseEpoch ≠ root.baseEpoch → WithoutDeltas root.manifests)
    (hside : root.manifests .tvvf = none ∨ root.manifests .tvvf = writer.sidecar ∨
      ∃ previous, disk.root = some previous ∧ root.manifests .tvvf = previous.manifests .tvvf) :
    Ahead (disk.apply (.root root)) writer where
  numbered := h.numbered
  root := by
    rintro other hother
    cases hother
    refine ⟨hstate, hsealed, hmissed, ?_, ?_⟩
    · intro manifest hman
      rcases hside with hnone | hown | ⟨previous, hprev, hsame⟩
      · rw [hnone] at hman
        cases hman
      · exact (h.sidecar manifest (hown ▸ hman)).own
      · exact (h.root previous hprev).sidecar manifest (hsame ▸ hman)
    · intro hrescored hnone
      rcases hside with hroot | hsame | ⟨previous, hprev, hsame⟩
      · exact hroot
      · exact hsame.trans hnone
      · exact hsame.trans ((h.root previous hprev).first hrescored hnone)
  sidecar manifest hown := by
    refine ⟨(h.sidecar manifest hown).own, ?_⟩
    rintro other hother committed hcom
    cases hother
    rcases hside with hnone | hsame | ⟨previous, hprev, hsame⟩
    · rw [hnone] at hcom
      cases hcom
    · rw [hsame, hown] at hcom
      cases hcom
      exact .inr ⟨rfl, (h.sidecar manifest hown).own⟩
    · exact (h.sidecar manifest hown).committed previous hprev committed (hsame ▸ hcom)

/-- A root without deltas is sealed. -/
theorem WithoutDeltas.sealed (h : WithoutDeltas manifests) : Sealed disk epoch manifests := by
  intro kind hkind manifest hman entry hentry
  rw [h kind hkind manifest hman] at hentry
  cases hentry

variable (format : Format)

/-- A root is in place under an epoch. -/
abbrev CommittedAt (liveEpoch : ℕ) (root : Option CommitManifest) : Prop :=
  ∀ committed, root = some committed → committed.baseEpoch = liveEpoch

/-- A base commit under an epoch of its own. -/
theorem writeGenerationCommit_spec (writer : Remembered) (input : GenerationCommitInput)
    (hside : input.tvvfManifest = writer.sidecar) :
    Spec (fun disk => Ahead disk writer ∧ Unused fresh input.baseEpoch disk)
      (writeGenerationCommit format input) (Guarded writer fresh)
      fun _ disk => Ahead disk writer ∧ CommittedAt input.baseEpoch disk.root := by
  apply (recordStores_spec format input.bases (by simp [GenerationCommitInput.bases]) baseKinds (by decide)
    (fun _ => none) (fun _ _ _ hnone => by cases hnone) (.inl (by decide))).bind
  intro manifests
  apply Triple.via fun _ disk => Ahead disk writer ∧ disk.root = some (buildCommitBody input.generation
    input.appliedLsn input.baseEpoch (Function.update manifests .tvvf input.tvvfManifest))
  · apply Triple.perform
    rintro disk ⟨⟨hahead, -⟩, hempty, hstate⟩
    have hupd : WithoutDeltas (Function.update manifests .tvvf input.tvvfManifest) := by
      intro kind hkind manifest hman
      rw [Function.update_of_ne hkind] at hman
      exact hempty kind hkind manifest hman
    have hnext : Ahead (disk.apply (.root (buildCommitBody input.generation input.appliedLsn input.baseEpoch
        (Function.update manifests .tvvf input.tvvfManifest)))) writer :=
      hahead.putRoot hstate hupd.sealed (fun _ => hupd) (.inr (.inl (by simpa [buildCommitBody] using hside)))
    exact ⟨⟨hnext, fun _ => spares_root _⟩, hnext, rfl⟩
  · intro _
    refine Triple.weaken (gcAfterBaseRewrite_triple input.baseEpoch retainedEpochs fun epoch hepoch kind hkind =>
      Ahead.removable ?_ ?_) (fun _ h => h) ?_ fun _ _ h => h
    · rintro - _ hcom heq
      cases hcom
      exact hepoch heq.symm
    · rintro _ hcom manifest - heq
      cases hcom
      exact hepoch (heq.symm.trans (CommitManifest.epochOf_of_ne hkind manifest))
    · rintro _ disk ⟨hahead, hroot⟩
      refine ⟨hahead, ?_⟩
      rintro _ hcom
      rw [hroot] at hcom
      cases hcom
      rfl

section Append

/-- Appending to a journal writes a segment the root does not list. -/
theorem spares_writeSegment (h : Ahead disk writer) (hkind : kind ≠ .tvvf) {manifest : Manifest (BaseInfo kind)}
    (hman : (disk.stores kind).manifest epoch = some manifest) (content : Segment kind) :
    Spares disk (.store kind (.writeSegment epoch manifest.nextSeq content)) := by
  apply spares_store
  intro root hroot committed hcom part hnames hmod
  rw [root.epochOf_of_ne hkind] at hnames
  rcases hnames with rfl | ⟨entry, hentry, rfl⟩
  · cases hmod
  · simp only [Op.Modifies, Part.segment.injEq] at hmod
    have hbelow := (h.root root hroot).journals kind hkind committed hcom entry hentry
    rw [hmod.1] at hbelow
    simp only [Files.nextSeq, hman, Option.map_some, Option.getD_some] at hbelow
    omega

/-- The accumulated manifests of an append, over the root in place. -/
structure Appended (writer : Remembered) (previous : CommitManifest) (epoch : ℕ) (manifests : Manifests)
    (disk : Disk) : Prop where
  ahead : Ahead disk writer
  root : disk.root = some previous
  accumulated : Sealed disk epoch manifests
  state : (manifests .json).isSome
  sidecar : manifests .tvvf = previous.manifests .tvvf

/-- Appending to one store. -/
theorem appendDelta_spec (hkind : kind ≠ .tvvf) (missing : CoreError) (content : Segment kind)
    (upserted deleted : ℕ) :
    Spec (Appended writer previous epoch manifests)
      (onStore kind (appendDelta (format.digests kind) missing epoch content upserted deleted)) (Guarded writer fresh)
      fun manifest => Appended writer previous epoch (Function.update manifests kind (some manifest)) := by
  apply spec_twoSteps
  intro disk h
  cases hman : (disk.stores kind).manifest epoch with
  | none => exact .inl ⟨missing, appendDelta_missing _ _ _ _ _ hman⟩
  | some manifest =>
    have hbelow := h.ahead.numbered kind hkind epoch manifest hman
    have hpushed := below_push hbelow ((format.digests kind).segment content) upserted deleted
    have hwr : Ahead (disk.apply (.store kind (.writeSegment epoch manifest.nextSeq content))) writer :=
      h.ahead.keepsManifests (by simp [Op.Modifies])
    have hsame : ((disk.apply (.store kind (.writeSegment epoch manifest.nextSeq content))).stores kind).manifest
        epoch = some manifest := by
      simp only [Disk.apply, setStore_same]
      rw [apply_manifest _ (by simp [Op.Modifies]), hman]
    have happ := hwr.writeManifest epoch
      (manifest.push ((format.digests kind).segment content) upserted deleted) (fun _ => hpushed)
      (fun _ => by simp [Files.nextSeq, hsame, Manifest.push])
    refine .inr ⟨_, _, _, appendDelta_trace _ _ _ _ _ hman,
      ⟨hwr, fun _ => spares_writeSegment h.ahead hkind hman content⟩,
      ⟨happ, fun _ => spares_writeManifest _ _ _⟩, happ, h.root, ?_,
      (show StateNoted [] _ from StateNoted.update (.inr h.state) _).resolve_left (by simp), ?_⟩
    · intro other hother found hfound
      by_cases heq : other = kind
      · subst heq
        rw [Function.update_self] at hfound
        cases hfound
        rw [apply_store_apply, setStore_same]
        simpa [Files.nextSeq] using hpushed
      · rw [Function.update_of_ne heq] at hfound
        rw [apply_store_apply, setStore_other _ _ _ heq]
        exact h.accumulated other hother found hfound
    · rw [Function.update_of_ne (Ne.symm hkind)]
      exact h.sidecar

/-- Appending to several stores. -/
theorem appendStores_spec (segments : (kind : StoreKind) → Option (Segment kind × ℕ × ℕ))
    (kinds : List StoreKind) (hkinds : .tvvf ∉ kinds) (manifests : Manifests) :
    Spec (Appended writer previous epoch manifests) (appendStores format segments epoch kinds manifests)
      (Guarded writer fresh) fun appended => Appended writer previous epoch appended := by
  rw [appendStores_eq]
  refine (eachStore_triple (I := fun rest manifests disk => .tvvf ∉ rest ∧
    Appended writer previous epoch manifests disk) ?_ ?_ kinds manifests).weaken
    (fun _ h => ⟨hkinds, h⟩) (fun _ _ h => h.2) fun _ _ h => h
  · exact fun kind rest manifests disk _ h => ⟨fun hmem => h.1 (by simp [hmem]), h.2⟩
  · intro kind rest manifests segment _
    refine Triple.given (.tvvf ∉ kind :: rest) _ (fun hnot => ?_) fun _ h => h
    rw [List.mem_cons, not_or] at hnot
    exact (appendDelta_spec format (Ne.symm hnot.1) _ _ _ _).weaken (fun _ h => h) fun _ _ h => ⟨hnot.2, h⟩

end Append

/-- Dropping the cluster assignment and replacing the sidecar keep a root sealed. -/
theorem Sealed.seal (h : Sealed disk epoch manifests) (input : GenerationDeltaInput) :
    Sealed disk epoch (input.seal manifests) := by
  intro kind hkind manifest hman
  rw [GenerationDeltaInput.seal, Function.update_of_ne hkind] at hman
  by_cases hann : kind = .tvann
  · subst hann
    rw [Function.update_self] at hman
    split at hman
    · cases hman
    · exact h .tvann hkind manifest hman
  · rw [Function.update_of_ne hann] at hman
    exact h kind hkind manifest hman

/-- A delta commit onto the writer's base. -/
theorem writeGenerationDelta_spec (writer : Remembered) (input : GenerationDeltaInput)
    (hepoch : input.baseEpoch = writer.baseEpoch) (hside : input.tvvfManifest = writer.sidecar) :
    Spec (fun disk => Ahead disk writer) (writeGenerationDelta format input) (Guarded writer fresh)
      fun _ disk => Ahead disk writer := by
  refine Triple.named fun start hahead => Triple.lookThen ?_
  cases hroot : start.root with
  | none => exact .fail _ fun _ _ => trivial
  | some previous =>
    have hstart : Appended writer previous input.baseEpoch previous.manifests start := by
      refine ⟨hahead, hroot, ?_, (hahead.root previous hroot).state, rfl⟩
      by_cases hsame : writer.baseEpoch = previous.baseEpoch
      · rw [hepoch, hsame]
        exact (hahead.root previous hroot).journals
      · have hempty : WithoutDeltas previous.manifests := (hahead.root previous hroot).missed hsame
        exact hempty.sealed
    apply ((appendStores_spec format (input.segments previous) deltaKinds (by decide)
      previous.manifests).weaken (by rintro _ rfl; exact hstart) fun _ _ h => h).bind
    intro manifests
    apply Triple.perform
    intro disk h
    have hnext : Ahead (disk.apply (.root (buildCommitBody input.generation input.appliedLsn input.baseEpoch
        (input.seal manifests)))) writer := by
      refine h.ahead.putRoot h.state (h.accumulated.seal input) (fun hne => absurd hepoch.symm hne) ?_
      simp only [buildCommitBody, GenerationDeltaInput.seal, Function.update_self, h.sidecar, hside]
      cases input.dropTvvfManifest with
      | true => exact .inl rfl
      | false =>
        cases writer.sidecar with
        | none => exact .inr (.inr ⟨previous, h.root, rfl⟩)
        | some manifest => exact .inr (.inl rfl)
    exact ⟨⟨hnext, fun _ => spares_root _⟩, hnext⟩

/-- A watermark commit. -/
theorem writeGenerationWatermark_spec (generation appliedLsn : ℕ) :
    Spec (fun disk => Ahead disk writer) (writeGenerationWatermark generation appliedLsn)
      (Guarded writer fresh) fun _ disk => Ahead disk writer := by
  refine Triple.named fun start hahead => Triple.lookThen ?_
  cases hroot : start.root with
  | none => exact .fail _ fun _ _ => trivial
  | some previous =>
    apply Triple.perform
    rintro _ rfl
    have hnext : Ahead (Disk.apply _ (.root (buildCommitBody generation appliedLsn previous.baseEpoch
        previous.manifests))) writer :=
      hahead.putRoot (hahead.root previous hroot).state (hahead.root previous hroot).journals
        (hahead.root previous hroot).missed (.inr (.inr ⟨previous, hroot, rfl⟩))
    exact ⟨⟨hnext, fun _ => spares_root _⟩, hnext⟩

/-- A program on a store keeps the root. -/
theorem onStore_spec_root {pre : Disk → Prop}
    {program : Program (StoreFiles kind) (Op (Base kind) (Segment kind) (BaseInfo kind)) CoreError α}
    {during : Disk → FileOp → Disk → Prop} {post : α → Disk → Prop}
    (h : Spec pre (onStore kind program) during post) (root : Option CommitManifest) :
    Spec (fun disk => pre disk ∧ disk.root = root) (onStore kind program) during
      fun value disk => post value disk ∧ disk.root = root := by
  refine ⟨fun disk hpre => h.steps disk hpre.1, fun disk value hpre hok => ⟨h.returns disk value hpre.1 hok, ?_⟩,
    fun _ _ _ _ => trivial⟩
  have hafter : after disk (onStore kind program disk).1 =
      disk.setStore kind (after (disk.stores kind) (program (disk.stores kind)).1) :=
    after_zoom (setStore_stores disk kind)
  rw [hafter]
  exact hpre.2

/-- Collecting old sidecar epochs keeps the root. -/
theorem gcTvvf_spec (fact : Option CommitManifest → Prop) :
    Spec (fun disk => Ahead disk writer ∧ fact disk.root) gcTvvf (Guarded writer fresh)
      fun _ disk => Ahead disk writer ∧ fact disk.root := by
  refine Triple.named fun start h => Triple.weaken (gcTvvf_triple (I := fun disk => Ahead disk writer ∧
    disk.root = start.root) (fun _ h => h.2) ?_) ?_ (fun _ disk hdisk => ⟨hdisk.1, hdisk.2 ▸ h.2⟩) fun _ _ h => h
  · intro live hlive epoch hepoch
    refine Ahead.removable (fun hne => absurd rfl hne) ?_
    rintro committed hroot manifest hman heq
    refine hepoch (heq.symm.trans ?_)
    simpa [hroot, CommitManifest.vfEpoch, CommitManifest.epochOf, hman] using hlive
  · rintro _ rfl
    exact ⟨h.1, rfl⟩

/-- A writer that took the root's base epoch over. -/
theorem Ahead.rebase (h : Ahead disk writer) {liveEpoch : ℕ} (hlive : CommittedAt liveEpoch disk.root) :
    Ahead disk { writer with baseEpoch := liveEpoch } :=
  { h with root := fun root hroot =>
      { h.root root hroot with missed := fun hne => absurd (hlive root hroot).symm hne } }

end LodeDB.Storage
