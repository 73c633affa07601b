import LodeDB.Engine.OpenAgree
import LodeDB.Engine.PersistOutcome
import LodeDB.Storage.SidecarAhead

/-!
# A persist spares the committed files

From every state a writer can be in, after any crashes, failed persists and reopens, a persist writes and removes
only files that the root in place does not name, unless it rewrites the base under that root's epoch. One that fails
leaves a directory that opens as before.
-/

namespace LodeDB.Engine

open ExceptRules Journal Traced
open LodeDB.Storage

variable {store : Store} {writer : Remembered}

variable {pre : Disk → Prop} {start : Store}

/-- What an index remembers of its directory. -/
def VectorOnlyIndex.remembered (index : VectorOnlyIndex) : Remembered :=
  ⟨index.baseEpoch, index.tvvfManifest, index.rescoreDtype.isSome⟩

/-- The journals run ahead of the root, and so does the index. -/
def StoreAhead (store : Store) : Prop := Ahead store.disk store.index.remembered

/-- A step keeps the journals ahead, and spares the root's files if it should. -/
def StoreGuarded (fresh : Prop) (store : Store) (event : Event) (next : Store) : Prop :=
  StoreAhead next ∧ (fresh → ∀ op, event = .file op → Spares store.disk op)

variable {fresh : Prop} {index : VectorOnlyIndex} {disk : Disk}

/-- A program on the directory leaves the index alone. -/
theorem onDisk_spec {α : Type} (index : VectorOnlyIndex) {program : DiskProgram α} {post : α → Disk → Prop}
    (h : Spec pre program (Guarded index.remembered fresh) post) :
    Spec (fun store => store.index = index ∧ pre store.disk) (onDisk program) (StoreGuarded fresh)
      fun value store => store.index = index ∧ post value store.disk := by
  refine Triple.zoom (Guarded index.remembered fresh) (fun _ => rfl) ?_ ?_
  · rintro store ⟨rfl, -⟩ part op next hguard
    exact ⟨hguard.1, fun hfresh _ hother => (Event.file.inj hother) ▸ hguard.2 hfresh⟩
  · rintro store ⟨rfl, hpre⟩
    refine h.weaken ?_ fun _ _ hpost => ⟨rfl, hpost⟩
    rintro _ rfl
    exact hpre

/-- Assigning to the index what keeps it ahead. -/
theorem guarded_memory {next : Store} (h : StoreAhead next) : StoreGuarded fresh store .memory next :=
  ⟨h, fun _ op hop => by cases hop⟩

section Flush

variable (format : Format) {root : Option CommitManifest} {epoch : ℕ}

/-- A writer that is ahead, over a fixed root and base. -/
structure Flushing (root : Option CommitManifest) (epoch : ℕ) (store : Store) : Prop where
  ahead : StoreAhead store
  root : store.disk.root = root
  epoch : store.index.baseEpoch = epoch

/-- Writing the sidecar's pending rows. -/
theorem writeTvvf_spec {dtype : TvvfDtype} (hdtype : index.rescoreDtype = some dtype) (generation : ℕ) :
    Spec (fun disk => Ahead disk index.remembered ∧ disk.root = root) (writeTvvf format index dtype generation)
      (Guarded index.remembered fresh)
      fun manifest disk => (Ahead disk index.remembered ∧ Leads disk.root manifest) ∧ disk.root = root := by
  apply onStore_spec_root
  cases hown : index.tvvfManifest with
  | none =>
    exact recordEncodedBase_spec format hown (by simp [VectorOnlyIndex.remembered, hdtype]) _ _ _ _
  | some previous =>
    simp only
    rw [onStore_bind]
    exact (restoreManifest_spec previous).bind fun _ => appendEncodedDelta_spec format hown _ _

/-- A program on the sidecar's files that ends with a manifest that leads. -/
theorem flushing_onDisk {program : DiskProgram TvvfManifestEntry}
    (h : Spec (fun disk => pre disk ∧ disk.root = root) program (Guarded start.index.remembered fresh)
      fun manifest disk => (Ahead disk start.index.remembered ∧ Leads disk.root manifest) ∧ disk.root = root)
    (hstart : Flushing root epoch start) (hpre : pre start.disk) :
    Spec (· = start) (onDisk program) (StoreGuarded fresh)
      fun manifest store => Flushing root epoch store ∧ Leads root manifest := by
  refine (onDisk_spec start.index h).weaken ?_ ?_
  · rintro _ rfl
    exact ⟨rfl, hpre, hstart.root⟩
  · rintro manifest store ⟨hindex, ⟨hahead, hleads⟩, rfl⟩
    refine ⟨⟨?_, rfl, (congrArg VectorOnlyIndex.baseEpoch hindex).trans hstart.epoch⟩, hleads⟩
    rw [StoreAhead, hindex]
    exact hahead

/-- A flush keeps the writer ahead; the manifest on its way to the index leads. -/
theorem flushing_rules (generation : ℕ) : FlushRules format generation (StoreGuarded fresh) (fun _ _ => True)
    (Flushing root epoch) fun manifest store => Flushing root epoch store ∧ Leads root manifest where
  fails _ _ _ _ := trivial
  drops _ h := ⟨guarded_memory h.ahead.dropSidecar, h.ahead.dropSidecar, h.root, h.epoch⟩
  writes _ _ h hdtype := flushing_onDisk (writeTvvf_spec format hdtype generation) h h.ahead
  reads _ _ _ h := ⟨guarded_memory h.1.ahead, ⟨h.1.ahead, h.1.root, h.1.epoch⟩, h.2⟩
  folds manifest := Triple.named fun start h => flushing_onDisk (onStore_spec_root (fold_spec format manifest) root)
    h.1 ⟨h.1.ahead, h.1.root ▸ h.2⟩
  adopts _ _ h := by
    have hnext := h.1.ahead.adopt (h.1.root ▸ h.2)
    exact ⟨guarded_memory hnext, hnext, h.1.root, h.1.epoch⟩

end Flush

section Commit

variable (P : Primitives) (format : Format) (policy : TextPolicy) {root : Option CommitManifest} {epoch : ℕ}

/-- A commit onto the directory of an index. -/
theorem commit_spec {post : Disk → Prop} {commit : DiskProgram Unit}
    (hcmt : Spec pre commit (Guarded start.index.remembered fresh) fun _ => post) (hpre : pre start.disk)
    (hpost : ∀ disk, post disk → Ahead disk start.index.remembered) :
    Spec (· = start) (onDisk commit) (StoreGuarded fresh) fun _ store => StoreAhead store ∧ post store.disk := by
  refine (onDisk_spec start.index hcmt).weaken ?_ ?_
  · rintro _ rfl
    exact ⟨rfl, hpre⟩
  · rintro _ store ⟨hindex, hcom⟩
    exact ⟨by rw [StoreAhead, hindex]; exact hpost _ hcom, hcom⟩

variable (ann : Option (List (List String)))

/-- A base commit under an epoch of its own. -/
theorem writeIndexBase_spec {generation : ℕ}
    (hunused : fresh → ∀ committed, root = some committed → committed.baseEpoch ≠ generation) :
    Spec (Flushing root epoch) (writeIndexBase P format policy ann generation) (StoreGuarded fresh)
      fun _ store => StoreAhead store ∧ CommittedAt generation store.disk.root := by
  apply (flushing_rules format generation).flushTvvf.bind
  intro tvvfManifest
  refine Triple.named fun start h => Triple.lookThen ?_
  obtain ⟨hflushing, hman⟩ := h
  refine Triple.liftThen (fun _ _ _ _ => trivial) fun tvim _ => ?_
  have hcmt : Spec _ _ (Guarded start.index.remembered fresh) _ := (writeGenerationCommit_spec format
    start.index.remembered (commitInput P policy start.index generation tvim ann tvvfManifest) hman).bind
      fun _ => gcTvvf_spec (CommittedAt generation)
  refine (commit_spec hcmt ⟨hflushing.ahead, ?_⟩ fun _ h => h.1).weaken (fun _ h => h) fun _ _ h => ⟨h.1, h.2.2⟩
  exact fun hfresh committed hcom => hunused hfresh committed (hflushing.root ▸ hcom)

/-- A watermark commit. -/
theorem writeIndexWatermark_spec (generation : ℕ) :
    Spec (Flushing root epoch) (writeIndexWatermark generation) (StoreGuarded fresh) fun _ => StoreAhead := by
  refine Triple.named fun start hflushing => Triple.lookThen ?_
  have hcmt : Spec _ _ (Guarded start.index.remembered fresh) _ := ((writeGenerationWatermark_spec
    generation (max start.index.appliedLsn generation)).weaken (fun _ h => h) fun _ _ h => ⟨h, trivial⟩).bind
      fun _ => gcTvvf_spec fun _ => True
  exact (commit_spec hcmt hflushing.ahead fun _ h => h.1).weaken (fun _ h => h) fun _ _ h => h.1

/-- A delta commit. -/
theorem writeIndexDelta_spec (generation : ℕ) :
    Spec (Flushing root epoch) (writeIndexDelta P format policy generation) (StoreGuarded fresh)
      fun _ => StoreAhead := by
  apply (flushing_rules format generation).flushTvvf.bind
  intro tvvfManifest
  refine Triple.named fun start h => Triple.lookThen ?_
  obtain ⟨hflushing, hman⟩ := h
  refine Triple.liftThen (fun _ _ _ _ => trivial) fun tvim _ => ?_
  have hcmt : Spec _ _ (Guarded start.index.remembered fresh) _ := ((writeGenerationDelta_spec format
    start.index.remembered (deltaInput P policy start.index generation tvim tvvfManifest) rfl hman).weaken
      (fun _ h => h) fun _ _ h => ⟨h, trivial⟩).bind fun _ => gcTvvf_spec fun _ => True
  exact (commit_spec hcmt hflushing.ahead fun _ h => h.1).weaken (fun _ h => h) fun _ _ h => h.1

/-- Committing an index. -/
theorem commitIndex_spec (index : VectorOnlyIndex) (base : Bool)
    (hunused : fresh → base = true → ∀ committed, root = some committed →
      committed.baseEpoch ≠ commitGeneration index) :
    Spec (Flushing root epoch) (commitIndex P format policy ann index base) (StoreGuarded fresh)
      fun _ => StoreAhead := by
  apply Triple.via fun _ => Flushing root epoch
  · exact .perform fun store h => ⟨guarded_memory h.ahead, h.ahead, h.root, h.epoch⟩
  · intro _
    have hclose : Spec StoreAhead (assign (·.committed (commitGeneration index))) (StoreGuarded fresh)
        fun _ => StoreAhead := .perform fun store hahead => ⟨guarded_memory hahead, hahead⟩
    simp only
    split
    · rename_i hbase
      apply (writeIndexBase_spec P format policy ann fun hfresh => hunused hfresh hbase).bind
      intro _
      apply Triple.via fun _ => StoreAhead
      · exact .perform fun store h => ⟨guarded_memory (h.1.rebase h.2), h.1.rebase h.2⟩
      · exact fun _ => hclose
    · split
      · exact (writeIndexWatermark_spec _).bind fun _ => hclose
      · exact (writeIndexDelta_spec P format policy _).bind fun _ => hclose

/-- Every step of a persist keeps the writer ahead, and spares the root's files unless the base is
rewritten under the root's epoch. -/
theorem persist_guarded (hahead : StoreAhead store)
    (hunused : fresh → needsBase P policy store = true → ∀ committed, store.disk.root = some committed →
      committed.baseEpoch ≠ commitGeneration store.index) :
    Steps (StoreGuarded fresh) store (persistTrace P format policy ann store).1 := by
  have hspec : Spec (· = store) (persistIndexGeneration P format policy ann) (StoreGuarded fresh)
      fun _ _ => True := by
    refine Triple.lookThen ?_
    split
    · exact .pure fun _ _ => trivial
    · have hcmt : Spec (Flushing store.disk.root store.index.baseEpoch) _ (StoreGuarded fresh) _ :=
        commitIndex_spec P format policy ann store.index (needsBase P policy store) hunused
      refine hcmt.weaken ?_ fun _ _ _ => trivial
      rintro _ rfl
      exact ⟨hahead, rfl, rfl⟩
  exact hspec.steps store rfl

end Commit

section Runs

variable {P : Primitives} {format : Format} {creation : Creation}

/-- Some writer of the machine's directory is ahead; the one that has it open is. -/
def MachineAhead (machine : Machine) : Prop :=
  match machine.session with
  | some session => Ahead machine.disk session.index.remembered
  | none => ∃ writer, Ahead machine.disk writer

/-- An index that took the root over is ahead. -/
theorem ahead_reopened (h : Ahead disk writer) {root : CommitManifest} (hroot : disk.root = some root)
    (rescored : Bool) : Ahead disk ⟨root.baseEpoch, root.manifests .tvvf, rescored⟩ where
  numbered := h.numbered
  root other hother := by
    obtain rfl : root = other := Option.some.inj (hroot.symm.trans hother)
    exact { h.root root hroot with missed := fun hne => absurd rfl hne, first := fun _ hnone => hnone }
  sidecar manifest hown := by
    refine ⟨(h.root root hroot).sidecar manifest hown, fun other hother committed hcom => ?_⟩
    obtain rfl : root = other := Option.some.inj (hroot.symm.trans hother)
    obtain rfl : manifest = committed := Option.some.inj (hown.symm.trans hcom)
    exact .inr ⟨rfl, (h.root root hroot).sidecar manifest hown⟩

/-- A fresh index over a directory without a root is ahead. -/
theorem ahead_created (hnumbered : ∀ kind, kind ≠ .tvvf → ∀ epoch manifest,
      (disk.stores kind).manifest epoch = some manifest → Below manifest.deltas manifest.nextSeq)
    (hroot : disk.root = none) (other : Remembered) (hother : other.sidecar = none) : Ahead disk other where
  numbered := hnumbered
  root root hsome := by
    rw [hroot] at hsome
    cases hsome
  sidecar manifest hown := by
    rw [hother] at hown
    cases hown

/-- What opening a store tells about the index. -/
theorem remembered_of_openStore {chunkCharacterLimit : ℕ}
    (hopen : openStore P format disk chunkCharacterLimit = .ok (some index)) :
    ∃ root, disk.root = some root ∧
      index.remembered = ⟨root.baseEpoch, root.manifests .tvvf, index.rescoreDtype.isSome⟩ := by
  unfold openStore at hopen
  cases hroot : disk.root with
  | none =>
    rw [hroot] at hopen
    cases hopen
  | some root =>
    simp only [hroot, bind_eq_ok, map_eq_ok, Option.some.injEq, exists_eq_right] at hopen
    obtain ⟨loaded, hload, hindex⟩ := hopen
    simp only [loadGenerationStore, bind_eq_ok] at hload
    obtain ⟨_, -, _, -, _, -, _, -, _, -, hload⟩ := hload
    cases hload
    simp only [indexFromLoadedStore, bind_eq_ok] at hindex
    obtain ⟨_, -, _, -, _, -, hindex⟩ := hindex
    cases hindex
    exact ⟨root, rfl, rfl⟩

/-- An interrupted persist leaves the writer ahead. -/
theorem StoreAhead.afterPersist (h : StoreAhead store) (policy : TextPolicy) (ann : Option (List (List String)))
    (steps : ℕ) : StoreAhead (afterPersist P format policy ann steps store) := by
  have hsteps : Steps (StoreGuarded False) store (persistTrace P format policy ann store).1 :=
    persist_guarded P format policy ann h fun hfalse => hfalse.elim
  exact (hsteps.take steps).keeps (fun _ _ _ _ hguard => hguard.1) h

theorem StoreAhead.persisted (h : StoreAhead store) (policy : TextPolicy) (ann : Option (List (List String))) :
    StoreAhead (persisted P format policy ann store) := by
  have hsteps : Steps (StoreGuarded False) store (persistTrace P format policy ann store).1 :=
    persist_guarded P format policy ann h fun hfalse => hfalse.elim
  exact hsteps.keeps (fun _ _ _ _ hguard => hguard.1) h

theorem remembered_of_bookkeeping {other : VectorOnlyIndex} (h : other.bookkeeping = index.bookkeeping) :
    other.remembered = index.remembered := by
  have hepoch := congrArg VectorOnlyIndex.Bookkeeping.baseEpoch h
  have hside := congrArg VectorOnlyIndex.Bookkeeping.tvvfManifest h
  have hrescore := congrArg VectorOnlyIndex.Bookkeeping.rescoreDtype h
  simp only [VectorOnlyIndex.bookkeeping] at hepoch hside hrescore
  simp only [VectorOnlyIndex.remembered, hepoch, hside, hrescore]

theorem ensureTvvfReader_remembered (disk : Disk) (index : VectorOnlyIndex) :
    (ensureTvvfReader format disk index).remembered = index.remembered := by
  unfold ensureTvvfReader
  split
  · rfl
  · split
    · rfl
    · split <;> rfl

/-- Every action keeps the machine's writer ahead. -/
theorem MachineAhead.step {machine next : Machine} {action : Action} (h : MachineAhead machine)
    (hnext : machine.step P format creation action = some next) : MachineAhead next := by
  obtain ⟨disk, session⟩ := machine
  cases session with
  | some session =>
    have hahead : StoreAhead ⟨disk, session.index⟩ := h
    cases action with
    | call policy call =>
      cases hnext
      change Ahead disk _
      rw [remembered_of_bookkeeping (Session.call_bookkeeping session call)]
      exact hahead
    | compact =>
      cases hnext
      exact hahead
    | noteApplied lsn =>
      cases hnext
      exact hahead
    | openReader =>
      cases hnext
      change Ahead disk (ensureTvvfReader format disk session.index).remembered
      rw [ensureTvvfReader_remembered]
      exact hahead
    | persist policy ann =>
      cases hnext
      exact hahead.persisted policy ann
    | failedPersist policy ann steps =>
      cases hnext
      exact hahead.afterPersist policy ann steps
    | crash policy ann steps =>
      cases hnext
      exact ⟨_, hahead.afterPersist policy ann steps⟩
    | reopen chunkCharacterLimit => cases hnext
  | none =>
    obtain ⟨writer, hahead⟩ := h
    cases action with
    | reopen chunkCharacterLimit =>
      simp only [Machine.step, Machine.reopen] at hnext
      split at hnext
      · rename_i index hopen
        cases hnext
        obtain ⟨root, hroot, hremembered⟩ := remembered_of_openStore hopen
        change Ahead disk index.remembered
        rw [hremembered]
        exact ahead_reopened hahead hroot _
      · rename_i hopen
        cases hnext
        have hroot : disk.root = none := by
          unfold openStore at hopen
          cases hroot : disk.root with
          | none => rfl
          | some root => simp [hroot] at hopen
        exact ahead_created hahead.numbered hroot _ rfl
      · cases hnext
    | _ => cases hnext

/-- The first machine is ahead. -/
theorem machineAhead_fresh (creation : Creation) : MachineAhead (.fresh creation) :=
  ahead_created (fun _ _ _ _ hman => by simp [Machine.fresh, Disk.empty] at hman) rfl _ rfl

/-- A step of a writer that writes and removes no file the root in place names. -/
def SparesCommitted (store : Store) (event : Event) (_ : Store) : Prop :=
  ∀ op, event = .file op → Spares store.disk op

/-- **From every state a writer can reach, a persist that does not rewrite the base under the root's
epoch spares, at each of its steps, every file the root in place at that step names.** -/
theorem persist_sparesCommitted {actions : List Action} {machine : Machine} {session : Session}
    (hrun : MachineRun P format creation (fun _ _ => True) (.fresh creation) actions machine)
    (hsession : machine.session = some session) (policy : TextPolicy) (ann : Option (List (List String)))
    (hunused : needsBase P policy ⟨machine.disk, session.index⟩ = true → ∀ root, machine.disk.root = some root →
      root.baseEpoch ≠ commitGeneration session.index) :
    Steps SparesCommitted ⟨machine.disk, session.index⟩
      (persistTrace P format policy ann ⟨machine.disk, session.index⟩).1 := by
  have hmachine : MachineAhead machine :=
    hrun.keeps (fun _ _ _ h _ _ hnext => h.step hnext) (machineAhead_fresh creation)
  have hahead : StoreAhead ⟨machine.disk, session.index⟩ := by
    simp only [MachineAhead, hsession] at hmachine
    exact hmachine
  have hsteps : Steps (StoreGuarded True) ⟨machine.disk, session.index⟩ _ :=
    persist_guarded P format policy ann hahead fun _ => hunused
  exact hsteps.imp fun _ _ _ hguarded op hop => hguarded.2 trivial op hop

end Runs

/-- The writer of an empty index once it is persisted. -/
def seededStore : Store :=
  persisted .sample .sample ⟨true, true⟩ none ⟨.empty, VectorOnlyIndex.new 8 none⟩

/-- The session on that index once it has put a first document. -/
def seededSession : Session :=
  (((Session.fresh 8 none).withIndex seededStore.index).call .sample ⟨true, true⟩
    (.upsertVectors [zeroDocument "a"])).1

/-- The first commit of an empty store takes the epoch that the first mutation counts up to, and the
base written then replaces files of the root in place. -/
theorem exists_persist_not_sparesCommitted :
    ¬ ∀ (P : Primitives) (format : Format) (creation : Creation) (actions : List Action) (machine : Machine)
      (session : Session) (policy : TextPolicy) (ann : Option (List (List String))),
      MachineRun P format creation (fun _ _ => True) (.fresh creation) actions machine →
      machine.session = some session → Steps SparesCommitted ⟨machine.disk, session.index⟩
        (persistTrace P format policy ann ⟨machine.disk, session.index⟩).1 := by
  intro hspares
  have hrun : MachineRun .sample .sample ⟨8, none, false⟩ (fun _ _ => True) (.fresh ⟨8, none, false⟩)
      [.persist ⟨true, true⟩ none, .call ⟨true, true⟩ (.upsertVectors [zeroDocument "a"])]
      ⟨seededStore.disk, some seededSession⟩ :=
    .step trivial trivial rfl (.step (fun _ _ => trivial) trivial rfl (.done _))
  -- the second step writes the state's base under the epoch of the root that the first persist left
  obtain ⟨-, hsecond, -⟩ := hspares _ _ _ _ _ _ ⟨true, true⟩ none hrun rfl
  exact hsecond _ rfl _ rfl (.part .json (.base 1)) ⟨_, rfl, .inl rfl⟩ ⟨rfl, rfl⟩

/-- A session that has put a first document. -/
def firstSession : Session :=
  ((Session.fresh 8 none).call .sample ⟨true, true⟩ (.upsertVectors [zeroDocument "a"])).1

/-- Its writer once that document is persisted. -/
def firstStore : Store := persisted .sample .sample ⟨true, true⟩ none ⟨.empty, firstSession.index⟩

/-- The session once it has put a second document. -/
def secondSession : Session :=
  ((firstSession.withIndex firstStore.index).call .sample ⟨true, true⟩
    (.upsertVectors [zeroDocument "b"])).1

/-- The second persist of a store that was first persisted with a document in it. -/
theorem persist_sparesCommitted_second :
    Steps SparesCommitted ⟨firstStore.disk, secondSession.index⟩
      (persistTrace .sample .sample ⟨true, true⟩ none ⟨firstStore.disk, secondSession.index⟩).1 := by
  have hrun : MachineRun .sample .sample ⟨8, none, false⟩ (fun _ _ => True) (.fresh ⟨8, none, false⟩)
      [.call ⟨true, true⟩ (.upsertVectors [zeroDocument "a"]), .persist ⟨true, true⟩ none,
        .call ⟨true, true⟩ (.upsertVectors [zeroDocument "b"])]
      ⟨firstStore.disk, some secondSession⟩ :=
    .step (fun _ _ => trivial) trivial rfl (.step trivial trivial rfl
      (.step (fun _ _ => trivial) trivial rfl (.done _)))
  refine persist_sparesCommitted hrun rfl ⟨true, true⟩ none ?_
  intro _ root hroot
  cases hroot
  decide

/-! ## Failed persists -/

variable {P : Primitives} {format : Format} {policy : TextPolicy} {final : Store}

/-- Appending under the next numbers leaves the listed files alone. -/
theorem sameListed_appendedStores {segments : (kind : StoreKind) → Option (Segment kind × ℕ × ℕ)} {written epoch : ℕ}
    {kinds rest : List StoreKind} {initial manifests : Manifests} {start disk : Disk} {kind : StoreKind}
    {listed : Manifest (BaseInfo kind)}
    (h : AppendedStores format segments written kinds start initial rest manifests disk)
    (hbelow : Below listed.deltas ((start.stores kind).nextSeq epoch)) :
    SameListed epoch listed (start.stores kind) (disk.stores kind) := by
  by_cases hskip : kind ∈ rest ∨ kind ∉ kinds ∨ segments kind = none
  · rw [(h.skipped kind hskip).1]
    exact ⟨rfl, fun _ _ => rfl⟩
  · simp only [not_or, not_not] at hskip
    obtain ⟨segment, hseg⟩ := Option.ne_none_iff_exists'.mp hskip.2.2
    obtain ⟨_, -, manifest, hman, hstore, -⟩ := h.done kind hskip.2.1 hskip.1 segment hseg
    rw [hstore]
    refine ⟨rfl, fun entry hentry => ?_⟩
    rw [appendedFiles, apply_segment _ (by simp [Op.Modifies]), apply_segment]
    intro heq
    obtain ⟨rfl, hseq⟩ := Part.segment.inj heq
    have hlt := hbelow entry hentry
    rw [Files.nextSeq, hman, hseq] at hlt
    exact lt_irrefl _ hlt

/-- A failed persist leaves the root and the files it lists, the sidecar's apart. -/
theorem PersistStopped.agree (h : PersistStopped P format policy store final) (hahead : StoreAhead store) :
    final.disk.root = store.disk.root ∧ ∀ root, store.disk.root = some root → ∀ kind, kind ≠ .tvvf →
      Agree root store.disk final.disk kind := by
  cases h with
  | flushing hflush =>
    refine ⟨hflush.disk.root, fun root _ kind hkind _ _ => ?_⟩
    rw [hflush.disk.stores kind hkind]
    exact ⟨rfl, fun _ _ => rfl⟩
  | appending _ _ hflush _ hstop _ =>
    refine ⟨hstop.root.trans hflush.disk.root, fun root hroot kind hkind listed hlisted => ?_⟩
    rw [← show _ = store.disk.stores kind from hflush.disk.stores kind hkind]
    rcases hstop.appended with hdisk | ⟨_, _, _, -, happ⟩
    · rw [hdisk]
      exact ⟨rfl, fun _ _ => rfl⟩
    · refine sameListed_appendedStores happ ?_
      rw [root.epochOf_of_ne hkind, hflush.disk.stores kind hkind]
      exact (hahead.root root hroot).journals kind hkind listed hlisted

/-- The contents a directory opens to. -/
def openContents (P : Primitives) (format : Format) (disk : Disk) (limit : ℕ) :=
  (openStore P format disk limit).map (Option.map VectorOnlyIndex.contents)

/-- The session once it has put a patch matrix, for which its base has no journal. -/
def patchedSession : Session := ((firstSession.withIndex firstStore.index).call .sample ⟨true, true⟩
  (.upsertVectors [{ zeroDocument "b" with patchMatrix := some ⟨"float32", 1, List.replicate 32 0⟩ }])).1

end LodeDB.Engine
