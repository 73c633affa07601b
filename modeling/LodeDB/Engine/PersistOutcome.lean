import LodeDB.Engine.Machine
import LodeDB.Storage.Contents

/-!
# How a persist ends

A persist that returns has committed nothing, a base, a watermark or a delta; one that fails has left
the root in place, the documents and the pending sets as they were, and at most one more segment in
each journal.
-/

namespace LodeDB.Engine

open Journal Traced
open LodeDB.Storage

/-- An index without what it knows of the original-precision sidecar. -/
def VectorOnlyIndex.withoutSidecar (index : VectorOnlyIndex) : VectorOnlyIndex :=
  { index with
    rescoreDtype := none
    tvvfReader := none
    tvvfManifest := none
    dropTvvfManifest := false }

/-- A writer after a flush of the sidecar: nothing else has changed. -/
structure Flushed (start store : Store) : Prop where
  disk : OnlySidecar start.disk store.disk
  index : store.index.withoutSidecar = start.index.withoutSidecar

theorem Flushed.refl (store : Store) : Flushed store store := ⟨.refl store.disk, rfl⟩

/-- A field that is not the sidecar's. -/
theorem Flushed.field {α : Type} {start store : Store} (h : Flushed start store) (field : VectorOnlyIndex → α) :
    field store.index.withoutSidecar = field start.index.withoutSidecar :=
  congrArg field h.index

section Flush

variable {start : Store}

/-- A program on the sidecar's files. -/
theorem flushed_onDisk {α : Type}
    (program : Program (StoreFiles .tvvf) (Op (Base .tvvf) (Segment .tvvf) (BaseInfo .tvvf)) CoreError α) :
    Ends (Flushed start) (onDisk (onStore .tvvf program)) (fun _ => Flushed start) (Flushed start) := by
  refine Ends.zoom (fun _ => rfl) fun store h => ?_
  exact (onlySidecar_ends program).weaken (fun _ heq => heq ▸ h.disk) (fun _ disk hdisk => ⟨hdisk, h.index⟩)
    fun _ disk hdisk => ⟨hdisk, h.index⟩

/-- A flush changes the sidecar only. -/
theorem flushed_rules (format : Format) (generation : ℕ) : FlushRules format generation (fun _ _ _ => True)
    (fun _ => Flushed start) (Flushed start) fun _ => Flushed start where
  fails _ _ _ h := h
  drops _ h := ⟨trivial, h.disk, h.index⟩
  writes _ _ h _ := (flushed_onDisk _).weakenPre (fun _ heq => heq ▸ h)
  reads _ _ _ h := ⟨trivial, h.disk, h.index⟩
  folds _ := flushed_onDisk _
  adopts _ _ h := ⟨trivial, h.disk, h.index⟩

end Flush

section Persist

variable (P : Primitives) (format : Format) (policy : TextPolicy)

/-- The writer once a persist has counted the generation it commits. -/
def Store.bumped (store : Store) : Store :=
  ⟨store.disk, { store.index with generation := bumpedGeneration store.index }⟩

/-- What a persist that returns has done. -/
inductive PersistDone (ann : Option (List (List String))) (store final : Store) : Prop
  | nothing (hnothing : nothingToPersist store.index = true) (hfinal : final = store)
  | base (hsome : nothingToPersist store.index = false) (hbase : needsBase P policy store = true)
      {flushed : Store} (hflushed : Flushed store.bumped flushed)
      {tvim : Option (TvimBase × UInt64)} (htvim : tvimBaseForIndex P flushed.index = .ok tvim)
      {disk : Disk} (hcommitted : BaseCommitted format (commitInput P policy flushed.index
        (commitGeneration store.index) tvim ann flushed.index.tvvfManifest) flushed.disk disk)
      (hdisk : OnlySidecar disk final.disk)
      (hindex : final.index = (flushed.index.rebased (commitGeneration store.index)
        (liveFingerprint P store.index)).committed (commitGeneration store.index))
  | watermark (hsome : nothingToPersist store.index = false) (hbase : needsBase P policy store = false)
      (hwatermark : watermarkOnly store.index = true)
      {previous : CommitManifest} (hprevious : store.disk.root = some previous)
      (hdisk : OnlySidecar (watermarkCommitted (commitGeneration store.index)
        (max store.index.appliedLsn (commitGeneration store.index)) previous store.disk) final.disk)
      (hindex : final.index = store.bumped.index.committed (commitGeneration store.index))
  | delta (hsome : nothingToPersist store.index = false) (hbase : needsBase P policy store = false)
      (hwatermark : watermarkOnly store.index = false)
      {flushed : Store} (hflushed : Flushed store.bumped flushed)
      {tvim : Option TvimSegment} (htvim : buildTvimDelta P flushed.index = .ok tvim)
      {previous : CommitManifest} {disk : Disk}
      (hcommitted : DeltaCommitted format (deltaInput P policy flushed.index (commitGeneration store.index)
        tvim flushed.index.tvvfManifest) previous flushed.disk disk)
      (hdisk : OnlySidecar disk final.disk)
      (hindex : final.index = flushed.index.committed (commitGeneration store.index))

/-- What a persist that fails has left. -/
inductive PersistStopped (store final : Store) : Prop
  | flushing (hflushed : Flushed store.bumped final)
  | appending (hbase : needsBase P policy store = false) (hwatermark : watermarkOnly store.index = false)
      {flushed : Store} (hflushed : Flushed store.bumped flushed)
      {tvim : Option TvimSegment} (htvim : buildTvimDelta P flushed.index = .ok tvim)
      (hstopped : DeltaStopped format (deltaInput P policy flushed.index (commitGeneration store.index)
        tvim flushed.index.tvvfManifest) flushed.disk final.disk)
      (hindex : final.index = flushed.index)

variable {store : Store}

/-- A commit of what a flush left, once a part of it is built. -/
theorem flushCommit_ends {β : Type} {generation : ℕ} (build : VectorOnlyIndex → Except CoreError β)
    (commit : VectorOnlyIndex → Option TvvfManifestEntry → β → DiskProgram Unit)
    {post : Store → β → Disk → Prop} {failed : Store → Prop}
    (hcmt : ∀ flushed built, Flushed store flushed → build flushed.index = .ok built →
      Ends (· = flushed.disk) (commit flushed.index flushed.index.tvvfManifest built) (fun _ => post flushed built)
        fun disk => failed ⟨disk, flushed.index⟩) (hfailed : ∀ flushed, Flushed store flushed → failed flushed) :
    Ends (· = store) (do
        let manifest ← flushTvvf format generation
        let now ← Program.look
        let built ← Program.lift (build now.index)
        onDisk (do commit now.index manifest built; gcTvvf))
      (fun _ final => ∃ flushed built disk, Flushed store flushed ∧ build flushed.index = .ok built ∧
        post flushed built disk ∧ OnlySidecar disk final.disk ∧ final.index = flushed.index) failed := by
  have hstart : ∀ other, other = store → Flushed store other := fun _ heq => heq ▸ .refl store
  apply ((flushed_rules format generation).flushTvvf.weaken hstart (fun _ _ h => h) fun _ => hfailed).bind
  intro manifest
  refine Triple.named fun flushed h => Triple.lookThen ?_
  obtain ⟨hflush, rfl⟩ := h
  refine Triple.liftThen (fun other _ heq _ => heq ▸ hfailed _ hflush) fun built hbuilt => ?_
  refine Ends.zoom (fun _ => rfl) ?_
  rintro _ rfl
  refine (thenGcTvvf_ends (hcmt _ built hflush hbuilt)).weakenPost ?_
  rintro _ disk ⟨committed, hcom, hdisk⟩
  exact ⟨_, built, committed, hflush, hbuilt, hcom, hdisk, rfl⟩

variable (ann : Option (List (List String)))

theorem writeIndexBase_ends (generation : ℕ) :
    Ends (· = store) (writeIndexBase P format policy ann generation)
      (fun _ final => ∃ flushed tvim disk, Flushed store flushed ∧ tvimBaseForIndex P flushed.index = .ok tvim ∧
        BaseCommitted format (commitInput P policy flushed.index generation tvim ann flushed.index.tvvfManifest)
          flushed.disk disk ∧ OnlySidecar disk final.disk ∧ final.index = flushed.index) (Flushed store) :=
  flushCommit_ends format (tvimBaseForIndex P)
    (fun index manifest tvim => writeGenerationCommit format (commitInput P policy index generation tvim ann manifest))
    (fun flushed _ _ _ => (writeGenerationCommit_ends _ flushed.disk).weakenFailed fun _ _ h => h.elim) fun _ h => h

theorem writeIndexWatermark_ends (generation : ℕ) :
    Ends (· = store) (writeIndexWatermark generation)
      (fun _ final => ∃ previous, store.disk.root = some previous ∧
        OnlySidecar (watermarkCommitted generation (max store.index.appliedLsn generation) previous store.disk)
          final.disk ∧ final.index = store.index) (Flushed store) := by
  refine Triple.lookThen (Ends.zoom (fun _ => rfl) ?_)
  rintro _ rfl
  refine (thenGcTvvf_ends (writeGenerationWatermark_ends generation _ _)).weaken (fun _ h => h) ?_ ?_
  · rintro _ disk ⟨_, ⟨previous, hprev, rfl⟩, hdisk⟩
    exact ⟨previous, hprev, hdisk, rfl⟩
  · rintro _ disk rfl
    exact .refl _

theorem writeIndexDelta_ends (generation : ℕ) :
    Ends (· = store) (writeIndexDelta P format policy generation)
      (fun _ final => ∃ flushed tvim disk, Flushed store flushed ∧ buildTvimDelta P flushed.index = .ok tvim ∧
        (∃ previous, DeltaCommitted format (deltaInput P policy flushed.index generation tvim
          flushed.index.tvvfManifest) previous flushed.disk disk) ∧
        OnlySidecar disk final.disk ∧ final.index = flushed.index)
      (fun final => Flushed store final ∨ ∃ flushed tvim, Flushed store flushed ∧
        buildTvimDelta P flushed.index = .ok tvim ∧
        DeltaStopped format (deltaInput P policy flushed.index generation tvim flushed.index.tvvfManifest)
          flushed.disk final.disk ∧ final.index = flushed.index) :=
  flushCommit_ends format (buildTvimDelta P)
    (fun index manifest tvim => writeGenerationDelta format (deltaInput P policy index generation tvim manifest))
    (fun flushed tvim hflush htvim => (writeGenerationDelta_ends _ flushed.disk).weakenFailed
      fun _ _ h => .inr ⟨flushed, tvim, hflush, htvim, h, rfl⟩) fun _ h => .inl h

/-- How committing an index ends. -/
theorem commitIndex_ends (store : Store) (hsome : nothingToPersist store.index = false) :
    Ends (· = store) (commitIndex P format policy ann store.index (needsBase P policy store))
      (fun _ => PersistDone P format policy ann store) (PersistStopped P format policy store) := by
  apply Triple.via fun _ final => final = store.bumped
  · apply Triple.perform
    rintro _ rfl
    exact ⟨trivial, rfl⟩
  · intro _
    simp only
    cases hbase : needsBase P policy store with
    | true =>
      rw [if_pos rfl]
      apply ((writeIndexBase_ends P format policy ann _).weakenFailed fun _ _ h => .flushing h).bind
      intro _
      refine Triple.named fun written h => ?_
      obtain ⟨flushed, tvim, disk, hflush, htvim, hcom, hdisk, hindex⟩ := h
      apply Triple.via fun _ final => final = Store.mk written.disk (written.index.rebased
        (commitGeneration store.index) (liveFingerprint P store.index))
      · apply Triple.perform
        rintro _ rfl
        exact ⟨trivial, rfl⟩
      · intro _
        apply Triple.perform
        rintro _ rfl
        exact ⟨trivial, .base hsome hbase hflush htvim hcom hdisk (by rw [hindex])⟩
    | false =>
      rw [if_neg (by simp)]
      cases hmark : watermarkOnly store.index with
      | true =>
        rw [if_pos rfl]
        apply ((writeIndexWatermark_ends _).weakenFailed fun _ _ h => .flushing h).bind
        intro _
        apply Triple.perform
        rintro written ⟨previous, hprev, hdisk, hindex⟩
        exact ⟨trivial, .watermark hsome hbase hmark hprev hdisk (by rw [hindex])⟩
      | false =>
        rw [if_neg (by simp)]
        apply ((writeIndexDelta_ends P format policy _).weakenFailed ?_).bind
        · intro _
          apply Triple.perform
          rintro written ⟨flushed, tvim, disk, hflush, htvim, ⟨previous, hcom⟩, hdisk, hindex⟩
          exact ⟨trivial, .delta hsome hbase hmark hflush htvim hcom hdisk (by rw [hindex])⟩
        · rintro _ final (hflush | ⟨flushed, tvim, hflush, htvim, hstop, hindex⟩)
          · exact .flushing hflush
          · exact .appending hbase hmark hflush htvim hstop hindex

/-- **How a persist ends.** -/
theorem persist_ends (store : Store) :
    ((persistTrace P format policy ann store).2 = .ok () →
      PersistDone P format policy ann store (persisted P format policy ann store)) ∧
    ∀ error, (persistTrace P format policy ann store).2 = .error error →
      PersistStopped P format policy store (persisted P format policy ann store) := by
  have hends : Ends (· = store) (persistIndexGeneration P format policy ann)
      (fun _ => PersistDone P format policy ann store) (PersistStopped P format policy store) := by
    refine Triple.lookThen ?_
    cases hnothing : nothingToPersist store.index with
    | true => exact .pure fun final hfinal => .nothing hnothing hfinal
    | false => exact commitIndex_ends P format policy ann store hnothing
  exact ⟨fun hok => hends.returns store () rfl hok, fun error herror => hends.fails store error rfl herror⟩

end Persist

end LodeDB.Engine
