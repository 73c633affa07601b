import LodeDB.Storage.CommitAhead

/-!
# The sidecar's writes spare its committed epoch

The writer's sidecar manifest leads the root's: it stands under a later epoch, or under the same one with a numbering
that is ahead. An append restores the writer's manifest and goes on from its numbering; a first base and a fold write
under an epoch the root does not use.
-/

namespace LodeDB.Storage

open Journal Traced

variable {disk : Disk} {writer : Remembered} {fresh : Prop}

/-- A writer whose sidecar leads is ahead. -/
theorem Ahead.adopt (h : Ahead disk writer) {manifest : TvvfManifestEntry} (hleads : Leads disk.root manifest) :
    Ahead disk { writer with sidecar := some manifest } where
  numbered := h.numbered
  root root hroot := { h.root root hroot with first := fun _ hnone => by cases hnone }
  sidecar own hown := by
    cases hown
    exact hleads

/-- A writer that gave up its sidecar is ahead. -/
theorem Ahead.dropSidecar (h : Ahead disk writer) :
    Ahead disk { writer with sidecar := none, rescored := false } where
  numbered := h.numbered
  root root hroot := { h.root root hroot with first := fun hrescored => by cases hrescored }
  sidecar own hown := by cases hown

/-- Steps on the sidecar's files keep the journals ahead. -/
theorem Ahead.sidecarStep (h : Ahead disk writer)
    (op : Op (Base .tvvf) (Segment .tvvf) (BaseInfo .tvvf)) : Ahead (disk.apply (.store .tvvf op)) writer :=
  h.store (fun hne => absurd rfl hne) (fun hne => absurd rfl hne)

variable (format : Format)

/-- A program that fails at once, or records a sidecar base under another epoch than the root's. -/
theorem recordTvvfBase_spec {pre : Disk → Prop}
    {program : Program TvvfFiles (Op TvvfSegment TvvfSegment TvvfInfo) CoreError TvvfManifestEntry}
    (h : ∀ disk, pre disk → (∃ error, program (disk.stores .tvvf) = ([], .error error)) ∨
      ∃ content info, program (disk.stores .tvvf) = recordBase format.tvvf.digests (·.getD 0) info.vfEpoch content
          info (disk.stores .tvvf) ∧
        Ahead disk writer ∧ ∀ root, disk.root = some root → ∀ committed : TvvfManifestEntry,
          root.manifests .tvvf = some committed → committed.base.vfEpoch < info.vfEpoch) :
    Spec pre (onStore .tvvf program) (Guarded writer fresh)
      fun manifest disk => Ahead disk writer ∧ Leads disk.root manifest := by
  apply spec_twoSteps
  intro disk hpre
  rcases h disk hpre with hfails | ⟨content, info, hrun, hahead, hother⟩
  · exact .inl hfails
  have hfirst := hahead.sidecarStep (.writeBase info.vfEpoch content)
  refine .inr ⟨.writeBase info.vfEpoch content, .writeManifest info.vfEpoch _, _, hrun, ⟨hfirst, fun _ => ?_⟩,
    ⟨hfirst.sidecarStep _, fun _ => spares_writeManifest _ _ _⟩, hfirst.sidecarStep _, by simp [Below], ?_⟩
  · exact spares_epoch info.vfEpoch (by simp [Op.Modifies]) fun root hroot committed hcom =>
      (hother root hroot committed hcom).ne
  · exact fun root hroot committed hcom => .inl (hother root hroot committed hcom)

/-- A first sidecar base. -/
theorem recordEncodedBase_spec (hnone : writer.sidecar = none) (hrescored : writer.rescored = true)
    (vfEpoch : ℕ) (dtype : TvvfDtype) (dim : ℕ) (rows : List (UInt64 × List UInt8)) :
    Spec (fun disk => Ahead disk writer) (onStore .tvvf (recordEncodedBase format.tvvf vfEpoch dtype dim rows))
      (Guarded writer fresh) fun manifest disk => Ahead disk writer ∧ Leads disk.root manifest := by
  refine recordTvvfBase_spec format fun disk h => ?_
  cases hvalid : validateEncodedRows dtype dim rows with
  | error error =>
    exact .inl ⟨error, by simp [recordEncodedBase, bind, Program.andThen, Program.lift, hvalid]⟩
  | ok =>
    refine .inr ⟨⟨dtype, dim, rows, []⟩, ⟨vfEpoch, dtype, dim, rows.length⟩, ?_, h, ?_⟩
    · simp [recordEncodedBase, bind, Program.andThen, Program.lift, hvalid]
    · intro root hroot committed hcom
      rw [(h.root root hroot).first hrescored hnone] at hcom
      cases hcom

/-- Folding a sidecar that leads. -/
theorem fold_spec (manifest : TvvfManifestEntry) :
    Spec (fun disk => Ahead disk writer ∧ Leads disk.root manifest)
      (onStore .tvvf (fold format.tvvf manifest.base.vfEpoch)) (Guarded writer fresh)
      fun folded disk => Ahead disk writer ∧ Leads disk.root folded := by
  refine recordTvvfBase_spec format ?_
  rintro disk ⟨h, hleads⟩
  cases hman : (disk.stores .tvvf).manifest manifest.base.vfEpoch with
  | none =>
    exact .inl ⟨_, by simp [fold, bind, Program.andThen, Program.look, Program.fail, hman]; rfl⟩
  | some stored =>
    cases hopen : TvvfReader.openWith format.tvvf (disk.stores .tvvf) stored with
    | error error =>
      exact .inl ⟨error, by simp [fold, bind, Program.andThen, Program.look, Program.lift, hman, hopen]⟩
    | ok reader =>
      refine .inr ⟨⟨reader.base.dtype, reader.base.dim, reader.foldRows, []⟩,
        ⟨manifest.base.vfEpoch + 1, reader.base.dtype, reader.base.dim, reader.foldRows.length⟩, ?_, h, ?_⟩
      · simp [fold, bind, Program.andThen, Program.look, Program.lift, hman, hopen]
      · intro root hroot committed hcom
        rcases hleads.committed root hroot committed hcom with hlt | ⟨heq, -⟩
        · exact hlt.trans (Nat.lt_succ_self _)
        · exact heq.trans_lt (Nat.lt_succ_self _)

/-- An append of encoded rows fails before it writes, or appends one segment. -/
theorem appendEncodedDelta_cases (format : TvvfFormat) (vfEpoch : ℕ) (upserts : List (UInt64 × List UInt8))
    (deleted : List UInt64) (files : TvvfFiles) :
    (∃ error, appendEncodedDelta format vfEpoch upserts deleted files = ([], .error error)) ∨
      ∃ segment, appendEncodedDelta format vfEpoch upserts deleted files =
        appendDelta format.digests (tvvfIo "manifest not found") vfEpoch segment upserts.length deleted.length
          files := by
  unfold appendEncodedDelta
  simp only [bind, Program.andThen, Program.look, after_nil, List.nil_append]
  cases files.bases[vfEpoch]? with
  | none => exact .inl ⟨_, rfl⟩
  | some base =>
    simp only
    cases readHeader format base with
    | error error => exact .inl ⟨_, rfl⟩
    | ok =>
      cases validateEncodedRows base.dtype base.dim upserts with
      | error error => exact .inl ⟨_, rfl⟩
      | ok =>
        cases validateDeleted deleted (upserts.map Prod.fst) with
        | error error => exact .inl ⟨_, rfl⟩
        | ok => exact .inr ⟨_, rfl⟩

/-- Putting a manifest back in place. -/
theorem restoreManifest_spec (previous : TvvfManifestEntry) :
    Spec (fun disk => Ahead disk writer) (onStore .tvvf (restoreManifest previous)) (Guarded writer fresh)
      fun _ disk => Ahead disk writer ∧ (disk.stores .tvvf).manifest previous.base.vfEpoch = some previous := by
  have hnext := fun disk (h : Ahead disk writer) => h.sidecarStep (.writeManifest previous.base.vfEpoch previous)
  refine ⟨fun disk h => ⟨⟨hnext disk h, fun _ => spares_writeManifest _ _ _⟩, trivial⟩,
    fun disk _ h _ => ⟨hnext disk h, ?_⟩, fun _ _ _ _ => trivial⟩
  change ((disk.setStore .tvvf _).stores .tvvf).manifest _ = _
  rw [setStore_same]
  exact writeManifest_manifest _ _ _

/-- Appending to the writer's sidecar. -/
theorem appendEncodedDelta_spec {previous : TvvfManifestEntry} (hown : writer.sidecar = some previous)
    (upserts : List (UInt64 × List UInt8)) (deleted : List UInt64) :
    Spec (fun disk => Ahead disk writer ∧ (disk.stores .tvvf).manifest previous.base.vfEpoch = some previous)
      (onStore .tvvf (appendEncodedDelta format.tvvf previous.base.vfEpoch upserts deleted))
      (Guarded writer fresh) fun manifest disk => Ahead disk writer ∧ Leads disk.root manifest := by
  apply spec_twoSteps
  rintro disk ⟨h, hrest⟩
  rcases appendEncodedDelta_cases format.tvvf previous.base.vfEpoch upserts deleted (disk.stores .tvvf) with
    hfails | ⟨segment, happend⟩
  · exact .inl hfails
  have hleads := h.sidecar previous hown
  have hfirst := h.sidecarStep (.writeSegment previous.base.vfEpoch previous.nextSeq segment)
  refine .inr ⟨_, _, _, happend.trans (appendDelta_trace _ _ _ _ _ hrest), ⟨hfirst, fun _ => ?_⟩,
    ⟨hfirst.sidecarStep _, fun _ => spares_writeManifest _ _ _⟩, hfirst.sidecarStep _,
    below_push hleads.own _ _ _, ?_⟩
  · apply spares_store
    rintro root hroot committed hcom part (rfl | ⟨entry, hentry, rfl⟩) hmod
    · cases hmod
    · simp only [CommitManifest.epochOf, Op.Modifies, Part.segment.injEq] at hmod
      rcases hleads.committed root hroot committed hcom with hlt | ⟨-, hbelow⟩
      · omega
      · exact (hbelow entry hentry).ne hmod.2
  · intro root hroot committed hcom
    rcases hleads.committed root hroot committed hcom with hlt | ⟨heq, hbelow⟩
    · exact .inl hlt
    · exact .inr ⟨heq, hbelow.mono (Nat.le_succ _)⟩

end LodeDB.Storage
