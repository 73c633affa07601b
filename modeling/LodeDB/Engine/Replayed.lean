import LodeDB.Engine.FollowedCalls
import LodeDB.Engine.PersistOutcome

/-!
# Replaying the committed rows

A strict replay of the vector store applies the segments the root lists to the base. It rejects a segment that
removes a row that is not there or leaves another number of rows than it recorded. The rows a persist commits are
followed from the live index through base and delta.
-/

namespace LodeDB.Engine

open ExceptRules Journal TreeMapRules
open SortedSet (ascending ascendingWords)
open LodeDB.Storage
open Text (stableUint64ForText StableOn)

variable (P : Primitives) (format : Format)

variable {fingerprint : UInt64} {disk : Disk} {rows : Rows} {live : TurboVecNativeIndex}
  {entries : List (UInt64 × EncodedRow)} {tvim : Option TvimSegment} {previous : CommitManifest}
  {session : Session}

variable {content : Content .tvim}

/-- The rows a strict replay of the committed vector store gives. -/
def replayedRows (disk : Disk) (root : CommitManifest) : Except CoreError Rows :=
  match root.manifests .tvim with
  | none => .ok ∅
  | some manifest => do
    validateTvim format (disk.stores .tvim) root.baseEpoch (some manifest)
    let base ← loadIdMap P format (disk.stores .tvim) root.baseEpoch manifest
    return base.index.rows

/-- A content of the vector store replays to some rows, given the fingerprints of its base and of the calibration it
ends with. -/
inductive Replays (fingerprint : UInt64) : Option UInt64 → Content .tvim → Rows → Prop
  | absent : Replays fingerprint none none ∅
  | present {base : TvimBase} {segments : List TvimSegment} {index : IdMapIndex}
      (hreplay : segments.foldlM (replayTvim P) base.index = .ok index)
      (hfingerprint : P.calibrationFingerprint index.calibration = fingerprint) :
      Replays fingerprint (some (P.calibrationFingerprint base.index.calibration)) (some (base, segments)) index.rows

variable {P format}

section Replay

/-- A standing content that replays to some rows loads with these rows. -/
theorem Replays.replayedRows {root : CommitManifest}
    (h : Replays P fingerprint ((root.manifests .tvim).map (·.base)) content rows)
    (hstand : Standing format .tvim (disk.stores .tvim) root.baseEpoch (root.manifests .tvim) content) :
    replayedRows P format disk root = .ok rows := by
  unfold Engine.replayedRows
  generalize hbase : (root.manifests .tvim).map (·.base) = base? at h
  cases h with
  | absent =>
    rw [Option.map_eq_none_iff] at hbase
    rw [hbase]
  | present hreplay hfp =>
    rename_i base segments index
    obtain ⟨manifest, hman, hbase⟩ := Option.map_eq_some_iff.mp hbase
    rw [hman] at hstand
    simp only [hman]
    have hstands := hstand.stands
    have hvalid : segments.foldlM (fun (_ : Unit) (_ : TvimSegment) => (Except.ok () : Except CoreError Unit)) () =
        .ok () := by
      clear hreplay hstands hstand
      induction segments with
      | nil => rfl
      | cons segment rest ih => exact ih
    have hfile := hstands.baseFile
    have hchk : validateTvim format (disk.stores .tvim) root.baseEpoch (some manifest) = .ok () := by
      simp only [validateTvim, hfile, verifyBase, ensure_of hstands.sha256.symm, ok_bind, hstands.replayEntries]
      exact hvalid
    have hload : loadIdMap P format (disk.stores .tvim) root.baseEpoch manifest =
        .ok { base with index := index } := by
      simp only [loadIdMap, hfile, ensure_of (Or.inr hbase), ok_bind, hstands.replayEntries]
      exact congrArg (fun loaded => loaded >>= fun index => pure { base with index := index }) hreplay
    simp only [hchk, hload, ok_bind]
    rfl

/-- Removing rows that are all there counts each of them. -/
theorem removeMany_count (index : IdMapIndex) (stableIds : List UInt64) (hnodup : stableIds.Nodup)
    (hpres : ∀ stableId ∈ stableIds, stableId ∈ keySet index.rows) :
    (index.removeMany stableIds).2 = stableIds.length := by
  induction stableIds generalizing index with
  | nil => rfl
  | cons stableId rest ih =>
    rw [List.nodup_cons] at hnodup
    have hhas : index.rows.contains stableId = true :=
      (contains_iff _ _).mpr (mem_keySet.mp (hpres stableId (by simp)))
    rw [IdMapIndex.removeMany, if_pos hhas]
    have hrest : ∀ other ∈ rest, other ∈ keySet (index.rows.erase stableId) := by
      intro other hother
      rw [keySet_erase, Finset.mem_erase]
      exact ⟨fun heq => hnodup.1 (heq ▸ hother), hpres other (by simp [hother])⟩
    simp only [ih { index with rows := index.rows.erase stableId } hnodup.2 hrest, List.length_cons]

/-- Exported rows are the ones the index has. -/
theorem exportEncoded_zip {index : IdMapIndex} {stableIds : List UInt64} {rows : List EncodedRow}
    (h : index.exportEncoded stableIds = .ok rows) :
    (stableIds.zip rows).map Prod.fst = stableIds ∧
      ∀ entry ∈ stableIds.zip rows, index.rows[entry.1]? = some entry.2 := by
  have hall := mapM_eq_ok.mp h
  refine ⟨List.map_fst_zip hall.length_eq.le, ?_⟩
  intro entry hentry
  have hstep := (List.forall₂_iff_zip.mp hall).2 (show (entry.1, entry.2) ∈ _ from hentry)
  split at hstep
  · rename_i row hrow
    cases hstep
    exact hrow
  · cases hstep

/-- The segment a delta commit writes for the vector store, if it writes one. -/
def tvimSegment (tvim : Option TvimSegment) : Option (TvimSegment × ℕ × ℕ) :=
  match tvim with
  | none => none
  | some segment =>
    if segment.upserts = [] ∧ segment.removedStableIds = [] then none
    else some (segment, segment.upserts.length, segment.removedStableIds.length)

/-- A delta of an index appends rows to the vector journal. -/
def AppendsRows (P : Primitives) (index : VectorOnlyIndex) : Prop :=
  ∃ tvim, buildTvimDelta P index = .ok tvim ∧ tvimSegment tvim ≠ none

variable {ids : Set String} {committed : Rows} {index : VectorOnlyIndex}

/-- The pending documents and removals turn the committed rows into the live ones. -/
theorem Followed.rows_eq (h : Followed P ids committed index) (hstable : StableOn P ids)
    (hlive : index.vectorIndex = some live)
    (hkeys : entries.map Prod.fst = live.stableIdsForChunks (pendingChunks index))
    (hents : ∀ entry ∈ entries, live.index.rows[entry.1]? = some entry.2) :
    writeAll (eraseAll committed (ascendingWords index.pendingRemovedStableIds)) entries = live.index.rows := by
  have hrows := liveRows_of_live hlive
  have hrem := h.tracked.removed
  rw [hrows] at hrem
  have hmem : ∀ stableId, stableId ∈ ascendingWords index.pendingRemovedStableIds ↔
      stableId ∈ keySet committed ∧ stableId ∉ keySet live.index.rows := by
    intro stableId
    rw [SortedSet.mem_ascendingWords, hrem, Finset.mem_sdiff]
  have hnone : ∀ {rows : Rows} {stableId : UInt64}, stableId ∉ keySet rows → rows[stableId]? = none := by
    intro rows stableId hnot
    rw [Option.eq_none_iff_forall_ne_some]
    exact fun row hrow => hnot (mem_keySet.mpr ⟨row, hrow⟩)
  apply writeAll_eraseAll_eq hents
  · intro stableId hword
    exact .inr (hnone ((hmem stableId).mp hword).2)
  · intro stableId hdiffers
    cases hrow : live.index.rows[stableId]? with
    | none =>
      right
      rw [hmem]
      refine ⟨?_, fun hkey => ?_⟩
      · by_contra hnot
        exact hdiffers ((hnone hnot).trans hrow.symm)
      · obtain ⟨row, hsome⟩ := mem_keySet.mp hkey
        rw [hrow] at hsome
        cases hsome
    | some row =>
      left
      rw [hrow] at hdiffers
      obtain ⟨chunkId, hchunk, rfl⟩ := h.tracked.covered stableId row (hrows ▸ hrow) hdiffers
      obtain ⟨owned, howned, hmir, -⟩ := h.shape live hlive
      have hkey := mem_keySet.mpr ⟨row, hrow⟩
      rw [hmir.rows, Finset.mem_image] at hkey
      obtain ⟨other, hother, hid⟩ := hkey
      have hsame := hstable.injOn other (howned other hother) chunkId (h.pendingChunks_within chunkId hchunk) hid
      rw [hkeys, hmir.mem_stableIdsForChunks]
      exact ⟨chunkId, hchunk, hsame ▸ hother, rfl⟩

/-- One segment that a delta commit writes turns the committed rows into the live ones. -/
theorem Followed.replayTvim (h : Followed P ids committed index) (hstable : StableOn P ids)
    (hlive : index.vectorIndex = some live) {start : IdMapIndex} (hstart : start.rows = committed)
    (hcal : P.calibrationFingerprint live.index.calibration = P.calibrationFingerprint start.calibration)
    (hkeys : entries.map Prod.fst = live.stableIdsForChunks (pendingChunks index))
    (hents : ∀ entry ∈ entries, live.index.rows[entry.1]? = some entry.2) :
    Storage.replayTvim P start ⟨entries, ascendingWords index.pendingRemovedStableIds, live.index.rows.size,
      P.calibrationFingerprint live.index.calibration⟩ = .ok { start with rows := live.index.rows } := by
  have hrows := h.rows_eq hstable hlive hkeys hents
  have hrem : (start.removeMany (ascendingWords index.pendingRemovedStableIds)).1 =
      { start with rows := eraseAll committed (ascendingWords index.pendingRemovedStableIds) } := by
    rw [IdMapIndex.removeMany_rows, hstart]
  have hcount : (start.removeMany (ascendingWords index.pendingRemovedStableIds)).2 =
      (ascendingWords index.pendingRemovedStableIds).length := by
    apply removeMany_count _ _ (SortedSet.ascendingWords_nodup _)
    intro stableId hmem
    rw [SortedSet.mem_ascendingWords, h.tracked.removed, Finset.mem_sdiff] at hmem
    exact hstart ▸ hmem.1
  have hnodup : (entries.map Prod.fst).Nodup := by
    rw [hkeys]
    exact Occurrence.nodup_eraseDups _
  simp only [Storage.replayTvim, ensure_of hcal, ok_bind, ensure_of hcount, hrem]
  by_cases hnone : entries = []
  · rw [hnone] at hrows
    have hkept : eraseAll committed (ascendingWords index.pendingRemovedStableIds) = live.index.rows := hrows
    simp only [hnone, if_true, hkept, ok_bind, ensure_of]
    rfl
  · simp only [hnone, if_false, IdMapIndex.addEncoded, if_pos hnodup, hrows, ok_bind, ensure_of]
    rfl

/-- The segment of a delta: the rows of the pending chunks, and the pending removals. -/
theorem buildTvimDelta_eq_ok (hlive : index.vectorIndex = some live) (htvim : buildTvimDelta P index = .ok tvim) :
    ∃ entries : List (UInt64 × EncodedRow), tvim = some ⟨entries, ascendingWords index.pendingRemovedStableIds,
        live.index.rows.size, P.calibrationFingerprint live.index.calibration⟩ ∧
      entries.map Prod.fst = live.stableIdsForChunks (pendingChunks index) ∧
      ∀ entry ∈ entries, live.index.rows[entry.1]? = some entry.2 := by
  simp only [buildTvimDelta, hlive, bind_eq_ok] at htvim
  obtain ⟨rows, hexported, htvim⟩ := htvim
  cases htvim
  exact ⟨_, rfl, exportEncoded_zip hexported⟩

/-- What a delta commit leaves in the vector store replays to the live rows. -/
theorem Replays.push {base? : Option UInt64} (h : Replays P fingerprint base? content committed)
    (hfol : Followed P ids committed index) (hstable : StableOn P ids)
    (hfp : liveFingerprint P index = fingerprint) (htvim : buildTvimDelta P index = .ok tvim)
    (hpres : tvimSegment tvim ≠ none → base? ≠ none) :
    Replays P fingerprint base? (Content.push content (tvimSegment tvim)) index.liveRows := by
  have hunpushed : ∀ content : Content .tvim, Content.push content none = content := by
    intro content
    cases content <;> rfl
  cases hlive : index.vectorIndex with
  | none =>
    have hnone : tvim = none := by
      rw [buildTvimDelta, hlive] at htvim
      cases htvim
      rfl
    have hrows : index.liveRows = committed := by
      rw [hfol.uncommitted hlive, VectorOnlyIndex.liveRows, hlive]
      rfl
    rw [hrows, hnone]
    exact (hunpushed content).symm ▸ h
  | some live =>
    obtain ⟨entries, rfl, hkeys, hents⟩ := buildTvimDelta_eq_ok hlive htvim
    have hrows := liveRows_of_live hlive
    rw [hrows]
    by_cases hnone : entries = [] ∧ ascendingWords index.pendingRemovedStableIds = []
    · have hsame := hfol.rows_eq hstable hlive hkeys hents
      rw [hnone.1, hnone.2] at hsame
      have hcommitted : committed = live.index.rows := hsame
      rw [tvimSegment, if_pos hnone, hunpushed, ← hcommitted]
      exact h
    · rw [tvimSegment, if_neg hnone] at hpres ⊢
      cases h with
      | absent => exact absurd rfl (hpres (Option.some_ne_none _))
      | present hreplay hcal =>
        have hlast := hfol.replayTvim hstable hlive rfl
          (by rw [hcal, ← hfp, liveFingerprint, hlive]; rfl) hkeys hents
        rename_i base segments start
        have hpushed : (segments ++ [(⟨entries, ascendingWords index.pendingRemovedStableIds, live.index.rows.size,
            P.calibrationFingerprint live.index.calibration⟩ : TvimSegment)]).foldlM (Storage.replayTvim P) base.index =
            .ok { start with rows := live.index.rows } := by
          rw [List.foldlM_append, hreplay]
          exact congrArg (fun last => last >>= fun index => pure index) hlast
        have hpres : Replays P fingerprint (some (P.calibrationFingerprint base.index.calibration)) _
          ({ start with rows := live.index.rows } : IdMapIndex).rows := .present hpushed hcal
        exact hpres

end Replay

section Persist

/-- The directory holds the rows of the last commit, if there was one. -/
inductive RowsCommitted (P : Primitives) (format : Format) (disk : Disk) (index : VectorOnlyIndex) :
    Option Rows → Prop
  | never (hroot : disk.root = none) (hepoch : index.baseEpoch = 0) : RowsCommitted P format disk index none
  | once {root : CommitManifest} {content : Content .tvim} {rows : Rows} (hroot : disk.root = some root)
      (hepoch : root.baseEpoch = index.baseEpoch) (hpositive : index.baseEpoch ≠ 0)
      (hstanding : Standing format .tvim (disk.stores .tvim) root.baseEpoch (root.manifests .tvim) content)
      (hreplays : Replays P index.baseCalibrationFingerprint ((root.manifests .tvim).map (·.base)) content rows) :
      RowsCommitted P format disk index (some rows)

variable {policy : TextPolicy} {ann : Option (List (List String))} {ids : Set String} {committed : Option Rows}
  {store final : Store} {index : VectorOnlyIndex}

/-- A committed generation replays to the rows of the last commit. -/
theorem RowsCommitted.replayed (h : RowsCommitted P format disk index committed) :
    disk.root.map (replayedRows P format disk) = committed.map .ok := by
  cases h with
  | never hroot _ => rw [hroot]; rfl
  | once hroot _ _ hstand hrepl =>
    rw [hroot, Option.map_some, hrepl.replayedRows hstand]
    rfl

/-- Only the root, the vector store and what the index knows of its base matter. -/
theorem RowsCommitted.congr {other : Disk} {index next : VectorOnlyIndex}
    (h : RowsCommitted P format disk index committed) (hdisk : OnlySidecar disk other)
    (hepoch : next.baseEpoch = index.baseEpoch)
    (hfp : next.baseCalibrationFingerprint = index.baseCalibrationFingerprint) :
    RowsCommitted P format other next committed := by
  cases h with
  | never hroot hzero => exact .never (hdisk.root.trans hroot) (hepoch.trans hzero)
  | once hroot hsame hpos hstand hrepl =>
    refine .once (hdisk.root.trans hroot) (hsame.trans hepoch.symm) (hepoch ▸ hpos) ?_ (hfp ▸ hrepl)
    rw [hdisk.stores .tvim (by decide)]
    exact hstand

/-- A fingerprint and rows that no pending mutation touches are the committed ones. -/
theorem Followed.rows_of_idle (h : Followed P ids rows index)
    (hstable : StableOn P ids) (hidle : nothingPending index = true) : index.liveRows = rows := by
  simp only [nothingPending, Bool.and_eq_true, decide_eq_true_eq] at hidle
  obtain ⟨⟨⟨⟨⟨⟨hups, -⟩, -⟩, -⟩, -⟩, hrem⟩, -⟩ := hidle
  cases hlive : index.vectorIndex with
  | none =>
    rw [h.uncommitted hlive, VectorOnlyIndex.liveRows, hlive]
    rfl
  | some live =>
    have hchunks : pendingChunks index = [] := by
      rw [pendingChunks, hups]
      rfl
    have hkeys : ([] : List (UInt64 × EncodedRow)).map Prod.fst = live.stableIdsForChunks (pendingChunks index) := by
      rw [hchunks]
      rfl
    have hrows := h.rows_eq hstable hlive hkeys (by simp)
    rw [hrem] at hrows
    rw [VectorOnlyIndex.liveRows, hlive]
    exact hrows.symm

/-- A flush of the sidecar does not touch what is followed. -/
theorem Followed.flushed {flushed : Store} (h : Followed P ids rows store.index)
    (hflush : Flushed store.bumped flushed) : Followed P ids rows flushed.index :=
  h.of_core (hflush.field VectorOnlyIndex.core)

/-- Once everything pending is committed, the live rows are the committed ones. -/
theorem Followed.afterCommit (h : Followed P ids rows index) (generation : ℕ) :
    Followed P ids index.liveRows (index.committed generation) := by
  have hrows : (index.committed generation).liveRows = index.liveRows := rfl
  refine ⟨h.owner, h.within, h.unbuilt, ?_, h.shape, h.seeded, h.resident, hrows ▸ rowsTracked_committed rfl rfl⟩
  intro hnone
  rw [← hrows, VectorOnlyIndex.liveRows, hnone]
  rfl

/-- The base of the vector store: the live rows, or nothing if there are none. -/
theorem Followed.tvimBase (h : Followed P ids rows index)
    {tvim : Option (TvimBase × UInt64)} (htvim : tvimBaseForIndex P index = .ok tvim) :
    Replays P (liveFingerprint P index) (tvim.map Prod.snd) (tvim.map fun base => (base.1, [])) index.liveRows := by
  rw [tvimBaseForIndex, if_pos h.seeded] at htvim
  cases hlive : index.vectorIndex with
  | some live =>
    simp only [hlive, bind_eq_ok, ensure_eq_ok] at htvim
    obtain ⟨-, -, htvim⟩ := htvim
    cases htvim
    have hrows := liveRows_of_live hlive
    have hreplay : [].foldlM (Storage.replayTvim P) (TvimBase.mk live.index live.dim).index = .ok live.index := rfl
    rw [hrows, liveFingerprint, hlive]
    exact .present hreplay rfl
  | none =>
    have hdocs := h.unbuilt hlive
    have hnone : tvim = none := by
      rw [hlive, hdocs] at htvim
      exact (Except.ok.inj htvim).symm
    rw [hnone, VectorOnlyIndex.liveRows, hlive]
    exact .absent

variable (hcommitted : RowsCommitted P format store.disk store.index committed)
  (hfol : Followed P ids (committed.getD ∅) store.index) (hstable : StableOn P ids)
  (hsync : needsBase P policy store = false → AppendsRows P store.index → ∀ root, store.disk.root = some root →
    InSync store.disk root .tvim)

include hcommitted hfol hstable in
/-- An index with nothing pending stands as it is. -/
theorem RowsCommitted.idle (hbase : store.index.baseEpoch ≠ 0) (hidle : nothingPending store.index = true) :
    committed = some store.index.liveRows := by
  cases hcommitted with
  | never _ hzero => exact absurd hzero hbase
  | once _ _ _ _ _ => rw [hfol.rows_of_idle hstable hidle, Option.getD_some]

/-- A persist that does not rewrite the base has one, with the live calibration. -/
theorem needsBase_eq_false (h : needsBase P policy store = false) :
    store.index.baseEpoch ≠ 0 ∧ liveFingerprint P store.index = store.index.baseCalibrationFingerprint := by
  simp only [needsBase, Bool.or_eq_false_iff, decide_eq_false_iff_not, not_not] at h
  exact ⟨h.1.1.1.1.2, h.1.1.2⟩

include hfol in
/-- A base commit writes the live rows. -/
theorem Followed.baseCommitted {flushed : Store} (hflush : Flushed store.bumped flushed)
    {tvim : Option (TvimBase × UInt64)} (htvim : tvimBaseForIndex P flushed.index = .ok tvim)
    (hwr : BaseCommitted format (commitInput P policy flushed.index (commitGeneration store.index) tvim ann
      flushed.index.tvvfManifest) flushed.disk disk) (hdisk : OnlySidecar disk final.disk)
    (hindex : final.index = (flushed.index.rebased (commitGeneration store.index)
      (liveFingerprint P store.index)).committed (commitGeneration store.index)) :
    RowsCommitted P format final.disk final.index (some store.index.liveRows) ∧
      Followed P ids store.index.liveRows final.index := by
  have hfollows := hfol.flushed hflush
  have hlive : flushed.index.vectorIndex = store.index.vectorIndex := hflush.field VectorOnlyIndex.vectorIndex
  have hrows : flushed.index.liveRows = store.index.liveRows := by
    rw [VectorOnlyIndex.liveRows, VectorOnlyIndex.liveRows, hlive]
  have hfp : liveFingerprint P flushed.index = liveFingerprint P store.index := by
    rw [liveFingerprint, liveFingerprint, hlive]
  obtain ⟨manifests, hroot, -, hstores⟩ := hwr.root
  obtain ⟨hstand, hman⟩ := hstores .tvim (by decide)
  have hrepl := hfollows.tvimBase htvim
  rw [hrows, hfp] at hrepl
  have hbase : (manifests .tvim).map (·.base) = tvim.map Prod.snd := by
    cases htvimSome : tvim with
    | none =>
      rw [htvimSome] at hstand
      generalize manifests .tvim = manifest? at hstand
      cases hstand
      rfl
    | some base =>
      obtain ⟨manifest, hsome, -, hinfo⟩ := hman base.1 base.2 (by rw [htvimSome]; rfl)
      rw [hsome]
      exact congrArg some hinfo
  refine ⟨?_, ?_⟩
  · rw [hindex]
    refine .once (hdisk.root.trans hroot) rfl (Nat.one_le_iff_ne_zero.mp (le_max_right _ _)) ?_ (hbase ▸ hrepl)
    rw [hdisk.stores .tvim (by decide)]
    exact hstand
  · have hrebased : Followed P ids (committed.getD ∅) (flushed.index.rebased (commitGeneration store.index)
        (liveFingerprint P store.index)) := hfollows.of_core rfl
    have hafter := hrebased.afterCommit (commitGeneration store.index)
    rw [hindex]
    exact hrows ▸ hafter

include hcommitted hfol hstable in
/-- A watermark commit keeps the rows. -/
theorem RowsCommitted.watermarked (hbase : store.index.baseEpoch ≠ 0)
    (hidle : nothingPending store.index = true) (hprev : store.disk.root = some previous)
    {generation appliedLsn : ℕ}
    (hdisk : OnlySidecar (watermarkCommitted generation appliedLsn previous store.disk) final.disk)
    (hindex : final.index = store.bumped.index.committed generation) :
    RowsCommitted P format final.disk final.index (some store.index.liveRows) ∧
      Followed P ids store.index.liveRows final.index := by
  have hrows := hcommitted.idle hfol hstable hbase hidle
  rw [hrows] at hcommitted
  refine ⟨?_, ?_⟩
  · cases hcommitted with
    | once hroot hepoch hpos hstand hrepl =>
      rw [hprev] at hroot
      cases hroot
      rw [hindex]
      refine .once hdisk.root hepoch hpos ?_ hrepl
      rw [hdisk.stores .tvim (by decide)]
      exact hstand
  · have hbumped : Followed P ids (committed.getD ∅) store.bumped.index := hfol.of_core rfl
    rw [hindex]
    exact hbumped.afterCommit generation

include hcommitted hfol hstable hsync in
/-- A delta commit turns the committed rows into the live ones. -/
theorem RowsCommitted.deltaCommitted (hbase : needsBase P policy store = false) {flushed : Store}
    (hflush : Flushed store.bumped flushed) (htvim : buildTvimDelta P flushed.index = .ok tvim)
    (hwr : DeltaCommitted format (deltaInput P policy flushed.index (commitGeneration store.index) tvim
      flushed.index.tvvfManifest) previous flushed.disk disk) (hdisk : OnlySidecar disk final.disk)
    (hindex : final.index = flushed.index.committed (commitGeneration store.index)) :
    RowsCommitted P format final.disk final.index (some store.index.liveRows) ∧
      Followed P ids store.index.liveRows final.index := by
  have hfollows := hfol.flushed hflush
  have hlive : flushed.index.vectorIndex = store.index.vectorIndex := hflush.field VectorOnlyIndex.vectorIndex
  have hrows : flushed.index.liveRows = store.index.liveRows := by
    rw [VectorOnlyIndex.liveRows, VectorOnlyIndex.liveRows, hlive]
  refine ⟨?_, ?_⟩
  · have hepochFlushed : flushed.index.baseEpoch = store.index.baseEpoch := hflush.field VectorOnlyIndex.baseEpoch
    have hfingerprintFlushed := hflush.field VectorOnlyIndex.baseCalibrationFingerprint
    have hbefore : store.disk.root = some previous := hflush.disk.root.symm.trans hwr.before
    have hfp : liveFingerprint P flushed.index = store.index.baseCalibrationFingerprint := by
      rw [← (needsBase_eq_false hbase).2, liveFingerprint, liveFingerprint, hlive]
    have hsame : flushed.disk.stores .tvim = store.disk.stores .tvim := hflush.disk.stores .tvim (by decide)
    cases hcommitted with
    | never hroot _ =>
      rw [hbefore] at hroot
      cases hroot
    | once hroot hepoch hpos hstand hrepl =>
      rename_i root content rows
      rw [hbefore] at hroot
      cases hroot
      obtain ⟨manifests, happ, hsealed⟩ := hwr.appended
      have hinSync (hseg : tvimSegment tvim ≠ none) :
          (flushed.disk.stores .tvim).manifest flushed.index.baseEpoch = previous.manifests .tvim := by
        rw [hsame, hepochFlushed, ← hepoch]
        exact hsync hbase ⟨tvim, (hflush.field (buildTvimDelta P)).symm.trans htvim, hseg⟩ previous hbefore
      rw [hepoch, ← hepochFlushed, ← hsame] at hstand
      have hstands := happ.standing hinSync (by decide) hstand
      obtain ⟨hbaseInfo, hpres⟩ := happ.base (fun hseg => hinSync hseg) (show StoreKind.tvim ∈ deltaKinds by decide)
      have hpushed := hrepl.push hfollows hstable hfp htvim fun hseg => by
        simpa using hpres hseg
      rw [hrows, ← hbaseInfo] at hpushed
      rw [hindex]
      have hroot : final.disk.root = some _ := hdisk.root.trans hsealed
      have hstand : Standing format .tvim (final.disk.stores .tvim) flushed.index.baseEpoch (manifests .tvim)
          (Content.push content (tvimSegment tvim)) := by
        rw [hdisk.stores .tvim (by decide)]
        exact hstands
      exact .once hroot rfl (hepochFlushed ▸ hpos) hstand (hfingerprintFlushed.symm ▸ hpushed)
  · rw [hindex, ← hrows]
    exact hfollows.afterCommit _

include hcommitted hfol hstable hsync in
/-- A persist that returns has committed the live rows. -/
theorem RowsCommitted.done (hdone : PersistDone P format policy ann store final) :
    RowsCommitted P format final.disk final.index (some store.index.liveRows) ∧
      Followed P ids store.index.liveRows final.index := by
  cases hdone with
  | nothing hnothing hfinal =>
    simp only [nothingToPersist, Bool.and_eq_true, decide_eq_true_eq] at hnothing
    obtain ⟨⟨⟨hbase, hidle⟩, -⟩, -⟩ := hnothing
    have hrows := hcommitted.idle hfol hstable hbase hidle
    rw [hrows] at hcommitted hfol
    subst hfinal
    exact ⟨hcommitted, hfol⟩
  | base hsome hbase hflush htvim hwr hdisk hindex =>
    exact hfol.baseCommitted hflush htvim hwr hdisk hindex
  | watermark hsome hbase hmark hprev hdisk hindex =>
    simp only [watermarkOnly, Bool.and_eq_true] at hmark
    exact hcommitted.watermarked hfol hstable (needsBase_eq_false hbase).1 hmark.1 hprev hdisk hindex
  | delta hsome hbase hmark hflush htvim hwr hdisk hindex =>
    exact hcommitted.deltaCommitted hfol hstable hsync hbase hflush htvim hwr hdisk hindex

include hcommitted hfol hsync in
/-- A persist that fails keeps the committed rows and what is pending. -/
theorem RowsCommitted.stopped (hstop : PersistStopped P format policy store final) :
    RowsCommitted P format final.disk final.index committed ∧ Followed P ids (committed.getD ∅) final.index := by
  cases hstop with
  | flushing hflush =>
    exact ⟨hcommitted.congr hflush.disk (hflush.field VectorOnlyIndex.baseEpoch)
      (hflush.field VectorOnlyIndex.baseCalibrationFingerprint), hfol.flushed hflush⟩
  | appending hbase hmark hflush htvim hstop hindex =>
    rename_i flushed tvim
    refine ⟨?_, hindex ▸ hfol.flushed hflush⟩
    have hepochFlushed := hflush.field VectorOnlyIndex.baseEpoch
    have hsame := hflush.disk.stores .tvim (by decide)
    have hkept : RowsCommitted P format flushed.disk flushed.index committed :=
      hcommitted.congr hflush.disk hepochFlushed (hflush.field VectorOnlyIndex.baseCalibrationFingerprint)
    rw [hindex]
    rcases hstop.appended with hdisk | ⟨previous, _, _, hprev, happ⟩
    · exact hdisk ▸ hkept
    · cases hkept with
      | never hroot _ =>
        rw [hprev] at hroot
        cases hroot
      | once hroot hepoch hpos hstand hrepl =>
        rw [hprev] at hroot
        cases hroot
        have hinSync (hseg : tvimSegment tvim ≠ none) :
            (flushed.disk.stores .tvim).manifest flushed.index.baseEpoch = previous.manifests .tvim := by
          rw [hsame, ← hepoch]
          exact hsync hbase ⟨tvim, (hflush.field (buildTvimDelta P)).symm.trans htvim, hseg⟩ previous
            (hflush.disk.root.symm.trans hprev)
        rw [hepoch] at hstand
        have hstands := happ.stillStanding hinSync (by decide) hstand
        exact .once (happ.root.trans hprev) hepoch hpos (hepoch ▸ hstands) hrepl

omit hstable in
/-- A persist keeps the owners and does not take the generation back. -/
theorem persisted_plans (policy : TextPolicy) (ann : Option (List (List String))) (store : Store) :
    (persisted P format policy ann store).index.chunkOwnerById = store.index.chunkOwnerById ∧
      store.index.generation ≤ (persisted P format policy ann store).index.generation := by
  have hbumped : store.index.generation ≤ bumpedGeneration store.index := by
    unfold bumpedGeneration
    split
    · rename_i hdue
      rw [Bool.and_eq_true, decide_eq_true_eq] at hdue
      omega
    · exact le_refl _
  have hflush : ∀ flushed : Store, Flushed store.bumped flushed →
      flushed.index.chunkOwnerById = store.index.chunkOwnerById ∧
        store.index.generation ≤ flushed.index.generation := by
    intro flushed h
    have hgen := h.field VectorOnlyIndex.generation
    exact ⟨h.field VectorOnlyIndex.chunkOwnerById, hgen.symm ▸ hbumped⟩
  obtain ⟨hdone, hstop⟩ := persist_ends P format policy ann store
  cases hret : (persistTrace P format policy ann store).2 with
  | ok _ =>
    cases hdone hret with
    | nothing _ hfinal =>
      rw [hfinal]
      exact ⟨rfl, le_refl _⟩
    | base _ _ h _ _ _ hindex => exact hindex ▸ hflush _ h
    | watermark _ _ _ _ _ hindex => exact hindex ▸ ⟨rfl, hbumped⟩
    | delta _ _ _ h _ _ _ hindex => exact hindex ▸ hflush _ h
  | error error =>
    cases hstop error hret with
    | flushing h => exact hflush _ h
    | appending _ _ h _ _ hindex => exact hindex ▸ hflush _ h

end Persist

section Machine

variable (P format) (creation : Creation)

/-- The actions of a writer that stays open: calls whose plans repeat no document or chunk, and persists. -/
def Action.InCycles (ids : Set String) : Action → Prop
  | .call _ made => made.Distinct ids
  | .persist _ _ | .compact | .noteApplied _ | .openReader => True
  | .failedPersist _ _ _ | .crash _ _ _ | .reopen _ => False

/-- Before every delta that appends rows, the vector journal on disk is the one the root records. -/
def Machine.RowsInSync (ids : Set String) (machine : Machine) (action : Action) : Prop :=
  action.InCycles ids ∧ ∀ policy ann session root, action = .persist policy ann →
    machine.session = some session → machine.disk.root = some root →
    needsBase P policy ⟨machine.disk, session.index⟩ = false → AppendsRows P session.index →
    InSync machine.disk root .tvim

/-- The live rows when a persist that returns is made. -/
def Machine.persistedRows (machine : Machine) : Action → Option Rows
  | .persist policy ann => machine.session.bind fun session =>
    match (persistTrace P format policy ann ⟨machine.disk, session.index⟩).2 with
    | .ok _ => some session.index.liveRows
    | .error _ => none
  | _ => none

/-- The live rows at the last persist of a run that returned, if there is one. -/
def lastPersistedRows (machine : Machine) (rows : Option Rows) : List Action → Option Rows
  | [] => rows
  | action :: rest =>
    match machine.step P format creation action with
    | none => rows
    | some next => lastPersistedRows next ((machine.persistedRows P format action).or rows) rest

variable {P format creation} {ids : Set String}

/-- What a run keeps. -/
structure MachineRows (P : Primitives) (format : Format) (ids : Set String) (machine : Machine)
    (rows : Option Rows) : Prop where
  session : ∃ session, machine.session = some session ∧
    RowsCommitted P format machine.disk session.index rows ∧ Followed P ids (rows.getD ∅) session.index ∧
    ∀ plan ∈ session.plans, PlanReuses session.index plan

/-- An action that leaves the owners, the rows and the directory alone. -/
theorem MachineRows.withIndex {rows : Option Rows} {index : VectorOnlyIndex}
    (hcommitted : RowsCommitted P format disk session.index rows)
    (hplans : ∀ plan ∈ session.plans, PlanReuses session.index plan)
    (hindex : Followed P ids (rows.getD ∅) index) (hepoch : index.baseEpoch = session.index.baseEpoch)
    (hfp : index.baseCalibrationFingerprint = session.index.baseCalibrationFingerprint)
    (howner : index.chunkOwnerById = session.index.chunkOwnerById)
    (hgen : session.index.generation ≤ index.generation) :
    MachineRows P format ids ⟨disk, some (session.withIndex index)⟩ rows := by
  refine ⟨_, rfl, hcommitted.congr (.refl _) hepoch hfp, hindex, ?_⟩
  exact fun plan hplan => (hplans plan hplan).grow hgen fun _ => howner

/-- Opening the sidecar's reader touches nothing else. -/
theorem ensureTvvfReader_cases (format : Format) (disk : Disk) (index : VectorOnlyIndex) :
    ∃ reader unavailable, ensureTvvfReader format disk index =
      { index with tvvfReader := reader, tvvfSidecarUnavailable := unavailable } := by
  unfold ensureTvvfReader
  split
  · exact ⟨_, _, rfl⟩
  · split
    · exact ⟨_, _, rfl⟩
    · split <;> exact ⟨_, _, rfl⟩

/-- A persist. -/
theorem MachineRows.persist {machine : Machine} {rows : Option Rows} (hsess : machine.session = some session)
    (hcommitted : RowsCommitted P format machine.disk session.index rows)
    (hfol : Followed P ids (rows.getD ∅) session.index)
    (hplans : ∀ plan ∈ session.plans, PlanReuses session.index plan) (hstable : StableOn P ids)
    {policy : TextPolicy} {ann : Option (List (List String))}
    (hcond : machine.RowsInSync P ids (.persist policy ann)) :
    MachineRows P format ids
      (Machine.atStore session (persisted P format policy ann ⟨machine.disk, session.index⟩))
      ((machine.persistedRows P format (.persist policy ann)).or rows) := by
  obtain ⟨howner, hgen⟩ :
      (persisted P format policy ann ⟨machine.disk, session.index⟩).index.chunkOwnerById =
          session.index.chunkOwnerById ∧
        session.index.generation ≤ (persisted P format policy ann ⟨machine.disk, session.index⟩).index.generation :=
    persisted_plans policy ann _
  have hsync : needsBase P policy ⟨machine.disk, session.index⟩ = false → AppendsRows P session.index → ∀ root,
      machine.disk.root = some root → InSync machine.disk root .tvim :=
    fun hbase hrows root hroot => hcond.2 policy ann session root rfl hsess hroot hbase hrows
  have hreuses : ∀ plan ∈ session.plans,
      PlanReuses (persisted P format policy ann ⟨machine.disk, session.index⟩).index plan :=
    fun plan hplan => (hplans plan hplan).grow hgen fun _ => howner
  obtain ⟨hdone, hstop⟩ := persist_ends P format policy ann ⟨machine.disk, session.index⟩
  cases hret : (persistTrace P format policy ann ⟨machine.disk, session.index⟩).2 with
  | ok value =>
    have hrows : machine.persistedRows P format (.persist policy ann) = some session.index.liveRows := by
      simp only [Machine.persistedRows, hsess, Option.bind_some, hret]
    obtain ⟨hnext, hfollows⟩ := hcommitted.done hfol hstable hsync (hdone hret)
    rw [hrows]
    exact ⟨_, rfl, hnext, hfollows, hreuses⟩
  | error error =>
    have hrows : machine.persistedRows P format (.persist policy ann) = none := by
      simp only [Machine.persistedRows, hsess, Option.bind_some, hret]
    obtain ⟨hnext, hfollows⟩ := hcommitted.stopped hfol hsync (hstop error hret)
    rw [hrows]
    exact ⟨_, rfl, hnext, hfollows, hreuses⟩

/-- One action. -/
theorem MachineRows.step {machine next : Machine} {rows : Option Rows} {action : Action}
    (h : MachineRows P format ids machine rows) (hstable : StableOn P ids) (hholds : machine.Holds action)
    (hcond : machine.RowsInSync P ids action) (hnext : machine.step P format creation action = some next) :
    MachineRows P format ids next ((machine.persistedRows P format action).or rows) := by
  obtain ⟨session, hsess, hcommitted, hfol, hplans⟩ := h.session
  have hact : Machine.act P format machine.disk session action = some next := by
    simpa only [Machine.step, hsess] using hnext
  cases action with
  | call policy call =>
    cases hact
    have hcalled : Followed P ids (rows.getD ∅) (session.call P policy call).1.index ∧
        ∀ plan ∈ (session.call P policy call).1.plans, PlanReuses (session.call P policy call).1.index plan :=
      Session.call_follows hstable hfol hplans call (hholds session hsess) hcond.1
    have hbook : (session.call P policy call).1.index.bookkeeping = session.index.bookkeeping :=
      Session.call_bookkeeping session call
    exact ⟨_, rfl, hcommitted.congr (.refl _) (congrArg VectorOnlyIndex.Bookkeeping.baseEpoch hbook)
      (congrArg VectorOnlyIndex.Bookkeeping.baseCalibrationFingerprint hbook), hcalled⟩
  | compact =>
    cases hact
    exact .withIndex hcommitted hplans (hfol.of_core rfl) rfl rfl rfl (le_refl _)
  | noteApplied lsn =>
    cases hact
    exact .withIndex hcommitted hplans (hfol.of_core rfl) rfl rfl rfl (le_max_left _ _)
  | openReader =>
    cases hact
    obtain ⟨reader, unavailable, hreader⟩ := ensureTvvfReader_cases format machine.disk session.index
    rw [hreader]
    exact .withIndex hcommitted hplans (hfol.of_core rfl) rfl rfl rfl (le_refl _)
  | persist policy ann =>
    cases hact
    exact .persist hsess hcommitted hfol hplans hstable hcond
  | failedPersist policy ann steps => exact hcond.1.elim
  | crash policy ann steps => exact hcond.1.elim
  | reopen chunkCharacterLimit => exact hcond.1.elim

/-- A run. -/
theorem MachineRows.run {start last : Machine} {actions : List Action} {rows : Option Rows}
    (hrun : MachineRun P format creation (Machine.RowsInSync P ids) start actions last)
    (h : MachineRows P format ids start rows) (hstable : StableOn P ids) :
    MachineRows P format ids last (lastPersistedRows P format creation start rows actions) := by
  induction hrun generalizing rows with
  | done => exact h
  | step hholds hcond hnext _ ih =>
    rw [lastPersistedRows, hnext]
    exact ih (h.step hstable hholds hcond hnext)

/-- **In every run of calls and persists in which the vector journal is in step with the root before every
delta that appends rows, a strict replay of the committed vector store is never rejected and gives exactly the live rows at
the last persist that returned.** -/
theorem replayedRows_of_run (hstable : StableOn P ids) {actions : List Action} {last : Machine}
    (hrun : MachineRun P format creation (Machine.RowsInSync P ids) (Machine.fresh creation) actions last) :
    last.disk.root.map (replayedRows P format last.disk) =
      (lastPersistedRows P format creation (Machine.fresh creation) none actions).map .ok := by
  have hfresh : MachineRows P format ids (Machine.fresh creation) none :=
    ⟨_, rfl, .never rfl rfl, followed_new _ _ _, by simp [Session.fresh]⟩
  obtain ⟨session, -, hcommitted, -, -⟩ := (hfresh.run hrun hstable).session
  exact hcommitted.replayed

end Machine

/-- The ids of the documents below. -/
def sampleIds : Set String := { documentId | documentId ∈ ["a", "b", "c", "d", "e", "f"] }

theorem stableOn_sampleIds : StableOn .sample sampleIds := by
  refine ⟨?_, ?_⟩
  · have hdist : ∀ a ∈ ["a", "b", "c", "d", "e", "f"], ∀ b ∈ ["a", "b", "c", "d", "e", "f"],
        stableUint64ForText .sample a = stableUint64ForText .sample b → a = b := by decide
    exact hdist
  · have hnonzero : ∀ a ∈ ["a", "b", "c", "d", "e", "f"], stableUint64ForText .sample a ≠ 0 := by decide
    exact hnonzero

/-- A call of a writer that retains neither text nor tokens. -/
def calling (call : Call) : Action := .call ⟨false, false⟩ call

/-- A persist of such a writer. -/
def persisting : Action := .persist ⟨false, false⟩ none

/-- A machine after one more action. -/
def Machine.next (machine : Machine) (action : Action) : Machine :=
  (machine.step .sample .sample ⟨8, none, false⟩ action).getD machine

section Sample

variable {condition : Machine → Action → Prop} {machine : Machine} {actions : List Action}

/-- What an open machine can do without a plan and stay open. -/
def Action.Plain : Action → Prop
  | .call _ (.applyTextUpsert _ _) | .crash _ _ _ | .reopen _ => False
  | _ => True

/-- A condition holds at each of some actions. -/
def Along (condition : Machine → Action → Prop) : Machine → List Action → Prop
  | _, [] => True
  | machine, action :: rest => condition machine action ∧ Along condition (machine.next action) rest

/-- An open machine runs through plain actions. -/
theorem machineRun_foldl_next (hopen : machine.session.isSome = true) (hplain : ∀ action ∈ actions, action.Plain)
    (hcond : Along condition machine actions) :
    MachineRun .sample .sample ⟨8, none, false⟩ condition machine actions (actions.foldl Machine.next machine) := by
  induction actions generalizing machine with
  | nil => exact .done _
  | cons action rest ih =>
    obtain ⟨hfirst, hrest⟩ := List.forall_mem_cons.mp hplain
    obtain ⟨session, hsess⟩ := Option.isSome_iff_exists.mp hopen
    obtain ⟨next, hnext, hstays⟩ : ∃ next, machine.step .sample .sample ⟨8, none, false⟩ action = some next ∧
        next.session.isSome = true := by
      simp only [Machine.step, hsess]
      cases action <;> first | exact ⟨_, rfl, rfl⟩ | exact hfirst.elim
    obtain rfl : machine.next action = next := by rw [Machine.next, hnext, Option.getD_some]
    refine .step ?_ hcond.1 hnext (ih hstays hrest hcond.2)
    cases action with
    | call policy call =>
      intro session _
      cases call <;> trivial
    | _ => trivial

end Sample

/-- Four documents are put and persisted. -/
def fourPersisted : List Action :=
  [calling (.upsertVectors [zeroDocument "a", zeroDocument "b", zeroDocument "c", zeroDocument "d"]), persisting]

/-- A persist stops at a patch matrix, which the base has no store for, and its document is deleted. -/
def patchWithdrawn : List Action :=
  [calling (.upsertVectors [{ zeroDocument "e" with patchMatrix := some ⟨"f32", 1, [0]⟩ }]), persisting,
    calling (.deleteDocuments ["e"])]

/-- Whether a persist meets the condition can be decided. -/
theorem rowsInSync_persisting {machine : Machine}
    (h : ∀ session ∈ machine.session, ∀ root ∈ machine.disk.root,
      (buildTvimDelta .sample session.index).toOption.all (fun tvim => (tvimSegment tvim).isNone) = true ∨
        ((machine.disk.stores .tvim).manifest root.baseEpoch : Option (Manifest UInt64)) = root.manifests .tvim) :
    machine.RowsInSync .sample sampleIds persisting := by
  refine ⟨trivial, fun policy ann session root _ hsession hroot _ ⟨tvim, htvim, hsegment⟩ => ?_⟩
  refine (h session hsession root hroot).resolve_left fun hnone => hsegment ?_
  simpa [htvim, Except.toOption] using hnone

/-- A delta with a row put and one removed, a persist that stops, and a delta without rows. -/
theorem replayedRows_of_run_withdrawn :
    let actions := fourPersisted ++ [calling (.deleteDocuments ["a"]), calling (.upsertVectors [zeroDocument "f"]),
      persisting] ++ patchWithdrawn ++ [persisting]
    let last := actions.foldl Machine.next (.fresh ⟨8, none, false⟩)
    let rows := lastPersistedRows .sample .sample ⟨8, none, false⟩ (.fresh ⟨8, none, false⟩) none actions
    rows.map (·.size) = some 4 ∧ last.disk.root.map (replayedRows .sample .sample last.disk) = rows.map .ok := by
  intro actions last rows
  have hput (machine : Machine) (documents : List CoreVectorDocument) (hwithin : ∀ document ∈ documents,
      document.documentId ∈ sampleIds) : machine.RowsInSync .sample sampleIds (calling (.upsertVectors documents)) :=
    ⟨hwithin, fun _ _ _ _ haction => by cases haction⟩
  have hdeleted (machine : Machine) (documentIds : List String) :
      machine.RowsInSync .sample sampleIds (calling (.deleteDocuments documentIds)) :=
    ⟨trivial, fun _ _ _ _ haction => by cases haction⟩
  have halong : Along (Machine.RowsInSync .sample sampleIds) (.fresh ⟨8, none, false⟩) actions := by
    refine ⟨hput _ _ (by simp [sampleIds, zeroDocument]), rowsInSync_persisting (by decide +kernel), hdeleted _ _,
      hput _ _ (by simp [sampleIds, zeroDocument]), rowsInSync_persisting (by decide +kernel),
      hput _ _ (by simp [sampleIds, zeroDocument]), rowsInSync_persisting (by decide +kernel), hdeleted _ _,
      rowsInSync_persisting (by decide +kernel), trivial⟩
  have hrun := machineRun_foldl_next rfl (by simp [actions, fourPersisted, patchWithdrawn, calling, persisting, Action.Plain])
    halong
  exact ⟨by decide +kernel, replayedRows_of_run stableOn_sampleIds hrun⟩

/-- A delta with a row behind the persist that stopped. -/
def patchReplaced : List Action :=
  fourPersisted ++ patchWithdrawn ++ [calling (.upsertVectors [zeroDocument "f"]), persisting]

/-- A persist that fails at the patch matrices has already extended the vector journal. The next delta
goes after the segment it left, and the replay ends with one row too many. -/
theorem exists_run_replay_rejected :
    ¬ ∀ (P : Primitives) (format : Format) (creation : Creation) (ids : Set String) (actions : List Action)
      (last : Machine), StableOn P ids →
      MachineRun P format creation (fun _ action => action.InCycles ids) (.fresh creation) actions last →
      last.disk.root.map (replayedRows P format last.disk) =
        (lastPersistedRows P format creation (.fresh creation) none actions).map .ok := by
  intro hclaim
  have hrejected : ((patchReplaced.foldl Machine.next (.fresh ⟨8, none, false⟩)).disk.root.any fun root =>
      (replayedRows .sample .sample (patchReplaced.foldl Machine.next (.fresh ⟨8, none, false⟩)).disk
        root).toOption.isNone) = true := by decide +kernel
  have hcycles : Along (fun _ action => action.InCycles sampleIds) (.fresh ⟨8, none, false⟩) patchReplaced := by
    simp [patchReplaced, fourPersisted, patchWithdrawn, Along, calling, persisting, Action.InCycles, Call.Distinct, sampleIds,
      zeroDocument]
  have hrun := machineRun_foldl_next rfl
    (by simp [patchReplaced, fourPersisted, patchWithdrawn, calling, persisting, Action.Plain]) hcycles
  have hsame := hclaim .sample .sample ⟨8, none, false⟩ sampleIds _ _ stableOn_sampleIds hrun
  obtain ⟨root, hroot, hnone⟩ := (Option.any_eq_true _ _).mp hrejected
  rw [hroot, Option.map_some] at hsame
  obtain ⟨rows, -, hok⟩ := Option.map_eq_some_iff.mp hsame.symm
  rw [← hok] at hnone
  cases hnone

end LodeDB.Engine
