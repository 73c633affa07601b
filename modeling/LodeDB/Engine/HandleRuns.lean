import LodeDB.Engine.Caches
import LodeDB.Engine.Landing

/-!
# Runs of calls on a handle

A run starts on a fresh index or on one opened from a committed store. As long as no applied plan lists a
chunk to embed twice, every index it reaches is serviceable, so that a failed call leaves the whole handle
as it was.
-/

namespace LodeDB.Engine

open ExceptRules TreeMapRules
open LodeDB.Storage (Disk Format)

variable {N : Type*} [LinearOrder N] {asNumber : String → Option N} {P : Primitives} {policy : TextPolicy}

variable {documents : Documents} {loaded : LodeDB.Storage.LoadedStore}

/-- The handles a run starts on: over a fresh index, or over one just opened. -/
inductive Handle.Starts (P : Primitives) : Handle N → Prop
  | fresh (vectorDim : ℕ) (rescoreDtype : Option TvvfDtype) (annConfigured : Bool) :
      Starts P (Handle.fresh vectorDim rescoreDtype annConfigured)
  | opened {format : Format} {disk : Disk} {chunkCharacterLimit : ℕ} {index : VectorOnlyIndex}
      (hopened : openStore P format disk chunkCharacterLimit = .ok (some index)) : Starts P (Handle.opened index)

section Opened

variable {format : Format} {disk : Disk} {chunkCharacterLimit : ℕ} {index : VectorOnlyIndex}

/-- The owner map of a loaded index names documents that list the chunk. -/
theorem hasChunk_of_chunkDocumentIds {chunkId documentId : String}
    (h : (writeAll (∅ : Std.ExtTreeMap String String compare) (chunkDocumentIds documents))[chunkId]? =
      some documentId) : HasChunk documents documentId chunkId := by
  rcases mem_or_of_getElem?_writeAll h with hmem | hnone
  · obtain ⟨entry, hentry, hchunk⟩ := List.mem_flatMap.mp hmem
    obtain ⟨listed, hlist, heq⟩ := List.mem_map.mp hchunk
    cases heq
    exact ⟨entry.2, Std.ExtTreeMap.mem_toList_iff_getElem?_eq_some.mp hentry, hlist⟩
  · simp at hnone

/-- A loaded live index has the dimension of the store. -/
theorem loadWithManifestIds_dim {baseEpoch expectedDim : ℕ} {manifest : Journal.Manifest UInt64}
    {chunkDocumentIds : List (String × String)} {live : TurboVecNativeIndex}
    (h : TurboVecNativeIndex.loadWithManifestIds P format disk baseEpoch manifest chunkDocumentIds expectedDim =
      .ok live) : live.dim = expectedDim := by
  simp only [TurboVecNativeIndex.loadWithManifestIds, bind_eq_ok, ensure_eq_ok, pure,
    Except.pure, Except.ok.injEq] at h
  obtain ⟨base, -, -, -, -, hdim, -, -, -, -, rfl⟩ := h
  exact hdim

/-- The live index of a store: none without vectors, else of the store's dimension. -/
theorem loadVectorIndex_cases {vectorsSeeded : Bool} {vectorIndex : Option TurboVecNativeIndex}
    (h : loadVectorIndex P format disk loaded documents vectorsSeeded = .ok vectorIndex) :
    (∀ live, vectorIndex = some live → live.dim = loaded.state.header.nativeDim) ∧
      (vectorIndex = none → loaded.tvimManifest = none ∨ vectorsSeeded = false) := by
  rw [loadVectorIndex] at h
  rcases Option.eq_none_or_eq_some loaded.tvimManifest with hnone | ⟨manifest, hman⟩
  · rw [hnone] at h
    cases Except.ok.inj h
    exact ⟨by simp, fun _ => .inl hnone⟩
  · rw [hman] at h
    dsimp only at h
    split at h
    · obtain ⟨live, hlive, rfl⟩ := map_eq_ok.mp h
      refine ⟨?_, by simp⟩
      intro found hfound
      cases Option.some.inj hfound
      exact loadWithManifestIds_dim hlive
    · rename_i hseeded
      cases Except.ok.inj h
      exact ⟨by simp, fun _ => .inr (by simpa using hseeded)⟩

/-- Vectors are read back exactly when the store has some. -/
theorem reconstructTvimVectors_isSome {vectorDim : ℕ} {vectors : Option ChunkVectors}
    (h : reconstructTvimVectors P format disk loaded vectorDim = .ok vectors) :
    vectors.isSome = loaded.tvimManifest.isSome := by
  rw [reconstructTvimVectors] at h
  rcases Option.eq_none_or_eq_some loaded.tvimManifest with hnone | ⟨manifest, hman⟩
  · rw [hnone] at h
    cases Except.ok.inj h
    rw [hnone]
    rfl
  · rw [hman] at h
    dsimp only at h
    rw [hman]
    split at h
    · cases Except.ok.inj h
      rfl
    · simp only [bind_eq_ok, pure, Except.pure, Except.ok.injEq] at h
      obtain ⟨-, -, -, -, -, -, rfl⟩ := h
      rfl

/-- Without a live index no vector was read back: every chunk has zeros. -/
theorem serviceable_loadedIndex (h : indexFromLoadedStore P format disk loaded chunkCharacterLimit = .ok index) :
    Serviceable index := by
  simp only [indexFromLoadedStore, bind_eq_ok, pure, Except.pure, Except.ok.injEq] at h
  obtain ⟨-, -, vectors, hvecs, vectorIndex, hlive, rfl⟩ := h
  obtain ⟨hdim, hunbuilt⟩ := loadVectorIndex_cases hlive
  refine ⟨rfl, ?_, hdim, fun chunkId documentId => hasChunk_of_chunkDocumentIds⟩
  intro hnone documentId record hrec chunk hchunk
  have hunread : vectors = none := by
    have hread := reconstructTvimVectors_isSome hvecs
    rcases hunbuilt hnone with hman | hunseeded
    · rwa [hman, Option.isSome_none, Option.isSome_eq_false_iff, Option.isNone_iff_eq_none] at hread
    · rw [Bool.or_eq_false_iff] at hunseeded
      exact Option.not_isSome_iff_eq_none.mp (by rw [hunseeded.2]; simp)
  have hload : (loadedDocuments P loaded (vectors.getD ∅) chunkCharacterLimit)[documentId]? = some record := hrec
  rw [loadedDocuments, Std.ExtTreeMap.getElem?_map', Option.pmap_eq_some_iff] at hload
  obtain ⟨contentHash, hpres, -, rfl⟩ := hload
  obtain ⟨chunkId, -, rfl⟩ := List.mem_map.mp hchunk
  have hzero : (vectors.getD ∅)[chunkId]? = none := by
    rw [hunread]
    exact Std.ExtTreeMap.getElem?_empty
  rw [hzero, Option.getD_none]
  refine ⟨List.length_replicate, List.all_eq_true.mpr fun coordinate hcoordinate => ?_⟩
  rw [List.eq_of_mem_replicate hcoordinate]
  decide

/-- An index just opened: its owner map is in document order and nothing is built. -/
theorem openStore_eq_ok (h : openStore P format disk chunkCharacterLimit = .ok (some index)) :
    Serviceable index ∧ index.fieldIndexes = none ∧
      index.chunkOwnerById = writeAll ∅ (chunkDocumentIds index.documents) := by
  rw [openStore] at h
  split at h
  · cases h
  · obtain ⟨loaded, -, hindex⟩ := bind_eq_ok.mp h
    obtain ⟨found, hload, heq⟩ := map_eq_ok.mp hindex
    cases Option.some.inj heq
    refine ⟨serviceable_loadedIndex hload, ?_⟩
    simp only [indexFromLoadedStore, bind_eq_ok, pure, Except.pure, Except.ok.injEq] at hload
    obtain ⟨-, -, -, -, -, -, rfl⟩ := hload
    exact ⟨rfl, rfl⟩

end Opened

/-- The calls that land: a plan that passes its checks embeds no chunk id twice, unless its first document does, and
the chunks fit the id space. -/
def Call.EmbedsOnce (index : VectorOnlyIndex) : Call → Prop
  | .upsertVectors documents => index.chunkCount + documents.length < 2 ^ 64
  | .applyTextUpsert plan embeddings => (checkPlan index plan embeddings = .ok () → DrawsOnce plan) ∧
      index.chunkCount + (plannedChunkIds plan.documents).length < 2 ^ 64
  | _ => True

/-- Reads always land. -/
def HandleCall.EmbedsOnce (index : VectorOnlyIndex) : HandleCall → Prop
  | .mutate call => call.EmbedsOnce index
  | _ => True

/-- A handle whose index is serviceable and whose plans were made against it. -/
structure Session.Ready (P : Primitives) (session : Session) : Prop where
  serviceable : Serviceable session.index
  plans : ∀ plan ∈ session.plans, PlanMade P session.index plan

variable {handle : Handle N}

omit [LinearOrder N] in
theorem Handle.Starts.ready (h : handle.Starts P) : handle.session.Ready P := by
  cases h with
  | fresh vectorDim rescoreDtype annConfigured =>
    exact ⟨serviceable_new vectorDim rescoreDtype annConfigured, by simp [Handle.fresh, Session.fresh]⟩
  | opened hopened =>
    exact ⟨(openStore_eq_ok hopened).1, by simp [Handle.opened]⟩

section Call

variable {session : Session} {call : Call}

/-- A mutation that lands keeps a session ready, and leaves it alone if it fails. -/
theorem Session.Ready.mutated (h : session.Ready P) {outcome : Outcome}
    (hlands : Lands Serviceable session.index outcome) :
    (session.mutated outcome).1.Ready P ∧
      ∀ error, (session.mutated outcome).2 = .error error → (session.mutated outcome).1 = session := by
  refine ⟨⟨hlands.keeps, fun plan hplan => (h.plans plan hplan).advances hlands.advances⟩, ?_⟩
  intro error herror
  cases hret : outcome.returned with
  | ok mutated =>
    simp only [Session.mutated, hret] at herror
    cases herror
  | error failure =>
    have hsame := hlands.failed failure hret
    simp only [Session.mutated, hsame]

/-- One call. -/
theorem Session.Ready.step (h : session.Ready P) (hholds : session.Holds call) (honce : call.EmbedsOnce session.index) :
    (session.call P policy call).1.Ready P ∧
      ∀ error, (session.call P policy call).2 = .error error → (session.call P policy call).1 = session := by
  cases call with
  | upsertVectors documents => exact h.mutated (h.serviceable.upsertVectors honce)
  | deleteDocuments documentIds => exact h.mutated (h.serviceable.deleteDocuments documentIds)
  | updateDocumentPayload documentId metadata text => exact h.mutated h.serviceable.updateDocumentPayload
  | prepareTextUpsert documents planPolicy chunkCharacterLimit =>
    simp only [Session.call]
    split
    · exact ⟨h, fun _ _ => rfl⟩
    · rename_i plan hplan
      refine ⟨⟨h.serviceable, fun held hheld => ?_⟩, fun error herror => by cases herror⟩
      rcases List.mem_cons.mp hheld with rfl | hheld
      · exact planMade_prepareTextUpsert hplan
      · exact h.plans held hheld
  | applyTextUpsert plan embeddings =>
    exact h.mutated (h.serviceable.applyTextUpsert (h.plans plan hholds) honce.1 honce.2)

omit [LinearOrder N] in
/-- A call that fails leaves the caches alone. -/
theorem Session.Ready.caches_failed (h : session.Ready P) (hholds : session.Holds call)
    (honce : call.EmbedsOnce session.index) (caches : Caches N) {error : CoreError}
    (herror : (session.call P policy call).2 = .error error) : caches.call P policy session.index call = caches := by
  cases call with
  | upsertVectors documents =>
    change cachedUpsertVectors P policy session.index documents caches = caches
    cases hchk : (do
        session.index.requireVectorsMutable
        documents.forM (checkVectorDocument session.index.vectorDim)) with
    | error failure => rw [cachedUpsertVectors, hchk]
    | ok checked =>
      obtain ⟨-, -, hdocs⟩ := bind_eq_ok.mp hchk
      have hloop : VectorService session.index documents.length (upsertVectorLoop P policy session.index documents) :=
        vectorService_upsertVectorLoop h.serviceable fun document hmem =>
          (forM_checkVectorDocument_eq_ok.mp hdocs document hmem).2
      obtain ⟨synced, hsync, -⟩ := hloop.sync (P := P) honce
      obtain ⟨mutated, hout⟩ := upsertVectors_ok hchk hsync
      simp only [Session.call, Session.mutated, hout] at herror
      cases herror
  | deleteDocuments documentIds =>
    change cachedDeleteDocuments session.index documentIds caches = caches
    cases hchk : (do session.index.requireVectorsMutable; documentIds.forM checkDocumentId) with
    | error failure => rw [cachedDeleteDocuments, hchk]
    | ok checked =>
      simp only [Session.call, Session.mutated, deleteDocuments, hchk] at herror
      cases herror
  | updateDocumentPayload documentId metadata text =>
    change cachedUpdateDocumentPayload P policy session.index documentId metadata text caches = caches
    cases hmutable : session.index.requireVectorsMutable with
    | error failure => rw [cachedUpdateDocumentPayload, hmutable]
    | ok checked =>
      rcases Option.eq_none_or_eq_some session.index.documents[documentId]? with hnone | ⟨record, hrec⟩
      · simp only [cachedUpdateDocumentPayload, hmutable, hnone]
      · simp only [Session.call, Session.mutated, updateDocumentPayload, hmutable, hrec] at herror
        cases herror
  | prepareTextUpsert documents planPolicy chunkCharacterLimit => rfl
  | applyTextUpsert plan embeddings =>
    change cachedApplyTextUpsert P session.index plan embeddings caches = caches
    cases hchk : checkPlan session.index plan embeddings with
    | error failure => rw [cachedApplyTextUpsert, hchk]
    | ok checked =>
      have hmade := h.plans plan hholds
      obtain ⟨-, hgen, hcount, -⟩ := checkPlan_eq_ok.mp hchk
      rcases honce.1 hchk with hnodup | ⟨first, rest, hplan, hrep⟩
      · obtain ⟨batch, synced, hbatch, hsync, -⟩ := h.serviceable.applyLoop hmade hnodup honce.2 hchk
        obtain ⟨mutated, hout⟩ := applyTextUpsert_ok hchk hbatch hsync
        simp only [Session.call, Session.mutated, hout] at herror
        cases herror
      · obtain ⟨failure, hstuck⟩ := applyPlanDocument_first_stuck h.serviceable hmade hgen hcount hplan hrep
        have hloop : cachedApplyPlanDocuments P plan (existingVectors session.index plan embeddings) plan.documents
            (TextBatch.initial session.index plan embeddings) caches =
            (TextBatch.initial session.index plan embeddings, caches) := by
          rw [hplan, cachedApplyPlanDocuments, hstuck]
        rw [cachedApplyTextUpsert, hchk]
        exact congrArg Prod.snd hloop

end Call

/-- One call keeps a handle ready. -/
theorem Handle.call_ready {call : HandleCall} (h : handle.session.Ready P) (hholds : handle.Holds call)
    (honce : call.EmbedsOnce handle.session.index) : (handle.call asNumber P policy call).session.Ready P := by
  cases call with
  | mutate call => exact (h.step hholds honce).1
  | filteredRead orderedFields =>
    refine ⟨h.serviceable.of_core rfl, fun plan hplan => ?_⟩
    have hmade := h.plans plan hplan
    exact ⟨hmade.toEmbed, hmade.chunkOf, hmade.notAhead, hmade.decided⟩
  | lexicalRead => exact h

/-- Every handle of a run is ready, if its calls land. -/
theorem HandleRun.ready {condition : VectorOnlyIndex → HandleCall → Prop}
    (hcond : ∀ index call, condition index call → call.EmbedsOnce index) {last : Handle N}
    {calls : List HandleCall} (hrun : HandleRun asNumber P policy condition handle calls last)
    (h : handle.session.Ready P) : last.session.Ready P := by
  induction hrun with
  | done handle => exact h
  | step hholds honce _ ih => exact ih (Handle.call_ready h hholds (hcond _ _ honce))

/-- In every run whose calls all land, a further call that lands and fails leaves the handle as it was: documents,
indexes and live rows, pending sets, generation, plans and kept partitions. -/
theorem failed_call_unchanged {start handle : Handle N} {calls : List HandleCall} (hstarts : start.Starts P)
    (hrun : HandleRun asNumber P policy (fun index call => call.EmbedsOnce index) start calls handle)
    {call : Call} (hholds : handle.session.Holds call) (honce : call.EmbedsOnce handle.session.index)
    {error : CoreError} (herror : (handle.session.call P policy call).2 = .error error) :
    handle.call asNumber P policy (.mutate call) = handle := by
  have hready := hrun.ready (fun _ _ honce => honce) hstarts.ready
  have hsession := (hready.step hholds honce).2 error herror
  have hcaches := hready.caches_failed hholds honce handle.caches herror
  rw [Handle.call, hsession, hcaches]

/-- A handle over an index with one document. -/
def oneDocumentHandle : Handle ℕ :=
  (Handle.fresh 8 none).call String.toNat? .sample ⟨true, true⟩ (.mutate (.upsertVectors [zeroDocument "b"]))

/-- An upsert whose second vector is too short fails and leaves the handle as it was. -/
theorem failed_call_unchanged_short :
    oneDocumentHandle.call String.toNat? .sample ⟨true, true⟩
      (.mutate (.upsertVectors [zeroDocument "a", ⟨"c", [0], ∅, none, none⟩])) = oneDocumentHandle := by
  have hfirst : (HandleCall.mutate (.upsertVectors [zeroDocument "b"])).EmbedsOnce
      (Handle.fresh 8 none : Handle ℕ).session.index := by
    change VectorOnlyIndex.chunkCount (VectorOnlyIndex.new 8 none) + 1 < 2 ^ 64
    decide +kernel
  have hsecond : (Call.upsertVectors [zeroDocument "a", ⟨"c", [0], ∅, none, none⟩]).EmbedsOnce
      oneDocumentHandle.session.index := by
    change oneDocumentHandle.session.index.chunkCount + 2 < 2 ^ 64
    decide +kernel
  have hrun : HandleRun String.toNat? .sample ⟨true, true⟩ (fun index call => call.EmbedsOnce index)
      (Handle.fresh 8 none) [.mutate (.upsertVectors [zeroDocument "b"])] oneDocumentHandle :=
    .step trivial hfirst (.done _)
  have herror : (oneDocumentHandle.session.call .sample ⟨true, true⟩ (.upsertVectors
      [zeroDocument "a", ⟨"c", [0], ∅, none, none⟩])).2 =
      .error (invalid "vector dimension does not match index") := rfl
  exact failed_call_unchanged (.fresh 8 none false) hrun trivial hsecond herror

/-- A handle that has planned one text twice under one id. -/
def twiceTextHandle : Handle ℕ :=
  (Handle.fresh 8 none).call String.toNat? .sample ⟨true, true⟩
    (.mutate (.prepareTextUpsert [⟨"a", "x", ∅⟩, ⟨"a", "x", ∅⟩] ⟨true, true⟩ 10))

/-- The plan of the text listed twice. -/
def twiceTextPlan : IngestPlan := lettersPlan 0 [("x", [letterChunk "78" "x"]), ("x", [letterChunk "78" "x"])]

/-- Applying the plan fails at the second listing, with the first document put. -/
theorem twiceTextHandle_apply :
    let applied := twiceTextHandle.session.call .sample ⟨true, true⟩
      (.applyTextUpsert twiceTextPlan [List.replicate 8 0, List.replicate 8 0])
    applied.2 = .error (invalid "ingest plan references a missing reusable chunk") ∧
      applied.1.index.documents.size = 1 ∧ twiceTextHandle.session.index.documents.size = 0 := ⟨rfl, rfl, rfl⟩

/-- One text twice under one id in one batch: the call fails after the first document was put. -/
theorem exists_failed_call_changed :
    ¬ ∀ (P : Primitives) (policy : TextPolicy) (start handle : Handle ℕ) (calls : List HandleCall) (call : Call)
      (error : CoreError), start.Starts P →
      HandleRun String.toNat? P policy (fun _ _ => True) start calls handle → handle.session.Holds call →
      (handle.session.call P policy call).2 = .error error →
      handle.call String.toNat? P policy (.mutate call) = handle := by
  intro hclaim
  obtain ⟨herror, hafter, hbefore⟩ := twiceTextHandle_apply
  have hholds : twiceTextPlan ∈ twiceTextHandle.session.plans := by decide +kernel
  have hrun : HandleRun String.toNat? .sample ⟨true, true⟩ (fun _ _ => True) (Handle.fresh 8 none)
      [.mutate (.prepareTextUpsert [⟨"a", "x", ∅⟩, ⟨"a", "x", ∅⟩] ⟨true, true⟩ 10)] twiceTextHandle :=
    .step trivial trivial (.done _)
  have hsame := hclaim .sample ⟨true, true⟩ _ _ _ (.applyTextUpsert twiceTextPlan [List.replicate 8 0, List.replicate 8 0])
    _ (.fresh 8 none false) hrun hholds herror
  have hsize := congrArg (fun handle : Handle ℕ => handle.session.index.documents.size) hsame
  rw [hbefore] at hsize
  exact absurd (hafter.symm.trans hsize) (by decide)

end LodeDB.Engine
