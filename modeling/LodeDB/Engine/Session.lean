import LodeDB.Engine.Delete
import LodeDB.Engine.Payload
import LodeDB.Engine.TextLoop
import LodeDB.Engine.VectorSound

/-!
# Runs of public mutations

A session is an index together with the ingest plans its caller holds. `Run` is a sequence of
calls each of which meets a condition on the index it is made on.
-/

namespace LodeDB.Engine

open TreeMapRules InverseIndex
open LodeDB.Filter (Metadata)
open Text (stableUint64ForText StableOn)

/-- A public call that may change an index. The caller holds the plans. -/
inductive Call
  | upsertVectors (documents : List CoreVectorDocument)
  | deleteDocuments (documentIds : List String)
  | updateDocumentPayload (documentId : String) (metadata : Option Metadata)
      (text : Option (Option String))
  | prepareTextUpsert (documents : List CoreDocument) (policy : TextPolicy)
      (chunkCharacterLimit : ℕ)
  | applyTextUpsert (plan : IngestPlan) (embeddings : List Embedding)

/-- An index and the plans its caller holds. -/
structure Session where
  index : VectorOnlyIndex
  plans : List IngestPlan

namespace Session

/-- A session over a fresh index. -/
def fresh (vectorDim : ℕ) (rescoreDtype : Option TvvfDtype) (annConfigured : Bool := false) : Session :=
  ⟨VectorOnlyIndex.new vectorDim rescoreDtype annConfigured, []⟩

/-- The session a mutation leaves, and whether it succeeded. -/
def mutated (session : Session) (outcome : Outcome) : Session × Except CoreError Unit :=
  ({ session with index := outcome.index }, outcome.returned.map fun _ => ())

/-- Make one call. -/
def call (P : Primitives) (policy : TextPolicy) (session : Session) : Call → Session × Except CoreError Unit
  | .upsertVectors documents => session.mutated (upsertVectors P policy session.index documents)
  | .deleteDocuments documentIds => session.mutated (deleteDocuments session.index documentIds)
  | .updateDocumentPayload documentId metadata text =>
    session.mutated (updateDocumentPayload P policy session.index documentId metadata text)
  | .prepareTextUpsert documents planPolicy chunkCharacterLimit =>
    match prepareTextUpsert P session.index documents planPolicy chunkCharacterLimit with
    | .error error => (session, .error error)
    | .ok plan => ({ session with plans := plan :: session.plans }, .ok ())
  | .applyTextUpsert plan embeddings =>
    session.mutated (applyTextUpsert P session.index plan embeddings)

/-- A caller applies only plans it holds. -/
def Holds (session : Session) : Call → Prop
  | .applyTextUpsert plan _ => plan ∈ session.plans
  | _ => True

end Session

/-- A run of calls, each of which meets a condition on the index before it. -/
inductive Run (P : Primitives) (policy : TextPolicy) (condition : VectorOnlyIndex → Call → Prop) :
    Session → List Call → Session → Prop
  | done (session : Session) : Run P policy condition session [] session
  | step {session last : Session} {call : Call} {rest : List Call} (hholds : session.Holds call)
      (hcondition : condition session.index call)
      (hrest : Run P policy condition (session.call P policy call).1 rest last) :
      Run P policy condition session (call :: rest) last

/-- The calls that keep an index well indexed. -/
def Call.Fits (P : Primitives) (ids : Set String) (index : VectorOnlyIndex) : Call → Prop
  | .upsertVectors documents => VectorBatchFits P ids index documents
  | .applyTextUpsert plan _ => PlanFits ids index plan
  | _ => True

/-- The live index holds one row for each chunk id of a set, found under it both ways. -/
structure RowPerChunk (live : TurboVecNativeIndex) (owned : Finset String) : Prop where
  row : ∀ chunkId ∈ owned, ∃ stableId ∈ keySet live.index.rows,
    live.stableIdByChunkId[chunkId]? = some stableId ∧ live.chunkIdsByStableId[stableId]? = some chunkId
  noOther : ∀ stableId ∈ keySet live.index.rows, ∃ chunkId ∈ owned, live.stableIdByChunkId[chunkId]? = some stableId
  count : live.index.rows.size = owned.card

/-- The four structures of an index agree: every chunk id is listed once, by one document; the owner
map is the inverse of the documents' chunk lists; the live index holds one row for each chunk id and
no other row, and is there as soon as there is a document; the document-id set is the key set. -/
structure WellIndexed (index : VectorOnlyIndex) : Prop where
  listedOnce : ∀ documentId, (chunkIdsOf index.documents documentId).Nodup
  oneDocument : ∀ chunkId left right, HasChunk index.documents left chunkId →
    HasChunk index.documents right chunkId → left = right
  owner : ∀ chunkId documentId, index.chunkOwnerById[chunkId]? = some documentId ↔
    HasChunk index.documents documentId chunkId
  live : index.vectorIndex = none → index.documents = ∅
  rows : ∀ live, index.vectorIndex = some live → RowPerChunk live (ownedChunks index.documents)
  allDocs : index.allDocs = keySet index.documents

variable {P : Primitives} {policy : TextPolicy} {ids : Set String}

/-- Rows under the plain digests of collision-free chunk ids are one for each chunk. -/
theorem Mirrors.rowPerChunk {live : TurboVecNativeIndex} {owned : Finset String}
    (h : Mirrors P live owned) (hstab : StableOn P ids) (hids : ∀ c ∈ owned, c ∈ ids) : RowPerChunk live owned := by
  refine ⟨?_, ?_, ?_⟩
  · intro chunkId howned
    refine ⟨stableUint64ForText P chunkId, ?_, ?_, (h.chunkId _ _).mpr ⟨howned, rfl⟩⟩
    · rw [h.rows]
      exact Finset.mem_image_of_mem _ howned
    · rw [h.stableId, if_pos howned]
  · intro stableId hrow
    rw [h.rows, Finset.mem_image] at hrow
    obtain ⟨chunkId, howned, rfl⟩ := hrow
    exact ⟨chunkId, howned, by rw [h.stableId, if_pos howned]⟩
  · rw [size_eq_card, h.rows]
    exact Finset.card_image_of_injOn fun a ha b hb => hstab.injOn a (hids a ha) b (hids b hb)

theorem Consistent.wellIndexed {index : VectorOnlyIndex} (h : Consistent P ids index)
    (hstab : StableOn P ids) : WellIndexed index where
  listedOnce := h.indexed.nodup
  oneDocument := fun _ _ _ hleft hright => h.indexed.owner.unique hleft hright
  owner := h.indexed.owner
  live := h.unbuilt
  rows := fun live hlive => (h.built live hlive).1.rowPerChunk hstab h.within
  allDocs := h.indexed.allDocs

variable {session : Session}

/-- A call keeps what its mutation keeps, and the plans stay usable. -/
theorem Session.call_lands {Inv : VectorOnlyIndex → Prop} {call : Call} (hindex : Inv session.index)
    (hplans : ∀ plan ∈ session.plans, PlanReuses session.index plan) (hholds : session.Holds call)
    (hvecs : ∀ documents, call = .upsertVectors documents →
      Lands Inv session.index (upsertVectors P policy session.index documents))
    (hdeletes : ∀ documentIds, Lands Inv session.index (deleteDocuments session.index documentIds))
    (hpay : ∀ documentId metadata text,
      Lands Inv session.index (updateDocumentPayload P policy session.index documentId metadata text))
    (htext : ∀ plan embeddings, call = .applyTextUpsert plan embeddings → PlanReuses session.index plan →
      Lands Inv session.index (applyTextUpsert P session.index plan embeddings)) :
    Inv (session.call P policy call).1.index ∧
      ∀ plan ∈ (session.call P policy call).1.plans, PlanReuses (session.call P policy call).1.index plan := by
  have hmutated : ∀ outcome : Outcome, Lands Inv session.index outcome → Inv (session.mutated outcome).1.index ∧
        ∀ plan ∈ (session.mutated outcome).1.plans, PlanReuses (session.mutated outcome).1.index plan :=
    fun outcome h => ⟨h.keeps, fun plan hplan => (hplans plan hplan).advances h.advances⟩
  cases call with
  | upsertVectors documents => exact hmutated _ (hvecs documents rfl)
  | deleteDocuments documentIds => exact hmutated _ (hdeletes documentIds)
  | updateDocumentPayload documentId metadata text => exact hmutated _ (hpay documentId metadata text)
  | prepareTextUpsert documents planPolicy chunkCharacterLimit =>
    simp only [Session.call]
    split
    · exact ⟨hindex, hplans⟩
    · rename_i plan hplan
      refine ⟨hindex, fun held hheld => ?_⟩
      rcases List.mem_cons.mp hheld with rfl | hheld
      · exact planReuses_prepareTextUpsert hplan
      · exact hplans held hheld
  | applyTextUpsert plan embeddings => exact hmutated _ (htext plan embeddings rfl (hplans plan hholds))

/-- One call that fits keeps the invariant and the plans that hold. -/
theorem Session.call_keeps (hstab : StableOn P ids) (hindex : Consistent P ids session.index)
    (hplans : ∀ plan ∈ session.plans, PlanReuses session.index plan) (call : Call) (hholds : session.Holds call)
    (hfits : call.Fits P ids session.index) :
    Consistent P ids (session.call P policy call).1.index ∧
      ∀ plan ∈ (session.call P policy call).1.plans, PlanReuses (session.call P policy call).1.index plan := by
  refine Session.call_lands hindex hplans hholds ?_ (hindex.deleteDocuments hstab)
    (fun _ _ _ => hindex.updateDocumentPayload) ?_
  · rintro documents rfl
    exact hindex.upsertVectors hstab hfits
  · rintro plan embeddings rfl hreuses
    exact hindex.applyTextUpsert hfits hreuses hstab

/-- A run whose calls all fit keeps the invariant. -/
theorem Run.consistent {last : Session} {calls : List Call}
    (hrun : Run P policy (fun index call => call.Fits P ids index) session calls last) (hstab : StableOn P ids)
    (hindex : Consistent P ids session.index) (hplans : ∀ plan ∈ session.plans, PlanReuses session.index plan) :
    Consistent P ids last.index := by
  induction hrun with
  | done session => exact hindex
  | step hholds hfits _ ih =>
    obtain ⟨hnext, hnextPlans⟩ := Session.call_keeps hstab hindex hplans _ hholds hfits
    exact ih hnext hnextPlans

/-- **In every run of public mutations whose calls all fit, every index reached is well indexed.** -/
theorem run_wellIndexed (hstable : StableOn P ids) (vectorDim : ℕ) (rescoreDtype : Option TvvfDtype)
    (annConfigured : Bool) {calls : List Call} {last : Session}
    (hrun : Run P policy (fun index call => call.Fits P ids index)
      (Session.fresh vectorDim rescoreDtype annConfigured) calls last) : WellIndexed last.index :=
  (hrun.consistent hstable (consistent_new vectorDim rescoreDtype annConfigured)
    (by simp [Session.fresh])).wellIndexed hstable

/-- A document with the zero vector of dimension eight. -/
def zeroDocument (documentId : String) : CoreVectorDocument := ⟨documentId, List.replicate 8 0, ∅, none, none⟩

/-- A chunk of one letter in the document `a`, with the digits of its hash. -/
def letterChunk (digits letter : String) (needsEmbedding : Bool := true) : PlanDocumentChunk :=
  ⟨"a:" ++ digits ++ "0000000000:0000", letter, [letter], needsEmbedding⟩

/-- The plan of texts under the id `a` from their chunks. -/
def lettersPlan (generation : ℕ) (texts : List (String × List PlanDocumentChunk)) : IngestPlan :=
  let documents := texts.map fun text => (⟨"a", ∅, some text.1, text.2⟩ : PlanDocument)
  ⟨generation, documents, chunksToEmbed documents, true, true⟩

/-- The ids of three letters' chunks and of a vector document. -/
def letterIds : List String := ["a:780000000000:0000", "a:790000000000:0000", "a:7a0000000000:0000", "b"]

/-- The letters' ids do not collide. -/
theorem stableOn_letterIds : StableOn .sample { chunkId | chunkId ∈ letterIds } :=
  ⟨show ∀ a ∈ letterIds, ∀ b ∈ letterIds, stableUint64ForText .sample a = stableUint64ForText .sample b → a = b by
    decide +kernel, show ∀ a ∈ letterIds, stableUint64ForText .sample a ≠ 0 by decide +kernel⟩

/-- Whether a plan of letters fits can be decided. -/
theorem planFits_letters {index : VectorOnlyIndex} {plan : IngestPlan}
    (h : (∀ document ∈ plan.documents, ∀ chunkId ∈ document.chunkIds, chunkId ∈ letterIds) ∧
      (plan.documents.map (·.documentId)).Nodup ∧ (plan.documents.flatMap (·.chunkIds)).Nodup ∧
      ∀ document ∈ plan.documents, ∀ chunkId ∈ document.chunkIds, ∀ entry ∈ index.documents.toList,
        chunkId ∈ entry.2.chunkIds → entry.1 = document.documentId) :
    PlanFits { chunkId | chunkId ∈ letterIds } index plan :=
  ⟨h.1, h.2.1, h.2.2.1, fun document hdoc chunkId hchunk other ⟨record, hrecord, hlisted⟩ =>
    h.2.2.2 document hdoc chunkId hchunk (other, record)
      (Std.ExtTreeMap.mem_toList_iff_getElem?_eq_some.mpr hrecord) hlisted⟩

/-- A session that has put a document and planned texts under the id `a`. -/
def plannedSession (texts : List String) (annConfigured : Bool := false) : Session :=
  (((Session.fresh 8 none annConfigured).call .sample ⟨true, true⟩ (.upsertVectors [zeroDocument "b"])).1.call .sample
    ⟨true, true⟩ (.prepareTextUpsert (texts.map fun text => ⟨"a", text, ∅⟩) ⟨true, true⟩ 10)).1

/-- The plan of one letter. -/
def letterPlan : IngestPlan := lettersPlan 1 [("x", [letterChunk "78" "x"])]

/-- A run that puts a vector and a text and takes the vector out again. -/
theorem run_wellIndexed_planned :
    let calls : List Call := [.upsertVectors [zeroDocument "b"], .prepareTextUpsert [⟨"a", "x", ∅⟩] ⟨true, true⟩ 10,
      .applyTextUpsert letterPlan [List.replicate 8 0], .deleteDocuments ["b"]]
    ∃ last, Run .sample ⟨true, true⟩ (fun index call => call.Fits .sample { chunkId | chunkId ∈ letterIds } index)
        (Session.fresh 8 none true) calls last ∧ last.index.documents.keys = ["a"] ∧ WellIndexed last.index := by
  intro calls
  have hfirst : VectorBatchFits .sample { chunkId | chunkId ∈ letterIds } (.new 8 none true) [zeroDocument "b"] := by
    refine ⟨?_, ?_, ?_⟩
    · simp [zeroDocument, letterIds]
    · simp [VectorOnlyIndex.new, HasChunk]
    · simp [VectorOnlyIndex.new]
  have hplan : PlanFits { chunkId | chunkId ∈ letterIds } (plannedSession ["x"] true).index letterPlan :=
    planFits_letters (by decide +kernel)
  have hheld : letterPlan ∈ (plannedSession ["x"] true).plans := by decide +kernel
  have hrun : Run .sample ⟨true, true⟩ (fun index call => call.Fits .sample { chunkId | chunkId ∈ letterIds } index)
      (Session.fresh 8 none true) calls _ :=
    .step trivial hfirst (.step trivial trivial (.step hheld hplan (.step trivial trivial (.done _))))
  exact ⟨_, hrun, by decide +kernel, run_wellIndexed stableOn_letterIds 8 none true hrun⟩

/-- The plan of two texts under one id. -/
def repeatedTextPlan : IngestPlan := lettersPlan 1 [("x", [letterChunk "78" "x"]), ("y", [letterChunk "79" "y"])]

/-- The session once the plan is applied, and what the call returned. -/
def repeatedTextApplied : Session × Except CoreError Unit :=
  (plannedSession ["x", "y"]).call .sample ⟨true, true⟩
    (.applyTextUpsert repeatedTextPlan [List.replicate 8 0, List.replicate 8 0])

/-- Three rows for two chunks. -/
theorem repeatedTextApplied_rows : repeatedTextApplied.2 = .ok () ∧
    repeatedTextApplied.1.index.vectorIndex.map (·.index.rows.size) = some 3 ∧
    (ownedChunks repeatedTextApplied.1.index.documents).card = 2 := ⟨rfl, rfl, rfl⟩

/-- Two texts under one id in one batch: the row of the first one's chunk stays in the live index,
though no document has that chunk any more. -/
theorem exists_run_not_wellIndexed :
    ¬ ∀ (P : Primitives) (policy : TextPolicy) (vectorDim : ℕ) (rescoreDtype : Option TvvfDtype)
      (calls : List Call) (session : Session) (call : Call),
      Run P policy (fun _ _ => True) (Session.fresh vectorDim rescoreDtype) calls session →
      session.Holds call → (session.call P policy call).2 = .ok () →
      WellIndexed (session.call P policy call).1.index := by
  intro hclaim
  have hholds : repeatedTextPlan ∈ (plannedSession ["x", "y"]).plans := by decide +kernel
  obtain ⟨hreturned, hrows, howned⟩ := repeatedTextApplied_rows
  have hrun : Run .sample ⟨true, true⟩ (fun _ _ => True) (Session.fresh 8 none)
      [.upsertVectors [zeroDocument "b"],
        .prepareTextUpsert [⟨"a", "x", ∅⟩, ⟨"a", "y", ∅⟩] ⟨true, true⟩ 10] (plannedSession ["x", "y"]) :=
    .step trivial trivial (.step trivial trivial (.done _))
  have hwell : WellIndexed repeatedTextApplied.1.index := hclaim _ _ _ _ _ _ _ hrun hholds hreturned
  rw [Option.map_eq_some_iff] at hrows
  obtain ⟨live, hlive, hsize⟩ := hrows
  have hcount := (hwell.rows live hlive).count
  omega

end LodeDB.Engine
