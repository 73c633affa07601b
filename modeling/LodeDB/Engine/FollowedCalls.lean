import LodeDB.Engine.Followed
import LodeDB.Engine.Session
import Mathlib.Data.List.Pairwise

/-!
# Every call follows the rows

Vector batches may repeat ids and take chunk ids that other documents have; plans have to name each
document and each chunk once. A plan made for an index reuses only chunks that have an owner there.
-/

namespace LodeDB.Engine

open TreeMapRules
open Text (sha256F32Le StableOn)

variable {P : Primitives} {policy : TextPolicy} {ids : Set String} {committed : Rows}
  {start middle : VectorOnlyIndex} {removed larger : List String} {documentId : String} {record : DocumentRecord}

variable {chunkId : String} {after before index : VectorOnlyIndex}

section Documents

theorem Followed.behind (h : Followed P ids committed start) : Behind ids start start [] :=
  ⟨h.owner, h.within, fun _ hchunk => .inl hchunk, .refl start⟩

theorem replaceDocument_pendingUpserts :
    (middle.replaceDocument documentId record).pendingUpserts = insert documentId middle.pendingUpserts := by
  unfold VectorOnlyIndex.replaceDocument
  cases middle.documents[documentId]? with
  | none => rfl
  | some old =>
    ext other
    simp only [VectorOnlyIndex.addDocumentIndexes, VectorOnlyIndex.removeDocumentIndexes, Finset.mem_insert,
      Finset.mem_erase]
    tauto

/-- The pending chunks after a replacement. -/
theorem mem_pendingChunks_replaceDocument :
    chunkId ∈ pendingChunks (middle.replaceDocument documentId record) ↔ chunkId ∈ record.chunkIds ∨
      ∃ other ∈ middle.pendingUpserts, other ≠ documentId ∧ HasChunk middle.documents other chunkId := by
  rw [mem_pendingChunks, replaceDocument_pendingUpserts, replaceDocument_documents]
  simp only [Finset.mem_insert, hasChunk_insert]
  constructor
  · rintro ⟨other, hpend, ⟨-, hnew⟩ | ⟨hne, hother⟩⟩
    · exact .inl hnew
    · exact .inr ⟨other, hpend.resolve_left hne, hne, hother⟩
  · rintro (hnew | ⟨other, hpend, hne, hother⟩)
    · exact ⟨documentId, .inl rfl, .inl ⟨rfl, hnew⟩⟩
    · exact ⟨other, .inr hpend, .inr ⟨hne, hother⟩⟩

section

variable (h : Behind ids start middle removed)

include h

/-- Replacing a document: old chunks that the new record does not list are to be removed. -/
theorem Behind.replaceDocument (hin : ∀ chunkId ∈ record.chunkIds, chunkId ∈ ids) (hlarger : removed ⊆ larger)
    (hold : ∀ chunkId ∈ chunkIdsOf middle.documents documentId, chunkId ∈ record.chunkIds ∨ chunkId ∈ larger) :
    Behind ids start (middle.replaceDocument documentId record) larger where
  owner := h.owner.replaceDocument
  within := by
    intro chunkId howned
    rw [replaceDocument_documents, mem_ownedChunks] at howned
    obtain ⟨other, hother⟩ := howned
    rcases hasChunk_insert.mp hother with ⟨-, hnew⟩ | ⟨-, hlist⟩
    · exact hin chunkId hnew
    · exact h.within chunkId (mem_ownedChunks.mpr ⟨other, hlist⟩)
  covered := by
    intro chunkId hchunk
    rw [mem_pendingChunks_replaceDocument]
    rcases h.covered chunkId hchunk with hpend | hrem
    · obtain ⟨other, hother, hlist⟩ := mem_pendingChunks.mp hpend
      by_cases heq : other = documentId
      · subst heq
        exact (hold chunkId (mem_chunkIdsOf.mpr hlist)).imp_left .inl
      · exact .inl (.inr ⟨other, hother, heq, hlist⟩)
    · exact .inr (hlarger hrem)
  puts := h.puts.trans replaceDocument_puts

/-- Only the core, the generation and the bookkeeping matter. -/
theorem Behind.of_core {other : VectorOnlyIndex} (hcore : other.core = middle.core) (hputs : middle.Puts other) :
    Behind ids start other removed := by
  obtain ⟨hdocs, howner, -, hpend, -⟩ := VectorOnlyIndex.Core.mk.inj hcore
  have hchunks : pendingChunks other = pendingChunks middle := by
    rw [pendingChunks, pendingChunks, hdocs, hpend]
  refine ⟨?_, hdocs ▸ h.within, hchunks ▸ h.covered, h.puts.trans hputs⟩
  unfold OwnersList
  rw [howner, hdocs]
  exact h.owner

/-- A document that keeps its chunk ids. -/
theorem Behind.insert_same {updated : DocumentRecord} {pending : LodeDB.Filter.DocSet}
    (hrec : middle.documents[documentId]? = some record) (hids : updated.chunkIds = record.chunkIds)
    (hpend : middle.pendingUpserts ⊆ pending) :
    Behind ids start { middle with
      documents := middle.documents.insert documentId updated
      pendingUpserts := pending } removed where
  owner := fun chunkId owner howner =>
    (hasChunk_insert_same hrec hids owner chunkId).mpr (h.owner chunkId owner howner)
  within := fun chunkId howned => h.within chunkId (by rwa [← ownedChunks_insert_same hrec hids])
  covered := by
    intro chunkId hchunk
    refine (h.covered chunkId hchunk).imp_left fun hlist => ?_
    obtain ⟨other, hother, hhas⟩ := mem_pendingChunks.mp hlist
    exact mem_pendingChunks.mpr ⟨other, hpend hother, (hasChunk_insert_same hrec hids other chunkId).mpr hhas⟩
  puts := h.puts.trans ⟨rfl, rfl, rfl⟩

end

end Documents

section Payload

variable {metadata : Option LodeDB.Filter.Metadata} {text : Option (Option String)}

/-- Putting an updated record: the document keeps its chunks. -/
theorem Followed.putUpdated (h : Followed P ids committed start)
    (hrec : start.documents[documentId]? = some record) :
    Behind ids start (putUpdated P policy start documentId record metadata text) [] := by
  cases metadata with
  | some metadata =>
    have hids : chunkIdsOf start.documents documentId = record.chunkIds := by simp [chunkIdsOf, hrec]
    refine h.behind.replaceDocument ?_ (List.Subset.refl _) ?_
    · intro chunkId hchunk
      rw [updatedRecord_chunkIds] at hchunk
      exact h.within chunkId (mem_ownedChunks.mpr ⟨documentId, record, hrec, hchunk⟩)
    · intro chunkId hchunk
      rw [updatedRecord_chunkIds]
      exact .inl (hids ▸ hchunk)
  | none =>
    cases text with
    | none =>
      exact (h.behind.insert_same hrec updatedRecord_chunkIds (Finset.Subset.refl _)).of_core rfl ⟨rfl, rfl, rfl⟩
    | some text =>
      exact (h.behind.insert_same hrec updatedRecord_chunkIds (Finset.subset_insert documentId _)).of_core rfl
        ⟨rfl, rfl, rfl⟩

/-- A payload update. -/
theorem Followed.updateDocumentPayload (h : Followed P ids committed start) (hstab : StableOn P ids) :
    Lands (Followed P ids committed) start (updateDocumentPayload P policy start documentId metadata text) := by
  refine updateDocumentPayload_lands (fun _ _ h => h.of_core) h fun record hrec => ?_
  have hbehind : Behind ids start (Engine.putUpdated P policy start documentId record metadata text) [] :=
    h.putUpdated hrec
  have hrem := hbehind.followed_removed h hstab fun hempty => by simp [hempty] at hrec
  rwa [VectorOnlyIndex.syncVectorIndexRemove_nil] at hrem

end Payload

section Delete

/-- Taking a document out: its chunks are to be removed. -/
theorem Followed.takeDocument (h : Followed P ids committed start)
    (hrec : start.documents[documentId]? = some record) :
    Behind ids start (takeDocument start documentId record) record.chunkIds where
  owner := h.owner.dropDocument hrec
  within := by
    intro chunkId howned
    obtain ⟨other, hother⟩ := mem_ownedChunks.mp howned
    exact h.within chunkId (mem_ownedChunks.mpr ⟨other, (hasChunk_erase.mp hother).2⟩)
  covered := by
    intro chunkId hchunk
    obtain ⟨other, hother, hlist⟩ := mem_pendingChunks.mp hchunk
    by_cases heq : other = documentId
    · subst heq
      obtain ⟨found, hfound, hmem⟩ := hlist
      rw [hrec] at hfound
      cases hfound
      exact .inr hmem
    · exact .inl (mem_pendingChunks.mpr ⟨other, Finset.mem_erase.mpr ⟨heq, hother⟩, hasChunk_erase.mpr ⟨heq, hlist⟩⟩)
  puts := ⟨rfl, rfl, rfl⟩

/-- Deletes. -/
theorem Followed.deleteDocuments (h : Followed P ids committed start) (hstab : StableOn P ids)
    (documentIds : List String) : Lands (Followed P ids committed) start (deleteDocuments start documentIds) :=
  deleteDocuments_lands (fun _ _ h => h.of_core) (fun _ _ _ h hrec => (h.takeDocument hrec).followed_removed h
    hstab fun hempty => by simp [hempty] at hrec) h documentIds

end Delete

section Vector

variable {documents : List CoreVectorDocument} {batch : VectorBatch} {document : CoreVectorDocument}

/-- What the loop over a vector batch keeps. -/
structure VectorFollows (ids : Set String) (start : VectorOnlyIndex) (batch : VectorBatch) : Prop extends
    VectorRun start batch where
  behind : Behind ids start batch.index batch.removedChunkIds
  pending : ∀ chunk ∈ batch.upsertedChunks, chunk.chunkId ∈ batch.index.pendingUpserts

/-- One turn of the loop. -/
theorem VectorFollows.step (h : VectorFollows ids start batch) (hin : document.documentId ∈ ids)
    (hacc : Accepted start.vectorDim document.vector) :
    VectorFollows ids start (upsertVector P policy batch document) := by
  have hrun : VectorRun start (upsertVector P policy batch document) := h.toVectorRun.step hacc
  have hpend : (putVectorDocument P policy batch.index document).pendingUpserts =
      insert document.documentId batch.index.pendingUpserts := replaceDocument_pendingUpserts
  have hrepl : Behind ids start (batch.index.replaceDocument document.documentId
      (vectorRecord P policy document)) (batch.removedChunkIds ++
        (chunkIdsOf batch.index.documents document.documentId).filter (· ≠ document.documentId)) := by
    refine h.behind.replaceDocument ?_ (List.subset_append_left _ _) ?_
    · simpa using hin
    · intro chunkId hchunk
      by_cases hself : chunkId = document.documentId
      · exact .inl (by simp [hself])
      · exact .inr (List.mem_append_right _ (List.mem_filter.mpr ⟨hchunk, by simpa using hself⟩))
  unfold upsertVector at hrun ⊢
  by_cases hsame : fullyUnchanged P policy batch.index document = true
  · rw [if_pos hsame]
    exact h
  rw [if_neg hsame] at hrun ⊢
  refine ⟨hrun, hrepl.of_core rfl ⟨rfl, rfl, rfl⟩, ?_⟩
  intro chunk hchunk
  rw [hpend]
  simp only at hchunk
  split at hchunk
  · exact Finset.mem_insert_of_mem (h.pending chunk hchunk)
  · rcases List.mem_append.mp hchunk with hchunk | hnew
    · exact Finset.mem_insert_of_mem (h.pending chunk hchunk)
    · rw [List.mem_singleton.mp hnew]
      exact Finset.mem_insert_self _ _

/-- The whole loop. -/
theorem vectorFollows_upsertVectorLoop (hstart : Followed P ids committed start)
    (hin : ∀ document ∈ documents, document.documentId ∈ ids)
    (hacc : ∀ document ∈ documents, Accepted start.vectorDim document.vector) :
    VectorFollows ids start (upsertVectorLoop P policy start documents) :=
  List.foldlRecOn documents (upsertVector P policy) ⟨vectorRun_initial start, hstart.behind, by simp⟩
    fun _ h document hdoc => h.step (hin document hdoc) (hacc document hdoc)

/-- Bringing the live index up to date with a vector batch. -/
theorem VectorFollows.sync (h : VectorFollows ids start batch) (hstart : Followed P ids committed start)
    (hstab : StableOn P ids) :
    ∃ synced, (batch.sync P).2 = .ok synced ∧ Followed P ids committed synced ∧
      synced.documentState = batch.index.documentState := by
  rw [VectorBatch.sync_eq]
  by_cases hnone : batch.upsertedChunks = []
  · refine ⟨_, if_pos hnone, ?_, batch.index.syncVectorIndexRemove_documentState _⟩
    exact h.behind.followed_removed hstart hstab fun hempty => h.documents_empty hempty hnone
  · obtain ⟨hnodup, hkept⟩ := keepLast_chunkIds fun chunk hchunk => (h.upserted chunk hchunk).1
    have hpend : ∀ chunkId ∈ (Occurrence.keepLast (·.documentId) batch.upsertedChunks).map (·.chunkId),
        chunkId ∈ pendingChunks batch.index := by
      intro chunkId hchunk
      obtain ⟨chunk, hmem, rfl⟩ := List.mem_map.mp ((hkept chunkId).mp hchunk)
      exact mem_pendingChunks.mpr ⟨_, h.pending chunk hmem, (h.upserted chunk hmem).2.1⟩
    have hbuild : start.documents = ∅ → (batch.index.vectorChunks.map (·.chunkId)).Nodup ∧
        ∀ chunk ∈ batch.index.vectorChunks, Accepted start.vectorDim chunk.embedding ∧
          chunk.chunkId ∈ (Occurrence.keepLast (·.documentId) batch.upsertedChunks).map (·.chunkId) := by
      intro hempty
      refine ⟨vectorChunks_nodup_of ?_ ?_, ?_⟩
      · intro documentId
        cases hrec : batch.index.documents[documentId]? with
        | none => simp [chunkIdsOf, hrec]
        | some record => simp [chunkIdsOf, hrec, (h.put_of_empty hempty hrec).1]
      · intro chunkId left right hleft hright
        obtain ⟨leftRecord, hleftRecord, hleftChunk⟩ := hleft
        obtain ⟨rightRecord, hrightRecord, hrightChunk⟩ := hright
        rw [(h.put_of_empty hempty hleftRecord).1, List.mem_singleton] at hleftChunk
        rw [(h.put_of_empty hempty hrightRecord).1, List.mem_singleton] at hrightChunk
        exact hleftChunk.symm.trans hrightChunk
      · intro chunk hchunk
        obtain ⟨documentId, record, hrec, stored, hsto, rfl⟩ := mem_vectorChunks.mp hchunk
        have hput := h.put_of_empty hempty hrec
        have hid : stored.chunkId ∈ record.chunkIds := List.mem_map_of_mem hsto
        rw [hput.1, List.mem_singleton] at hid
        refine ⟨hput.2 stored hsto, (hkept _).mpr ?_⟩
        exact hid ▸ h.fromEmpty hempty documentId record hrec
    obtain ⟨synced, hsync, hfol⟩ := h.behind.resync hstart hstab hpend hnodup h.accepted hbuild
    exact ⟨synced, (if_neg hnone).trans hsync, hfol⟩

/-- Vector upserts. -/
theorem Followed.upsertVectors (hstart : Followed P ids committed start) (hstab : StableOn P ids)
    (hin : ∀ document ∈ documents, document.documentId ∈ ids) :
    Lands (Followed P ids committed) start (upsertVectors P policy start documents) :=
  upsertVectors_lands (fun _ _ h => h.of_core) hstart fun hacc =>
    (vectorFollows_upsertVectorLoop hstart hin hacc).sync hstart hstab

end Vector

section Text

variable {plan : IngestPlan} {embeddings : List Embedding}
  {fresh existing : ChunkVectors} {done rest : List PlanDocument} {batch : TextBatch}
  {document : PlanDocument}

/-- What the loop over a plan keeps, once the given documents are done. -/
structure TextFollows (ids : Set String) (start : VectorOnlyIndex)
    (fresh existing : ChunkVectors) (done : List PlanDocument)
    (batch : TextBatch) : Prop extends TextRun start fresh existing done batch where
  behind : Behind ids start batch.index (SortedSet.ascending batch.removedChunkIds)
  listed : ∀ document ∈ done, document.documentId ∈ batch.index.pendingUpserts ∧
    ∀ chunkId ∈ document.chunkIds, HasChunk batch.index.documents document.documentId chunkId

/-- One turn of the loop. -/
theorem TextFollows.step (h : TextFollows ids start fresh existing done batch) (hdist : PlanDistinct ids plan)
    (hplan : plan.documents = done ++ document :: rest) :
    TextFollows ids start fresh existing (done ++ [document])
      (batch.put P plan document (resolvedAfter P fresh existing done document)) := by
  obtain ⟨hnotDone, -, -⟩ := hdist.split hplan
  have hdoc : document ∈ plan.documents := by simp [hplan]
  have hchunks : (textRecord P document (plannedRecords fresh existing document)).chunkIds =
      document.chunkIds := plannedRecords_chunkIds fresh existing document
  have hput : (batch.put P plan document (resolvedAfter P fresh existing done document)).index.documents =
      batch.index.documents.insert document.documentId
        (textRecord P document (plannedRecords fresh existing document)) := putTextDocument_documents
  have hpend : (batch.put P plan document (resolvedAfter P fresh existing done document)).index.pendingUpserts =
      insert document.documentId batch.index.pendingUpserts :=
    replaceDocument_pendingUpserts
  have hrepl : Behind ids start (batch.index.replaceDocument document.documentId
      (textRecord P document (plannedRecords fresh existing document)))
      (SortedSet.ascending (batch.removedChunkIds ∪
        (chunkIdsOf batch.index.documents document.documentId).toFinset)) := by
    refine h.behind.replaceDocument ?_ ?_ ?_
    · exact hchunks ▸ hdist.within document hdoc
    · intro chunkId hrem
      rw [SortedSet.mem_ascending] at hrem ⊢
      exact Finset.mem_union_left _ hrem
    · intro chunkId hold
      right
      rw [SortedSet.mem_ascending]
      exact Finset.mem_union_right _ (List.mem_toFinset.mpr hold)
  refine ⟨h.toTextRun.step plan, hrepl.of_core rfl ⟨rfl, rfl, rfl⟩, ?_⟩
  intro before hbefore
  rw [hpend, hput]
  rcases List.mem_append.mp hbefore with hbefore | hself
  · obtain ⟨hold, hlist⟩ := h.listed before hbefore
    refine ⟨Finset.mem_insert_of_mem hold, ?_⟩
    intro chunkId hchunk
    have hne : before.documentId ≠ document.documentId :=
      fun heq => hnotDone (heq ▸ List.mem_map_of_mem hbefore)
    exact hasChunk_insert.mpr (.inr ⟨hne, hlist chunkId hchunk⟩)
  · rw [List.mem_singleton] at hself
    subst hself
    refine ⟨Finset.mem_insert_self _ _, ?_⟩
    intro chunkId hchunk
    exact hasChunk_insert.mpr (.inl ⟨rfl, hchunks ▸ hchunk⟩)

/-- After the loop, only the live index is behind: chunks planned again stay. -/
theorem TextFollows.unsynced (h : TextFollows ids start fresh existing plan.documents batch) :
    Behind ids start batch.index (SortedSet.ascending (batch.removedChunkIds \ batch.activeChunkIds)) := by
  refine ⟨h.behind.owner, h.behind.within, ?_, h.puts⟩
  intro chunkId hchunk
  rw [SortedSet.mem_ascending, Finset.mem_sdiff]
  rcases h.behind.covered chunkId hchunk with hpend | hrem
  · exact .inl hpend
  · rw [SortedSet.mem_ascending] at hrem
    by_cases hactive : chunkId ∈ batch.activeChunkIds
    · left
      rw [h.active, List.mem_toFinset] at hactive
      obtain ⟨document, hdoc, hplanned⟩ := List.mem_flatMap.mp hactive
      obtain ⟨hpend, hlist⟩ := h.listed document hdoc
      exact mem_pendingChunks.mpr ⟨document.documentId, hpend, hlist chunkId hplanned⟩
    · exact .inr ⟨hrem, hactive⟩

/-- Two documents of a plan with a chunk in common are one. -/
theorem PlanDistinct.unique (hdist : PlanDistinct ids plan) {left right : PlanDocument}
    (hleft : left ∈ plan.documents) (hright : right ∈ plan.documents) (hinLeft : chunkId ∈ left.chunkIds)
    (hinRight : chunkId ∈ right.chunkIds) : left = right := by
  by_contra hne
  have hpairwise := (List.nodup_flatMap.mp hdist.chunkIds).2
  have hsymm : Std.Symm (Function.onFun List.Disjoint fun document : PlanDocument => document.chunkIds) :=
    ⟨fun _ _ hdisj => hdisj.symm⟩
  have hdisj := hpairwise.forall hleft hright hne
  exact hdisj hinLeft hinRight

variable (hstart : Followed P ids committed start) (hdist : PlanDistinct ids plan)
  (hreuses : PlanReuses start plan)

include hstart hdist hreuses

/-- Bringing the live index up to date with a plan. -/
theorem TextFollows.sync (hgen : start.generation = plan.baseGeneration)
    (hcount : embeddings.length = plan.chunksToEmbed.length) (hstab : StableOn P ids)
    (hacc : ∀ embedding ∈ embeddings, Accepted start.vectorDim embedding)
    (h : TextFollows ids start (Engine.newEmbeddings plan embeddings)
      (existingVectors start plan embeddings) plan.documents batch) :
    ∃ synced, (batch.sync P).2 = .ok synced ∧ Followed P ids committed synced ∧
      synced.documentState = batch.index.documentState := by
  refine h.unsynced.resync hstart hstab ?_ ?_ (h.accepted hacc) ?_
  · intro chunkId hchunk
    rw [h.added_chunkIds, List.mem_filter] at hchunk
    obtain ⟨document, hdoc, hplanned⟩ := List.mem_flatMap.mp hchunk.1
    obtain ⟨hpend, hlist⟩ := h.listed document hdoc
    exact mem_pendingChunks.mpr ⟨document.documentId, hpend, hlist chunkId hplanned⟩
  · rw [h.added_chunkIds]
    exact hdist.chunkIds.filter _
  · intro hempty
    have hplanned : ∀ documentId record, batch.index.documents[documentId]? = some record → _ := fun _ _ hrec =>
      h.fromEmpty hstart.owner hreuses hgen hcount hacc hempty hrec
    refine ⟨vectorChunks_nodup_of ?_ ?_, ?_⟩
    · intro documentId
      cases hrec : batch.index.documents[documentId]? with
      | none => simp [chunkIdsOf, hrec]
      | some record =>
        obtain ⟨document, hdoc, -, hids, -⟩ := hplanned documentId record hrec
        simpa [chunkIdsOf, hrec, hids] using (List.nodup_flatMap.mp hdist.chunkIds).1 document hdoc
    · rintro chunkId left right ⟨leftRecord, hleftRecord, hleftChunk⟩ ⟨rightRecord, hrightRecord, hrightChunk⟩
      obtain ⟨leftDocument, hleftDocument, rfl, hleftIds, -⟩ := hplanned left leftRecord hleftRecord
      obtain ⟨rightDocument, hrightDocument, rfl, hrightIds, -⟩ := hplanned right rightRecord hrightRecord
      rw [hdist.unique hleftDocument hrightDocument (hleftIds ▸ hleftChunk) (hrightIds ▸ hrightChunk)]
    · intro chunk hchunk
      obtain ⟨documentId, record, hrec, stored, hsto, rfl⟩ := mem_vectorChunks.mp hchunk
      obtain ⟨-, -, -, -, hstoredAll⟩ := hplanned documentId record hrec
      exact hstoredAll stored hsto

/-- Applying a plan. -/
theorem Followed.applyTextUpsert (hstab : StableOn P ids) :
    Lands (Followed P ids committed) start (applyTextUpsert P start plan embeddings) := by
  refine applyTextUpsert_lands (fun _ _ h => h.of_core) hstart fun hchk => ?_
  obtain ⟨-, hgen, hcount, hacc⟩ := checkPlan_eq_ok.mp hchk
  obtain ⟨batch, hbatch, hloop⟩ := applyLoop_runs hstart.owner hreuses hgen hcount hdist
    (fun _ _ _ _ hplan h => TextFollows.step h hdist hplan)
    ⟨textRun_initial start plan embeddings, hstart.behind, by simp⟩
  obtain ⟨synced, hsync, hfol, hstate⟩ := hloop.sync hstart hdist hreuses hgen hcount hstab hacc
  exact ⟨batch, synced, hbatch, hsync, hfol,
    (congrArg VectorOnlyIndex.DocumentState.generation hstate).trans hloop.puts.generation⟩

end Text

section Calls

/-- The calls whose plans name each document and each chunk once. -/
def Call.Distinct (ids : Set String) : Call → Prop
  | .upsertVectors documents => ∀ document ∈ documents, document.documentId ∈ ids
  | .applyTextUpsert plan _ => PlanDistinct ids plan
  | _ => True

/-- One call follows the rows and keeps the plans. -/
theorem Session.call_follows {session : Session} (hstab : StableOn P ids)
    (hindex : Followed P ids committed session.index)
    (hplans : ∀ plan ∈ session.plans, PlanReuses session.index plan) (call : Call)
    (hholds : session.Holds call) (hdist : call.Distinct ids) :
    Followed P ids committed (session.call P policy call).1.index ∧
      ∀ plan ∈ (session.call P policy call).1.plans, PlanReuses (session.call P policy call).1.index plan := by
  refine Session.call_lands hindex hplans hholds ?_ (hindex.deleteDocuments hstab)
    (fun _ _ _ => hindex.updateDocumentPayload hstab) ?_
  · rintro documents rfl
    exact hindex.upsertVectors hstab hdist
  · rintro plan embeddings rfl hreuses
    exact hindex.applyTextUpsert hdist hreuses hstab

end Calls

end LodeDB.Engine
