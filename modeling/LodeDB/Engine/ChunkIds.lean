import LodeDB.Engine.TextUpsert
import LodeDB.Text.Ids

/-!
# The chunk ids of planned documents

The chunks of a document are numbered per hash of their normalised text. As long as no two normalised
texts of the document share the digits of the hash that go into the id, its chunk ids are distinct. No
other document has any of them.
-/

namespace LodeDB.Engine

open ExceptRules TreeMapRules
open Text (normalizedChunkHash chunkIdForHash chunkIdForHash_inj chunkText sha256Text splitWhitespace tokenize ChunkOf)

variable {P : Primitives} {policy : TextPolicy} {documentId : String} {needsEmbedding : String → Bool}
  {pieces : List String} {occurrences : Std.ExtTreeMap String ℕ compare} {chunk : PlanDocumentChunk}
  {limit : ℕ} {documents : List CoreDocument} {prepared : List PlanDocument} {document : PlanDocument}

/-- A text with its whitespace runs collapsed. -/
def normalizedText (text : String) : String := String.ofList ([' '].intercalate (splitWhitespace text.toList []))

/-- Chunks of a document whose ids share their hash digits have one normalised text. -/
def HashesApart (P : Primitives) (chunks : List PlanDocumentChunk) : Prop :=
  ∀ chunk ∈ chunks, ∀ other ∈ chunks,
    (normalizedChunkHash P chunk.text).toList.take 12 = (normalizedChunkHash P other.text).toList.take 12 →
      normalizedText chunk.text = normalizedText other.text

/-- A chunk planned for a document: its id is that of its text, numbered within its hash. -/
structure PlannedFor (P : Primitives) (policy : TextPolicy) (documentId : String) (needsEmbedding : String → Bool)
    (occurrences : Std.ExtTreeMap String ℕ compare) (chunk : PlanDocumentChunk) : Prop where
  id : ∃ occurrence ≥ occurrences[normalizedChunkHash P chunk.text]?.getD 0,
    chunk.chunkId = chunkIdForHash documentId (normalizedChunkHash P chunk.text) occurrence
  tokens : chunk.tokens = if policy.indexText || policy.storeText then tokenize P chunk.text else []
  needs : chunk.needsEmbedding = needsEmbedding chunk.chunkId

theorem plannedFor_of_mem (hchunk : chunk ∈ planChunks P policy documentId needsEmbedding pieces occurrences) :
    PlannedFor P policy documentId needsEmbedding occurrences chunk := by
  induction pieces generalizing occurrences with
  | nil => simp [planChunks] at hchunk
  | cons piece rest ih =>
    rcases List.mem_cons.mp hchunk with rfl | hchunk
    · exact ⟨⟨_, le_rfl, rfl⟩, rfl, rfl⟩
    · obtain ⟨⟨occurrence, hbound, hid⟩, htoks, hneeds⟩ := ih hchunk
      refine ⟨⟨occurrence, ?_, hid⟩, htoks, hneeds⟩
      rw [getElem?_insert] at hbound
      split at hbound
      · rename_i hsame
        rw [← hsame]
        exact (Nat.le_succ _).trans hbound
      · exact hbound

theorem PlannedFor.chunkOf (h : PlannedFor P policy documentId needsEmbedding occurrences chunk) :
    ChunkOf P documentId chunk.chunkId := by
  obtain ⟨occurrence, -, hid⟩ := h.id
  exact ⟨chunk.text, occurrence, hid⟩

theorem HashesApart.tail {rest : List PlanDocumentChunk} (h : HashesApart P (chunk :: rest)) : HashesApart P rest :=
  fun left hleft right hright => h left (List.mem_cons_of_mem _ hleft) right (List.mem_cons_of_mem _ hright)

/-- The ids of a document's chunks are distinct. -/
theorem nodup_planChunks (hapart : HashesApart P (planChunks P policy documentId needsEmbedding pieces occurrences)) :
    ((planChunks P policy documentId needsEmbedding pieces occurrences).map (·.chunkId)).Nodup := by
  induction pieces generalizing occurrences with
  | nil => exact List.nodup_nil
  | cons piece rest ih =>
    rw [planChunks] at hapart ⊢
    refine List.nodup_cons.mpr ⟨?_, ih hapart.tail⟩
    intro hmem
    obtain ⟨chunk, hchunk, hsame⟩ := List.mem_map.mp hmem
    obtain ⟨occurrence, hbound, hid⟩ := (plannedFor_of_mem hchunk).id
    obtain ⟨-, hdigits, hoccurrence⟩ := chunkIdForHash_inj (hid.symm.trans hsame)
    -- the same digits mean the same hash, and that has a higher number by now
    have htexts := hapart chunk (List.mem_cons_of_mem _ hchunk) _ List.mem_cons_self
    have hhash : normalizedChunkHash P chunk.text = normalizedChunkHash P piece :=
      congrArg (sha256Text P) (htexts hdigits)
    rw [hhash, getElem?_insert, if_pos rfl, Option.getD_some, hoccurrence] at hbound
    exact absurd hbound (Nat.not_succ_le_self _)

/-- Every planned document is numbered from nothing. -/
theorem planDocument_eq_ok {source : CoreDocument}
    (h : planDocument P policy limit needsEmbedding source = .ok document) :
    ∃ pieces, document = ⟨source.documentId, source.metadata, if policy.storeText then some source.text else none,
      planChunks P policy source.documentId needsEmbedding pieces ∅⟩ := by
  simp only [planDocument, bind_eq_ok, pure, Except.pure, Except.ok.injEq] at h
  obtain ⟨-, -, -, -, pieces, -, rfl⟩ := h
  exact ⟨pieces, rfl⟩

theorem exists_planChunks (hplan : documents.mapM (planDocument P policy limit needsEmbedding) = .ok prepared)
    (hdoc : document ∈ prepared) :
    ∃ pieces, document.chunks = planChunks P policy document.documentId needsEmbedding pieces ∅ := by
  obtain ⟨source, -, hsource⟩ := exists_of_mem_mapM hplan hdoc
  obtain ⟨pieces, rfl⟩ := planDocument_eq_ok hsource
  exact ⟨pieces, rfl⟩

theorem planDocumentChunks_eq_ok {toEmbed : List PlanEmbeddingChunk} :
    planDocumentChunks P documents policy limit needsEmbedding = .ok (prepared, toEmbed) ↔
      documents.mapM (planDocument P policy limit needsEmbedding) = .ok prepared ∧ toEmbed = chunksToEmbed prepared := by
  simp only [planDocumentChunks, bind_eq_ok, pure, Except.pure, Except.ok.injEq, Prod.mk.injEq]
  constructor
  · rintro ⟨_, hprep, rfl, rfl⟩
    exact ⟨hprep, rfl⟩
  · rintro ⟨hprep, rfl⟩
    exact ⟨_, hprep, rfl, rfl⟩

/-- What preparing a text upsert makes of documents. -/
theorem prepareTextUpsert_eq_ok {index : VectorOnlyIndex} {plan : IngestPlan}
    (hplan : prepareTextUpsert P index documents policy limit = .ok plan) : ∃ prepared, documents.mapM
        (planDocument P policy limit fun chunkId => !index.chunkOwnerById.contains chunkId) = .ok prepared ∧
      plan = ⟨index.generation, prepared, chunksToEmbed prepared, policy.storeText, policy.indexText⟩ := by
  simp only [prepareTextUpsert, bind_eq_ok, pure, Except.pure, Except.ok.injEq] at hplan
  obtain ⟨-, -, ⟨prepared, toEmbed⟩, hchunks, rfl⟩ := hplan
  obtain ⟨hprep, rfl⟩ := planDocumentChunks_eq_ok.mp hchunks
  exact ⟨prepared, hprep, rfl⟩

/-- **Chunks are the trimmed text, cut at the limit. A planned document's chunk ids are distinct unless two
normalised texts share their hash digits, and no other document has any of them.** -/
theorem planned_chunks (P : Primitives) :
    (∀ (text : String) (limit : ℕ), 0 < limit → ∃ chunks, chunkText text limit = .ok chunks ∧
      chunks.flatMap String.toList = Text.trim text ∧ (∀ chunk ∈ chunks.dropLast, chunk.length = limit) ∧
        ∀ chunk ∈ chunks.getLast?, chunk ≠ "" ∧ chunk.length ≤ limit) ∧
    ∀ documents policy limit needsEmbedding prepared toEmbed,
      planDocumentChunks P documents policy limit needsEmbedding = .ok (prepared, toEmbed) →
      (∀ document ∈ prepared, HashesApart P document.chunks → document.chunkIds.Nodup) ∧
      ∀ others otherPolicy otherLimit otherNeeds otherPrepared otherEmbed,
        planDocumentChunks P others otherPolicy otherLimit otherNeeds = .ok (otherPrepared, otherEmbed) →
        ∀ document ∈ prepared, ∀ other ∈ otherPrepared, document.documentId ≠ other.documentId →
          document.chunkIds.Disjoint other.chunkIds := by
  refine ⟨fun text limit hlimit => ?_, fun documents policy limit needsEmbedding prepared toEmbed hplan => ⟨?_, ?_⟩⟩
  · exact ⟨_, if_neg hlimit.ne', Text.chunkChars_spec hlimit (Text.trim text) [] hlimit⟩
  · intro document hdocument hapart
    obtain ⟨pieces, hchunks⟩ := exists_planChunks (planDocumentChunks_eq_ok.mp hplan).1 hdocument
    rw [PlanDocument.chunkIds, hchunks]
    exact nodup_planChunks (hchunks ▸ hapart)
  · intro others otherPolicy otherLimit otherNeeds otherPrepared otherEmbed hothers document hdocument other hother hne
      chunkId hchunk hin
    obtain ⟨pieces, hchunks⟩ := exists_planChunks (planDocumentChunks_eq_ok.mp hplan).1 hdocument
    obtain ⟨otherPieces, hotherChunks⟩ := exists_planChunks (planDocumentChunks_eq_ok.mp hothers).1 hother
    obtain ⟨chunk, hmem, rfl⟩ := List.mem_map.mp hchunk
    obtain ⟨same, hsame, hid⟩ := List.mem_map.mp hin
    obtain ⟨_, -, hleft⟩ := (plannedFor_of_mem (hchunks ▸ hmem)).id
    obtain ⟨_, -, hright⟩ := (plannedFor_of_mem (hotherChunks ▸ hsame)).id
    exact hne (chunkIdForHash_inj (hleft.symm.trans (hid.symm.trans hright))).1

/-- The plan of a document whose id has colons and whose three chunks repeat. -/
def repeatedPlan : Except CoreError (List PlanDocument × List PlanEmbeddingChunk) :=
  planDocumentChunks .sample [⟨"a:0:1", "x x", ∅⟩] ⟨false, false⟩ 1 fun _ => true

theorem planned_chunks_repeated : ∃ plan, repeatedPlan = .ok plan ∧ ∃ document ∈ plan.1,
    document.chunkIds.length = 3 ∧ document.chunkIds.Nodup := by
  have heval : (repeatedPlan.toOption.any fun plan => plan.1.any fun document =>
      decide (document.chunkIds.length = 3) && document.chunks.all fun chunk => document.chunks.all fun other =>
        decide ((normalizedChunkHash .sample chunk.text).toList.take 12 =
          (normalizedChunkHash .sample other.text).toList.take 12 →
            normalizedText chunk.text = normalizedText other.text)) = true := by decide +kernel
  cases hplan : repeatedPlan with
  | error error =>
    rw [hplan] at heval
    cases heval
  | ok plan =>
    rw [hplan] at heval
    obtain ⟨document, hdocument, hchunks⟩ := List.any_eq_true.mp heval
    simp only [Bool.and_eq_true, List.all_eq_true, decide_eq_true_eq] at hchunks
    exact ⟨plan, rfl, document, hdocument, hchunks.1,
      ((planned_chunks .sample).2 _ _ _ _ _ _ hplan).1 document hdocument hchunks.2⟩

end LodeDB.Engine
