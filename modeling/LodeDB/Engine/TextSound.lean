import LodeDB.Engine.ChunkIds
import LodeDB.Engine.Consistent

/-!
# Text upserts keep one row for each chunk
-/

namespace LodeDB.Engine

open ExceptRules TreeMapRules InverseIndex
open Text (StableOn)

variable {P : Primitives} {ids : Set String}

variable {plan : IngestPlan} {policy : TextPolicy} {documents : List CoreDocument} {chunkCharacterLimit : ℕ}
  {chunkId : String}

variable {before after : VectorOnlyIndex}

/-- The plans that keep the invariant: no document id and no chunk id twice, and no other document's chunk id. -/
structure PlanFits (ids : Set String) (index : VectorOnlyIndex) (plan : IngestPlan) : Prop where
  within : ∀ document ∈ plan.documents, ∀ chunkId ∈ document.chunkIds, chunkId ∈ ids
  documentIds : (plan.documents.map (·.documentId)).Nodup
  chunkIds : (plan.documents.flatMap (·.chunkIds)).Nodup
  ownIds : ∀ document ∈ plan.documents, ∀ chunkId ∈ document.chunkIds, ∀ other,
    HasChunk index.documents other chunkId → other = document.documentId

/-- The plans that name no document twice and no chunk twice. -/
structure PlanDistinct (ids : Set String) (plan : IngestPlan) : Prop where
  within : ∀ document ∈ plan.documents, ∀ chunkId ∈ document.chunkIds, chunkId ∈ ids
  documentIds : (plan.documents.map (·.documentId)).Nodup
  chunkIds : (plan.documents.flatMap (·.chunkIds)).Nodup

theorem PlanFits.distinct {index : VectorOnlyIndex} (h : PlanFits ids index plan) : PlanDistinct ids plan :=
  ⟨h.within, h.documentIds, h.chunkIds⟩

/-- A plan embeds the chunks that need it, and reuses only owned chunks, while its generation stands. -/
structure PlanReuses (index : VectorOnlyIndex) (plan : IngestPlan) : Prop where
  toEmbed : plan.chunksToEmbed = chunksToEmbed plan.documents
  notAhead : plan.baseGeneration ≤ index.generation
  resident : plan.baseGeneration = index.generation → ∀ document ∈ plan.documents, ∀ chunk ∈ document.chunks,
    chunk.needsEmbedding = false → ∃ owner, index.chunkOwnerById[chunk.chunkId]? = some owner

/-- A plan embeds the chunks that need it, and the others have an owner. -/
theorem prepareTextUpsert_plan {index : VectorOnlyIndex}
    (hplan : prepareTextUpsert P index documents policy chunkCharacterLimit = .ok plan) :
    plan.chunksToEmbed = chunksToEmbed plan.documents ∧ plan.baseGeneration = index.generation ∧
      ∀ document ∈ plan.documents, ∀ chunk ∈ document.chunks, chunk.needsEmbedding = false →
        ∃ owner, index.chunkOwnerById[chunk.chunkId]? = some owner := by
  obtain ⟨prepared, hprep, rfl⟩ := prepareTextUpsert_eq_ok hplan
  refine ⟨rfl, rfl, ?_⟩
  intro document hdoc chunk hchunk hneeds
  obtain ⟨pieces, hchunks⟩ := exists_planChunks hprep hdoc
  rw [(plannedFor_of_mem (hchunks ▸ hchunk)).needs, Bool.not_eq_false', contains_iff] at hneeds
  exact hneeds

theorem planReuses_prepareTextUpsert {index : VectorOnlyIndex}
    (hplan : prepareTextUpsert P index documents policy chunkCharacterLimit = .ok plan) : PlanReuses index plan := by
  obtain ⟨hembed, hgen, howners⟩ := prepareTextUpsert_plan hplan
  exact ⟨hembed, hgen.le, fun _ => howners⟩

/-- A plan stays valid while the generation grows or the owners stay. -/
theorem PlanReuses.grow (h : PlanReuses before plan) (hgen : before.generation ≤ after.generation)
    (howner : before.generation = after.generation → after.chunkOwnerById = before.chunkOwnerById) :
    PlanReuses after plan := by
  refine ⟨h.toEmbed, h.notAhead.trans hgen, ?_⟩
  intro heq
  have hsame : before.generation = after.generation := le_antisymm hgen (heq ▸ h.notAhead)
  rw [howner hsame]
  exact h.resident (heq.trans hsame.symm)

theorem PlanReuses.advances (h : PlanReuses before plan) (hadv : Advances before after) :
    PlanReuses after plan := by
  rcases hadv with rfl | hnext
  · exact h
  · exact h.grow (by omega) fun heq => by omega

section Resolve

variable {existing fresh : ChunkVectors} {documentId : String}

/-- The vector a planned chunk gets: the new embedding, else the resident one. -/
def vectorFor (fresh existing : ChunkVectors) (chunkId : String) : Embedding :=
  (fresh[chunkId]?.or existing[chunkId]?).getD []

/-- The chunks of a document once every one of them has a vector. -/
def resolvedChunks (P : Primitives) (fresh existing : ChunkVectors)
    (documentId : String) (chunks : List PlanDocumentChunk) : Resolved where
  chunks := chunks.map fun chunk => ⟨chunk.chunkId, vectorFor fresh existing chunk.chunkId⟩
  newEmbeddings := eraseAll fresh (chunks.map (·.chunkId))
  added := (chunks.filter fun chunk => fresh.contains chunk.chunkId).map fun chunk =>
    ⟨chunk.chunkId, documentId, vectorFor fresh existing chunk.chunkId⟩
  addedWal := (chunks.filter fun chunk => fresh.contains chunk.chunkId).map fun chunk =>
    ⟨chunk.chunkId, documentId, Text.sha256Text P chunk.text, vectorFor fresh existing chunk.chunkId⟩

/-- Only the embeddings of the resolved chunks matter. -/
theorem resolvedChunks_congr {other : ChunkVectors}
    {chunks : List PlanDocumentChunk} (h : ∀ chunk ∈ chunks, other[chunk.chunkId]? = fresh[chunk.chunkId]?) :
    resolvedChunks P other existing documentId chunks = { resolvedChunks P fresh existing documentId chunks with
        newEmbeddings := eraseAll other (chunks.map (·.chunkId)) } := by
  have hvec : ∀ chunk ∈ chunks, vectorFor other existing chunk.chunkId =
      vectorFor fresh existing chunk.chunkId := fun chunk hchunk => by
    rw [vectorFor, vectorFor, h chunk hchunk]
  have hfilter : (chunks.filter fun chunk => other.contains chunk.chunkId) =
      chunks.filter fun chunk => fresh.contains chunk.chunkId := by
    apply List.filter_congr
    intro chunk hchunk
    rw [Std.ExtTreeMap.contains_eq_isSome_getElem?, Std.ExtTreeMap.contains_eq_isSome_getElem?, h chunk hchunk]
  have hadded : ∀ chunk ∈ chunks.filter (fun chunk => fresh.contains chunk.chunkId),
      vectorFor other existing chunk.chunkId = vectorFor fresh existing chunk.chunkId :=
    fun chunk hchunk => hvec chunk (List.mem_filter.mp hchunk).1
  simp only [resolvedChunks, hfilter]
  congr 1
  · exact List.map_congr_left fun chunk hchunk => by rw [hvec chunk hchunk]
  · exact List.map_congr_left fun chunk hchunk => by rw [hadded chunk hchunk]
  · exact List.map_congr_left fun chunk hchunk => by rw [hadded chunk hchunk]

/-- Distinct chunks that are all embedded or resident resolve. -/
theorem resolveChunks_eq (chunks : List PlanDocumentChunk) (hnodup : (chunks.map (·.chunkId)).Nodup)
    (hfound : ∀ chunk ∈ chunks, fresh[chunk.chunkId]? = none → ∃ vector, existing[chunk.chunkId]? = some vector) :
    resolveChunks P documentId existing chunks fresh = .ok (resolvedChunks P fresh existing documentId chunks) := by
  induction chunks generalizing fresh with
  | nil => rfl
  | cons chunk rest ih =>
    rw [List.map_cons, List.nodup_cons] at hnodup
    have hother : ∀ other ∈ rest, (fresh.erase chunk.chunkId)[other.chunkId]? = fresh[other.chunkId]? := by
      intro other hother
      rw [getElem?_erase, if_neg]
      exact fun heq => hnodup.1 (heq ▸ List.mem_map_of_mem hother)
    rw [resolveChunks]
    cases hfresh : fresh[chunk.chunkId]? with
    | some embedding =>
      have hrest := ih hnodup.2 fun other hmem hnone =>
          hfound other (List.mem_cons_of_mem _ hmem) (hother other hmem ▸ hnone)
      have hself : fresh.contains chunk.chunkId = true := (contains_iff _ _).mpr ⟨_, hfresh⟩
      have hselfVector : vectorFor fresh existing chunk.chunkId = embedding := by
        simp [vectorFor, hfresh]
      rw [hrest, resolvedChunks_congr hother]
      simp only [ok_bind, pure, Except.pure, resolvedChunks, List.map_cons,
        List.filter_cons, hself, if_true, hselfVector, eraseAll, List.foldl_cons]
    | none =>
      obtain ⟨vector, hvec⟩ := hfound chunk (by simp) hfresh
      have hrest := ih hnodup.2 (fun other hmem => hfound other (List.mem_cons_of_mem _ hmem))
      have herase : fresh.erase chunk.chunkId = fresh := erase_eq_self fresh hfresh
      have hself : fresh.contains chunk.chunkId = false := by
        rw [Std.ExtTreeMap.contains_eq_isSome_getElem?, hfresh, Option.isSome_none]
      have hselfVector : vectorFor fresh existing chunk.chunkId = vector := by
        simp [vectorFor, hfresh, hvec]
      simp only [hvec, hrest, ok_bind, pure, Except.pure, resolvedChunks, List.map_cons,
        List.filter_cons, hself, Bool.false_eq_true, if_false, hselfVector, eraseAll, List.foldl_cons,
        herase]

end Resolve

section Reuse

variable {index : VectorOnlyIndex} {skip : ChunkVectors}

/-- One turn of the collection of resident vectors. -/
theorem getElem?_reuseChunk (reused : ChunkVectors) (chunkId other : String) :
    (reuseChunk index skip reused chunkId)[other]? = reused[other]?.or
      (if chunkId = other ∧ skip[other]? = none then residentVector index other else none) := by
  rw [reuseChunk]
  by_cases heq : chunkId = other
  · subst heq
    cases hskip : skip[chunkId]? with
    | some vector =>
      have hhas : skip.contains chunkId = true := (contains_iff _ _).mpr ⟨vector, hskip⟩
      simp [hhas]
    | none =>
      have hhas : skip.contains chunkId = false := by
        rw [Std.ExtTreeMap.contains_eq_isSome_getElem?, hskip, Option.isSome_none]
      cases hreused : reused[chunkId]? with
      | some vector =>
        have hres : reused.contains chunkId = true := (contains_iff _ _).mpr ⟨vector, hreused⟩
        simp [hres, hreused]
      | none =>
        have hres : reused.contains chunkId = false := by
          rw [Std.ExtTreeMap.contains_eq_isSome_getElem?, hreused, Option.isSome_none]
        cases residentVector index chunkId <;> simp [hhas, hres, hreused]
  · have hother : ¬ (chunkId = other ∧ skip[other]? = none) := fun hand => heq hand.1
    simp only [hother, if_false, Option.or_none]
    split
    · rfl
    · cases residentVector index chunkId with
      | some vector => exact (getElem?_insert _ _ _ _).trans (if_neg heq)
      | none => rfl

/-- The collected vectors are the resident ones of the chunks that are not skipped. -/
theorem getElem?_reusableChunkVectors (chunkIds : List String) (chunkId : String) :
    (reusableChunkVectors index chunkIds skip)[chunkId]? =
      if chunkId ∈ chunkIds ∧ skip[chunkId]? = none then residentVector index chunkId else none := by
  have hrun : ∀ (rest : List String) (reused : ChunkVectors),
      (rest.foldl (reuseChunk index skip) reused)[chunkId]? = reused[chunkId]?.or
        (if chunkId ∈ rest ∧ skip[chunkId]? = none then residentVector index chunkId else none) := by
    intro rest
    induction rest with
    | nil => simp
    | cons first rest ih =>
      intro reused
      rw [List.foldl_cons, ih, getElem?_reuseChunk, Option.or_assoc]
      congr 1
      by_cases hskip : skip[chunkId]? = none
      · by_cases heq : first = chunkId
        · by_cases hmem : chunkId ∈ rest <;> simp [heq, hskip, hmem]
        · simp [heq, Ne.symm heq, hskip]
      · simp [hskip]
  have h := hrun chunkIds ∅
  rwa [Std.ExtTreeMap.getElem?_empty, Option.none_or] at h

/-- A chunk that its owner lists has a resident vector. -/
theorem exists_residentVector {documentId : String} (howner : index.chunkOwnerById[chunkId]? = some documentId)
    (hlist : HasChunk index.documents documentId chunkId) :
    ∃ vector, residentVector index chunkId = some vector := by
  obtain ⟨record, hrec, hchunk⟩ := hlist
  obtain ⟨chunk, hmem, hid⟩ := List.mem_map.mp hchunk
  obtain ⟨found, hfound⟩ : ∃ found, record.chunks.find? (·.chunkId = chunkId) = some found := by
    rw [← Option.isSome_iff_exists, List.find?_isSome]
    exact ⟨chunk, hmem, by simpa using hid⟩
  exact ⟨found.vector, by
    simp [Engine.residentVector, VectorOnlyIndex.documentForChunk, howner, hrec, hfound]⟩

end Reuse

end LodeDB.Engine
