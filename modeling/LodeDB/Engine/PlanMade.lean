import LodeDB.Engine.Serviceable
import LodeDB.Engine.TextLoop

/-!
# Plans that were made, and where applying them stops

A plan is made against an index and applied to one of the same generation. A chunk id is embedded or reused
everywhere in the plan alike. Applying it can only stop at a chunk id to embed that is listed twice: the first
listing uses the embedding up.
-/

namespace LodeDB.Engine

open ExceptRules TreeMapRules
open Text (ChunkOf)

variable {P : Primitives} {index : VectorOnlyIndex} {plan : IngestPlan}

/-- A plan made against an index with the same owners, if its generation still stands. -/
structure PlanMade (P : Primitives) (index : VectorOnlyIndex) (plan : IngestPlan) : Prop where
  toEmbed : plan.chunksToEmbed = chunksToEmbed plan.documents
  chunkOf : ∀ document ∈ plan.documents, ∀ chunkId ∈ document.chunkIds, ChunkOf P document.documentId chunkId
  notAhead : plan.baseGeneration ≤ index.generation
  decided : plan.baseGeneration = index.generation → ∀ document ∈ plan.documents, ∀ chunk ∈ document.chunks,
    chunk.needsEmbedding = !index.chunkOwnerById.contains chunk.chunkId

/-- A plan is made against the index it was prepared on. -/
theorem planMade_prepareTextUpsert {documents : List CoreDocument} {policy : TextPolicy} {chunkCharacterLimit : ℕ}
    (hplan : prepareTextUpsert P index documents policy chunkCharacterLimit = .ok plan) : PlanMade P index plan := by
  obtain ⟨prepared, hprep, rfl⟩ := prepareTextUpsert_eq_ok hplan
  refine ⟨rfl, ?_, le_rfl, ?_⟩
  · intro document hdoc chunkId hchunk
    obtain ⟨pieces, hchunks⟩ := exists_planChunks hprep hdoc
    obtain ⟨chunk, hmem, rfl⟩ := List.mem_map.mp hchunk
    exact (plannedFor_of_mem (hchunks ▸ hmem)).chunkOf
  · intro _ document hdoc chunk hchunk
    obtain ⟨pieces, hchunks⟩ := exists_planChunks hprep hdoc
    exact (plannedFor_of_mem (hchunks ▸ hchunk)).needs

/-- A plan stays made while calls leave the index alone or move it on. -/
theorem PlanMade.advances {before after : VectorOnlyIndex} (h : PlanMade P before plan)
    (hadv : Advances before after) : PlanMade P after plan := by
  rcases hadv with rfl | hnext
  · exact h
  · have hbehind := h.notAhead
    exact ⟨h.toEmbed, h.chunkOf, by omega, fun heq => by omega⟩

section Resolve

variable {existing fresh : ChunkVectors} {documentId : String}
  {chunks : List PlanDocumentChunk}

/-- The chunk ids that have no vector to reuse. -/
def lacking (existing : ChunkVectors) (chunkIds : List String) : List String :=
  chunkIds.filter fun chunkId => !existing.contains chunkId

/-- What resolving chunks leaves. -/
structure Resolves (existing fresh : ChunkVectors) (chunks : List PlanDocumentChunk)
    (resolved : Resolved) : Prop where
  chunkIds : resolved.chunks.map (·.chunkId) = chunks.map (·.chunkId)
  vectors : ∀ stored ∈ resolved.chunks, fresh[stored.chunkId]? = some stored.vector ∨
    existing[stored.chunkId]? = some stored.vector
  newEmbeddings : resolved.newEmbeddings = eraseAll fresh (chunks.map (·.chunkId))
  added : ∀ chunk ∈ resolved.added, fresh[chunk.chunkId]? = some chunk.embedding
  addedCount : resolved.added.length ≤ chunks.length

theorem resolves_of_resolveChunks {resolved : Resolved}
    (h : resolveChunks P documentId existing chunks fresh = .ok resolved) :
    Resolves existing fresh chunks resolved := by
  induction chunks generalizing fresh resolved with
  | nil =>
    cases Except.ok.inj h
    exact ⟨rfl, by simp, rfl, by simp, le_rfl⟩
  | cons chunk rest ih =>
    rw [resolveChunks] at h
    rcases Option.eq_none_or_eq_some fresh[chunk.chunkId]? with hnone | ⟨embedding, hemb⟩
    · rw [hnone] at h
      dsimp only at h
      rcases Option.eq_none_or_eq_some existing[chunk.chunkId]? with hmiss | ⟨vector, hvec⟩
      · rw [hmiss] at h
        cases h
      · rw [hvec] at h
        obtain ⟨tail, htail, hresol⟩ := bind_eq_ok.mp h
        cases Except.ok.inj hresol
        have hrest := ih htail
        refine ⟨?_, ?_, ?_, hrest.added, Nat.le_succ_of_le hrest.addedCount⟩
        · rw [List.map_cons, List.map_cons, hrest.chunkIds]
        · intro stored hsto
          rcases List.mem_cons.mp hsto with rfl | hsto
          · exact .inr hvec
          · exact hrest.vectors stored hsto
        · rw [hrest.newEmbeddings, List.map_cons, eraseAll, eraseAll, List.foldl_cons, erase_eq_self fresh hnone]
    · rw [hemb] at h
      obtain ⟨tail, htail, hresol⟩ := bind_eq_ok.mp h
      cases Except.ok.inj hresol
      have hrest := ih htail
      refine ⟨?_, ?_, hrest.newEmbeddings, ?_, Nat.succ_le_succ hrest.addedCount⟩
      · rw [List.map_cons, List.map_cons, hrest.chunkIds]
      · intro stored hsto
        rcases List.mem_cons.mp hsto with rfl | hsto
        · exact .inl hemb
        · exact (hrest.vectors stored hsto).imp_left fun hfound => (of_getElem?_erase hfound).2
      · intro added hadded
        rcases List.mem_cons.mp hadded with rfl | hadded
        · exact hemb
        · exact (of_getElem?_erase (hrest.added added hadded)).2

/-- Chunks resolve exactly when those without a vector to reuse are distinct and embedded. -/
theorem resolveChunks_isOk_iff (hapart : ∀ chunkId, existing.contains chunkId = true → fresh.contains chunkId = false) :
    (∃ resolved, resolveChunks P documentId existing chunks fresh = .ok resolved) ↔
      (lacking existing (chunks.map (·.chunkId))).Nodup ∧
        ∀ chunkId ∈ lacking existing (chunks.map (·.chunkId)), fresh.contains chunkId = true := by
  induction chunks generalizing fresh with
  | nil => simp [resolveChunks, lacking]
  | cons chunk rest ih =>
    rw [resolveChunks, List.map_cons]
    rcases Option.eq_none_or_eq_some fresh[chunk.chunkId]? with hnone | ⟨embedding, hemb⟩
    · have hfresh : fresh.contains chunk.chunkId = false := by
        rw [Std.ExtTreeMap.contains_eq_isSome_getElem?, hnone, Option.isSome_none]
      rw [hnone]
      rcases Option.eq_none_or_eq_some existing[chunk.chunkId]? with hmiss | ⟨vector, hvec⟩
      · have habsent : existing.contains chunk.chunkId = false := by
          rw [Std.ExtTreeMap.contains_eq_isSome_getElem?, hmiss, Option.isSome_none]
        rw [hmiss]
        constructor
        · rintro ⟨resolved, hresol⟩
          cases hresol
        · rintro ⟨-, hfound⟩
          have hself : chunk.chunkId ∈ lacking existing (chunk.chunkId :: rest.map (·.chunkId)) := by
            simp [lacking, habsent]
          rw [hfound _ hself] at hfresh
          cases hfresh
      · have hpres : existing.contains chunk.chunkId = true := (contains_iff _ _).mpr ⟨vector, hvec⟩
        rw [hvec]
        have hskip : lacking existing (chunk.chunkId :: rest.map (·.chunkId)) =
            lacking existing (rest.map (·.chunkId)) := by simp [lacking, hpres]
        rw [hskip, ← ih hapart]
        constructor
        · rintro ⟨resolved, hresol⟩
          obtain ⟨tail, htail, -⟩ := bind_eq_ok.mp hresol
          exact ⟨tail, htail⟩
        · rintro ⟨tail, htail⟩
          exact ⟨_, by dsimp only; rw [htail]; rfl⟩
    · have hfresh : fresh.contains chunk.chunkId = true := (contains_iff _ _).mpr ⟨embedding, hemb⟩
      have habsent : existing.contains chunk.chunkId = false := by
        rw [← Bool.not_eq_true]
        intro hpres
        rw [hapart _ hpres] at hfresh
        cases hfresh
      have htake : lacking existing (chunk.chunkId :: rest.map (·.chunkId)) =
          chunk.chunkId :: lacking existing (rest.map (·.chunkId)) := by simp [lacking, habsent]
      have herased : ∀ chunkId, (fresh.erase chunk.chunkId).contains chunkId = true ↔
          chunkId ≠ chunk.chunkId ∧ fresh.contains chunkId = true := by
        intro chunkId
        rw [contains_iff, contains_iff, getElem?_erase]
        by_cases hsame : chunk.chunkId = chunkId
        · simp [hsame]
        · simp [hsame, Ne.symm hsame]
      have hapartRest : ∀ chunkId, existing.contains chunkId = true →
          (fresh.erase chunk.chunkId).contains chunkId = false := by
        intro chunkId hpres
        rw [← Bool.not_eq_true, herased, hapart chunkId hpres]
        simp
      have hrest := ih hapartRest
      rw [hemb, htake, List.nodup_cons]
      constructor
      · rintro ⟨resolved, hresol⟩
        obtain ⟨tail, htail, -⟩ := bind_eq_ok.mp hresol
        obtain ⟨hnodup, hfound⟩ := hrest.mp ⟨tail, htail⟩
        refine ⟨⟨fun hmem => ((herased _).mp (hfound _ hmem)).1 rfl, hnodup⟩, fun chunkId hmem => ?_⟩
        rcases List.mem_cons.mp hmem with rfl | hmem
        · exact hfresh
        · exact ((herased _).mp (hfound chunkId hmem)).2
      · rintro ⟨⟨hnew, hnodup⟩, hfound⟩
        obtain ⟨tail, htail⟩ := hrest.mpr ⟨hnodup, fun chunkId hmem => (herased _).mpr
          ⟨fun heq => hnew (heq ▸ hmem), hfound chunkId (List.mem_cons_of_mem _ hmem)⟩⟩
        exact ⟨_, by dsimp only; rw [htail]; rfl⟩

end Resolve

end LodeDB.Engine
