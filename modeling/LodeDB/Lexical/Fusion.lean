import LodeDB.Filter.Predicate
import LodeDB.Lib.Occurrence
import LodeDB.Lib.Ranking
import LodeDB.Lib.TreeMap
import Mathlib.Algebra.Order.Field.Rat

/-!
# Reciprocal rank fusion

The engine fuses a vector ranking and a lexical ranking of whole hits through a hash map, the reference any number of
ranked id lists. Both add, for each list, the reciprocal of the smoothed rank at which an id first stands in it, and
rank the sums by descending score, then by ascending id. Scores are rationals.
-/

namespace LodeDB.Lexical

open LodeDB.Filter (Metadata)
open Occurrence Ranking TreeMapRules

variable {scores : Std.ExtTreeMap String ℚ compare}

/-- The smoothing constant of the fusion. -/
def rrfC : ℚ := 60

/-- One search hit, with its score in `S`. -/
structure CoreSearchHit (S : Type*) where
  documentId : String
  chunkId : String
  score : S
  metadata : Metadata

/-- The order in which a hash table yields its entries: some permutation of them. -/
structure HashOrder where
  arrange : {α : Type} → List α → List α
  perm : ∀ {α : Type} (entries : List α), (arrange entries).Perm entries

/-- A table that yields its entries backwards. -/
def HashOrder.backwards : HashOrder := ⟨List.reverse, List.reverse_perm⟩

/-- The updates a ranked list makes to the fused scores, at each id's first position. -/
def rankingUpdates (c weight : ℚ) (ranking : List String) : List (String × (Option ℚ → ℚ)) :=
  (firstVisits id [] 0 ranking).map fun visit =>
    (visit.1, fun score => score.getD 0 + weight / (c + (visit.2 + 1)))

/-- Fuse ranked id lists. -/
def reciprocalRankFusion (rankings : List (List String)) (c : ℚ) (weights : Option (List ℚ)) :
    Except CoreError (List (String × ℚ)) :=
  if weights.any fun weights => weights.length ≠ rankings.length then
    .error (invalid "weights must align with rankings")
  else
    let fused := rankings.zipIdx.foldl (fun (fused : Std.ExtTreeMap String ℚ compare) ranker =>
      let weight := (weights.bind fun values => values[ranker.2]?).getD 1
      updateAll fused (rankingUpdates c weight ranker.1)) ∅
    .ok (ranked fused.toList)

/-- The fused hits: for each chunk id, the sum so far and the hit that brought it in. -/
abbrev FusedHits := Std.ExtTreeMap String (ℚ × CoreSearchHit ℚ) compare

/-- The updates a ranking makes to the fused hits, at each chunk id's first position. -/
def rrfUpdates (hits : List (CoreSearchHit ℚ)) :
    List (String × (Option (ℚ × CoreSearchHit ℚ) → ℚ × CoreSearchHit ℚ)) :=
  (firstVisits CoreSearchHit.chunkId [] 0 hits).map fun visit =>
    let contribution := 1 / (rrfC + visit.2 + 1)
    (visit.1.chunkId, fun entry =>
      match entry with
      | some (score, hit) => (score + contribution, hit)
      | none => (contribution, visit.1))

/-- Add one ranking of hits to the fused hits. -/
def addRrfHits (fused : FusedHits) (hits : List (CoreSearchHit ℚ)) : FusedHits :=
  updateAll fused (rrfUpdates hits)

/-- The order the engine sorts fused rows in. -/
def RowBefore (left right : ℚ × CoreSearchHit ℚ) : Prop :=
  Before (left.2.chunkId, left.1) (right.2.chunkId, right.1)

instance : DecidableRel RowBefore := fun left right => by
  unfold RowBefore
  infer_instance

variable (order : HashOrder) (vectorHits lexicalHits : List (CoreSearchHit ℚ))

/-- Fuse the hits of a vector query with those of a lexical query. -/
def fuseHybridHits (topK : ℕ) : List (CoreSearchHit ℚ) :=
  let fused := addRrfHits (addRrfHits ∅ vectorHits) lexicalHits
  let rows := order.arrange (fused.toList.map Prod.snd)
  ((rows.insertionSort RowBefore).take topK).map fun row => { row.2 with score := row.1 }

/-- What one list adds to the score of an id: the reciprocal of the smoothed rank at which it first stands there, if
it does. -/
def reciprocalRank (ranking : List String) (id : String) : ℚ :=
  if id ∈ ranking then 1 / (rrfC + (ranking.idxOf id + 1)) else 0

variable (vectorIds lexicalIds : List String)

/-- The score of an id in the fusion of two lists. -/
def fusedScore (id : String) : ℚ :=
  reciprocalRank vectorIds id + reciprocalRank lexicalIds id

theorem rankingUpdates_fst (c weight : ℚ) (ranking : List String) :
    (rankingUpdates c weight ranking).map Prod.fst = (firstVisits id [] 0 ranking).map fun visit => id visit.1 := by
  rw [rankingUpdates, List.map_map]
  rfl

/-- One list adds the reciprocal of the smoothed rank to the ids it holds. -/
theorem getElem?_rankingUpdates (fused : Std.ExtTreeMap String ℚ compare) (ranking : List String) (id : String) :
    (updateAll fused (rankingUpdates rrfC 1 ranking))[id]? =
      if id ∈ ranking then some (fused[id]?.getD 0 + reciprocalRank ranking id) else fused[id]? := by
  have hkeys : id ∈ (rankingUpdates rrfC 1 ranking).map Prod.fst ↔ id ∈ ranking := by
    rw [rankingUpdates_fst, mem_map_firstVisits]
    simp
  split
  · rename_i hid
    obtain ⟨update, hupd, heq⟩ := List.mem_map.mp (hkeys.mpr hid)
    have hnodup : ((rankingUpdates rrfC 1 ranking).map Prod.fst).Nodup := by
      rw [rankingUpdates_fst]
      exact nodup_map_firstVisits _ _ _ _
    rw [← heq, getElem?_updateAll_of_mem fused _ hnodup hupd, heq]
    obtain ⟨visit, hvisit, rfl⟩ := List.mem_map.mp hupd
    have hpos := snd_of_mem_firstVisits _ hvisit
    simp only [List.map_id_fun, id_eq, Nat.zero_add] at hpos heq
    rw [hpos, heq, reciprocalRank, if_pos hid]
  · rename_i hid
    exact getElem?_updateAll_of_notMem _ _ _ fun h => hid (hkeys.mp h)

/-- The scores the reference accumulates over two lists. -/
def fusedScores : Std.ExtTreeMap String ℚ compare :=
  updateAll (updateAll ∅ (rankingUpdates rrfC 1 vectorIds)) (rankingUpdates rrfC 1 lexicalIds)

/-- Exactly the ids of either list have a score, the sum of what the lists add. -/
theorem getElem?_fusedScores (id : String) :
    (fusedScores vectorIds lexicalIds)[id]? =
      if id ∈ vectorIds ∨ id ∈ lexicalIds then some (fusedScore vectorIds lexicalIds id) else none := by
  rw [fusedScores, getElem?_rankingUpdates, getElem?_rankingUpdates, fusedScore]
  by_cases hvec : id ∈ vectorIds
  · by_cases hlexical : id ∈ lexicalIds
    · simp [hvec, hlexical]
    · simp [hvec, hlexical, reciprocalRank]
  · by_cases hlexical : id ∈ lexicalIds
    · simp [hvec, hlexical, reciprocalRank]
    · simp [hvec, hlexical]

/-- The reference ranks the accumulated scores. -/
theorem reciprocalRankFusion_pair :
    reciprocalRankFusion [vectorIds, lexicalIds] rrfC none =
      .ok (ranked (fusedScores vectorIds lexicalIds).toList) := rfl

/-- The fused hits carry the reference's scores, each under the chunk id of its hit. -/
structure Carries (fused : FusedHits) (scores : Std.ExtTreeMap String ℚ compare) : Prop where
  score : ∀ id : String, fused[id]?.map Prod.fst = scores[id]?
  chunkId : ∀ (id : String) (row : ℚ × CoreSearchHit ℚ), fused[id]? = some row → row.2.chunkId = id

theorem Carries.empty : Carries ∅ ∅ := ⟨by simp, by simp⟩

theorem rrfUpdates_fst (hits : List (CoreSearchHit ℚ)) :
    (rrfUpdates hits).map Prod.fst =
      (firstVisits CoreSearchHit.chunkId [] 0 hits).map fun visit => visit.1.chunkId := by
  rw [rrfUpdates, List.map_map]
  rfl

variable {hits : List (CoreSearchHit ℚ)}

/-- A chunk id the ranking does not hold keeps its entry. -/
theorem getElem?_addRrfHits_of_notMem (fused : FusedHits) {id : String} (hid : id ∉ hits.map (·.chunkId)) :
    (addRrfHits fused hits)[id]? = fused[id]? := by
  refine getElem?_updateAll_of_notMem _ _ _ ?_
  rw [rrfUpdates_fst, mem_map_firstVisits]
  exact fun hvis => hid hvis.1

/-- A chunk id of the ranking gains its reciprocal rank, and keeps its hit. -/
theorem getElem?_addRrfHits_of_mem (fused : FusedHits) {id : String} (hid : id ∈ hits.map (·.chunkId)) :
    ∃ hit : CoreSearchHit ℚ, hit.chunkId = id ∧ (addRrfHits fused hits)[id]? = some (match fused[id]? with
        | some (score, kept) => (score + reciprocalRank (hits.map (·.chunkId)) id, kept)
        | none => (reciprocalRank (hits.map (·.chunkId)) id, hit)) := by
  have hvis : id ∈ (firstVisits CoreSearchHit.chunkId [] 0 hits).map fun visit => visit.1.chunkId :=
    (mem_map_firstVisits _).mpr ⟨hid, List.not_mem_nil⟩
  obtain ⟨visit, hvisit, rfl⟩ := List.mem_map.mp hvis
  have hpos := snd_of_mem_firstVisits _ hvisit
  rw [Nat.zero_add] at hpos
  have hnodup : ((rrfUpdates hits).map Prod.fst).Nodup := by
    rw [rrfUpdates_fst]
    exact nodup_map_firstVisits _ _ _ _
  refine ⟨visit.1, rfl, ?_⟩
  rw [addRrfHits, getElem?_updateAll_of_mem fused _ hnodup (List.mem_map_of_mem hvisit),
    reciprocalRank, if_pos hid, hpos, add_assoc]

variable {fused : FusedHits}

/-- Adding a ranking of hits adds the ranking of their chunk ids. -/
theorem Carries.addRrfHits (h : Carries fused scores) (hits : List (CoreSearchHit ℚ)) :
    Carries (addRrfHits fused hits) (updateAll scores (rankingUpdates rrfC 1 (hits.map (·.chunkId)))) := by
  constructor
  · intro id
    rw [getElem?_rankingUpdates, ← h.score id]
    by_cases hid : id ∈ hits.map (·.chunkId)
    · obtain ⟨hit, -, hfound⟩ := getElem?_addRrfHits_of_mem fused hid
      rw [if_pos hid, hfound]
      cases fused[id]? with
      | none => simp
      | some row => simp
    · rw [if_neg hid, getElem?_addRrfHits_of_notMem fused hid]
  · intro id row hrow
    by_cases hid : id ∈ hits.map (·.chunkId)
    · obtain ⟨hit, hchunk, hfound⟩ := getElem?_addRrfHits_of_mem fused hid
      rw [hfound] at hrow
      rcases Option.eq_none_or_eq_some fused[id]? with hsto | ⟨stored, hsto⟩
      · rw [hsto] at hrow
        rw [← Option.some.inj hrow]
        exact hchunk
      · rw [hsto] at hrow
        rw [← Option.some.inj hrow]
        exact h.chunkId id stored hsto
    · rw [getElem?_addRrfHits_of_notMem fused hid] at hrow
      exact h.chunkId id row hrow

/-- The rows of the fused hits are the reference's rows, chunk id by chunk id. -/
theorem Carries.rows (h : Carries fused scores) :
    (fused.toList.map Prod.snd).map (fun row => (row.2.chunkId, row.1)) = scores.toList := by
  have hscores : scores = fused.map fun _ row => row.1 := by
    apply Std.ExtTreeMap.ext_getElem?
    intro id
    rw [Std.ExtTreeMap.getElem?_map, ← h.score]
  rw [hscores, Std.ExtTreeMap.toList_map, List.map_map]
  apply List.map_congr_left
  intro entry hentry
  have hfound := Std.ExtTreeMap.mem_toList_iff_getElem?_eq_some.mp hentry
  simp [h.chunkId entry.1 entry.2 hfound]

/-- The fused hits of two rankings are the first rows of the reference's fusion. -/
theorem fuseHybridHits_rows (topK : ℕ) :
    (fuseHybridHits order vectorHits lexicalHits topK).map (fun hit => (hit.chunkId, hit.score)) =
      (ranked (fusedScores (vectorHits.map (·.chunkId)) (lexicalHits.map (·.chunkId))).toList).take topK := by
  have hcarries := (Carries.empty.addRrfHits vectorHits).addRrfHits lexicalHits
  set rows := order.arrange
    ((addRrfHits (addRrfHits ∅ vectorHits) lexicalHits).toList.map Prod.snd) with hrows
  have hperm : (rows.map fun row => (row.2.chunkId, row.1)).Perm
      (fusedScores (vectorHits.map (·.chunkId)) (lexicalHits.map (·.chunkId))).toList := by
    rw [fusedScores, ← hcarries.rows]
    exact (order.perm _).map _
  -- Sorting the rows by score and chunk id is sorting their (chunk id, score) pairs.
  have hsorted : (rows.insertionSort RowBefore).map (fun row => (row.2.chunkId, row.1)) =
      ranked (rows.map fun row => (row.2.chunkId, row.1)) :=
    List.map_insertionSort _ _ _ rows fun _ _ _ _ => Iff.rfl
  rw [fuseHybridHits, List.map_map, ← ranked_eq_of_perm hperm, ← hsorted, List.map_take]
  rfl

/-- The fused hits hold each chunk once, in rank order of the summed reciprocal ranks, and are the
first rows of the reference fusion of the two chunk id lists; every chunk comes from one of them. -/
theorem fuseHybridHits_eq_reciprocalRankFusion (order : HashOrder)
    (vectorHits lexicalHits : List (CoreSearchHit ℚ)) (topK : ℕ) :
    let vectorIds := vectorHits.map (·.chunkId)
    let lexicalIds := lexicalHits.map (·.chunkId)
    let fused := fuseHybridHits order vectorHits lexicalHits topK
    (fused.map (·.chunkId)).Nodup ∧ fused.Pairwise (fun left right =>
        right.score < left.score ∨ (left.score = right.score ∧ left.chunkId < right.chunkId)) ∧
      (∀ hit ∈ fused, hit.score = fusedScore vectorIds lexicalIds hit.chunkId) ∧
      (∀ hit ∈ fused, hit.chunkId ∈ vectorIds ∨ hit.chunkId ∈ lexicalIds) ∧
      (reciprocalRankFusion [vectorIds, lexicalIds] rrfC none).map (fun rows => rows.take topK) =
        .ok (fused.map fun hit => (hit.chunkId, hit.score)) := by
  intro vectorIds lexicalIds fused
  have hrows := fuseHybridHits_rows order vectorHits lexicalHits topK
  set scores := fusedScores vectorIds lexicalIds with hscores
  have hnodup : (fused.map (·.chunkId)).Nodup := by
    have hkeys := keys_nodup scores
    rw [← Std.ExtTreeMap.map_fst_toList_eq_keys] at hkeys
    have htaken := ((((ranked_perm scores.toList).map Prod.fst).nodup_iff).mpr hkeys).sublist
      ((List.take_sublist topK _).map Prod.fst)
    rw [← hrows, List.map_map] at htaken
    exact htaken
  have hread : ∀ hit ∈ fused, scores[hit.chunkId]? = some hit.score := by
    intro hit hhit
    have hmem : (hit.chunkId, hit.score) ∈ (ranked scores.toList).take topK := by
      rw [← hrows]
      exact List.mem_map_of_mem hhit
    exact Std.ExtTreeMap.mem_toList_iff_getElem?_eq_some.mp
      ((ranked_perm _).mem_iff.mp (List.mem_of_mem_take hmem))
  have hmember : ∀ hit ∈ fused, (hit.chunkId ∈ vectorIds ∨ hit.chunkId ∈ lexicalIds) ∧
      hit.score = fusedScore vectorIds lexicalIds hit.chunkId := by
    intro hit hhit
    have hfound := hread hit hhit
    rw [hscores, getElem?_fusedScores] at hfound
    split at hfound
    · rename_i hlisted
      exact ⟨hlisted, (Option.some.inj hfound).symm⟩
    · cases hfound
  have hordered : fused.Pairwise fun left right =>
      Before (left.chunkId, left.score) (right.chunkId, right.score) := by
    have hpairs := (ranked_pairwise scores.toList).sublist (List.take_sublist topK _)
    rw [← hrows, List.pairwise_map] at hpairs
    exact hpairs
  refine ⟨hnodup, ?_, fun hit hhit => (hmember hit hhit).2, fun hit hhit => (hmember hit hhit).1, ?_⟩
  · rw [List.Nodup, List.pairwise_map] at hnodup
    refine (hordered.and hnodup).imp ?_
    rintro left right ⟨hlower | ⟨hsame, hle⟩, hne⟩
    · exact .inl hlower
    · exact .inr ⟨hsame, lt_of_le_of_ne hle hne⟩
  · rw [reciprocalRankFusion_pair, hrows]
    rfl

/-- A chunk that both lists hold comes first, out of a table that yields it last. -/
theorem fuseHybridHits_eq_reciprocalRankFusion_shared :
    let hit (chunkId : String) : CoreSearchHit ℚ := ⟨"d", chunkId, 0, ∅⟩
    let fused := fuseHybridHits .backwards [hit "c", hit "a"] [hit "a", hit "b"] 2
    fused.map (·.chunkId) = ["a", "c"] ∧
      (reciprocalRankFusion [["c", "a"], ["a", "b"]] rrfC none).map (·.take 2) =
        .ok (fused.map fun hit => (hit.chunkId, hit.score)) := by
  intro hit fused
  refine ⟨by decide +kernel, ?_⟩
  exact (fuseHybridHits_eq_reciprocalRankFusion .backwards [hit "c", hit "a"] [hit "a", hit "b"] 2).2.2.2.2

end LodeDB.Lexical
