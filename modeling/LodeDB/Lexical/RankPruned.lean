import LodeDB.Lexical.MaxScore
import Mathlib.Algebra.Order.Ring.Rat
import Mathlib.Data.Nat.Cast.Order.Ring

/-!
# A bounded ranking is the head of the exhaustive one

The serving snapshot holds, term by term, the contributions the exhaustive scan adds up, so both
score the same positions with the same sums, and the bounded scan returns the first rows of the
exhaustive ranking.
-/

namespace LodeDB.Lexical

open SortedSet TreeMapRules Ranking
open Text (tokenize)
open MaxScore (scoreAt totalScore positions rowAt rowsOf)

variable {S : Type*} [AddCommMonoid S] [LinearOrder S]

variable {posting : Std.ExtTreeMap ℕ ℕ compare} {term : String}

namespace Bm25Index

variable (scoring : Scoring S) (index : Bm25Index)

/-- What a term contributes to a position, if it weighs anything and is there. -/
def termScore (term : String) (pos : ℕ) : Option S :=
  if index.idf scoring term ≤ 0 then none
  else (index.postings[term]?.bind fun posting => posting[pos]?).bind fun termFrequency =>
    index.contribution scoring (index.idf scoring term) pos termFrequency

/-- The entries collected for a term are its contributions. -/
theorem mem_servingEntries {idf : S} {entry : ServingPosting S} :
    entry ∈ index.servingEntries scoring idf posting ↔ (posting[entry.pos]?.bind fun termFrequency =>
        index.contribution scoring idf entry.pos termFrequency) = some entry.score := by
  rw [servingEntries, List.mem_filterMap]
  constructor
  · rintro ⟨⟨pos, termFrequency⟩, hentry, hmade⟩
    obtain ⟨score, hscore, rfl⟩ := Option.map_eq_some_iff.mp hmade
    rw [Std.ExtTreeMap.mem_toList_iff_getElem?_eq_some.mp hentry]
    exact hscore
  · intro h
    obtain ⟨termFrequency, hpost, hscore⟩ := Option.bind_eq_some_iff.mp h
    exact ⟨(entry.pos, termFrequency), Std.ExtTreeMap.mem_toList_iff_getElem?_eq_some.mpr hpost, by rw [hscore]; rfl⟩

/-- A serving term scores a position with the term's contribution. -/
theorem scoreAt_of_servingTerm {serving : ServingTerm S} (hpost : index.postings[term]? = some posting)
    (hserv : index.servingTerm scoring term posting = some serving) (pos : ℕ) :
    scoreAt serving pos = index.termScore scoring term pos := by
  unfold servingTerm at hserv
  simp only at hserv
  split at hserv
  · cases hserv
  · rename_i hidf
    split at hserv
    · cases hserv
    · have hposts : serving.postings =
          (index.servingEntries scoring (index.idf scoring term) posting).insertionSort PosLe := by
        rw [← Option.some.inj hserv]
      have hmem : ∀ score, (⟨pos, score⟩ : ServingPosting S) ∈ serving.postings ↔
          index.termScore scoring term pos = some score := by
        intro score
        rw [hposts, List.mem_insertionSort, mem_servingEntries, termScore, if_neg hidf, hpost]
        rfl
      refine Option.ext fun score => ?_
      rw [← hmem]
      constructor
      · exact fun h => MaxScore.scoreAt_eq_some h
      · intro h
        obtain ⟨found, hfound⟩ := MaxScore.exists_scoreAt h
        rw [hfound]
        exact ((hmem found).mp (MaxScore.scoreAt_eq_some hfound)).symm.trans ((hmem score).mp h)

/-- A term without a serving term contributes nothing. -/
theorem termScore_of_servingTerm_none (hpost : index.postings[term]? = some posting)
    (hserv : index.servingTerm scoring term posting = none) (pos : ℕ) :
    index.termScore scoring term pos = none := by
  unfold servingTerm at hserv
  simp only at hserv
  split at hserv
  · rename_i hidf
    rw [termScore, if_pos hidf]
  · rename_i hidf
    split at hserv
    · rename_i hnone
      rcases Option.eq_none_or_eq_some (index.termScore scoring term pos) with h | ⟨score, h⟩
      · exact h
      · rw [termScore, if_neg hidf, hpost] at h
        have hentry : (⟨pos, score⟩ : ServingPosting S) ∈
            index.servingEntries scoring (index.idf scoring term) posting :=
          (index.mem_servingEntries scoring).mpr h
        rw [hnone] at hentry
        cases hentry
    · cases hserv

/-- The snapshot serves a term exactly with its contributions. -/
theorem scoreAt_buildServing (term : String) (pos : ℕ) :
    ((index.buildServing scoring)[term]?.bind fun serving => scoreAt serving pos) =
      index.termScore scoring term pos := by
  rw [buildServing, getElem?_collect]
  rcases Option.eq_none_or_eq_some index.postings[term]? with hnone | ⟨posting, hpost⟩
  · simp [hnone, termScore]
  · rw [hpost, Option.bind_some]
    rcases Option.eq_none_or_eq_some (index.servingTerm scoring term posting) with
      hserv | ⟨serving, hserv⟩
    · rw [hserv, index.termScore_of_servingTerm_none scoring hpost hserv]
      rfl
    · rw [hserv, Option.bind_some, index.scoreAt_of_servingTerm scoring hpost hserv]

variable (allowed : Option (Finset ℕ))

/-- The updates of one term: its contribution at every position the request admits. -/
theorem getElem?_referenceUpdates (term : String) (scores : Std.ExtTreeMap ℕ S compare) (pos : ℕ) :
    (updateAll scores (index.referenceUpdates scoring allowed term))[pos]? = if admits allowed pos then
        ((index.termScore scoring term pos).map fun contribution =>
          scores[pos]?.getD 0 + contribution).or scores[pos]? else scores[pos]? := by
  unfold referenceUpdates
  rcases Option.eq_none_or_eq_some index.postings[term]? with hnone | ⟨posting, hpost⟩
  · have hscore : index.termScore scoring term pos = none := by simp [termScore, hnone]
    simp [hnone, hscore, updateAll]
  rw [hpost]
  by_cases hidf : index.idf scoring term ≤ 0
  · have hscore : index.termScore scoring term pos = none := by rw [termScore, if_pos hidf]
    simp [hidf, hscore, updateAll]
  simp only [if_neg hidf]
  have hscore : index.termScore scoring term pos = posting[pos]?.bind fun termFrequency =>
      index.contribution scoring (index.idf scoring term) pos termFrequency := by
    rw [termScore, if_neg hidf, hpost]
    rfl
  rw [hscore]
  set f : ℕ × ℕ → Option (ℕ × (Option S → S)) := fun entry =>
    if admits allowed entry.1 then
      (index.contribution scoring (index.idf scoring term) entry.1 entry.2).map fun contribution =>
        (entry.1, fun score => score.getD 0 + contribution)
    else none with hf
  have hmade : ∀ entry made, f entry = some made → made.1 = entry.1 ∧ admits allowed entry.1 ∧
      ∃ contribution, index.contribution scoring (index.idf scoring term) entry.1 entry.2 = some contribution := by
    intro entry made h
    rw [hf] at h
    simp only at h
    split at h
    · rename_i hadmits
      obtain ⟨contribution, hcontrib, rfl⟩ := Option.map_eq_some_iff.mp h
      exact ⟨rfl, hadmits, contribution, hcontrib⟩
    · cases h
  -- A position the term does not contribute to, or that is not admitted, is not updated.
  have hkept : (admits allowed pos → (posting[pos]?.bind fun termFrequency =>
        index.contribution scoring (index.idf scoring term) pos termFrequency) = none) →
      (updateAll scores (posting.toList.filterMap f))[pos]? = scores[pos]? := by
    intro hnone
    refine getElem?_updateAll_of_notMem _ _ _ fun hmem => ?_
    obtain ⟨made, hfound, rfl⟩ := List.mem_map.mp hmem
    obtain ⟨entry, hentry, hf'⟩ := List.mem_filterMap.mp hfound
    obtain ⟨heq, hadmits, contribution, hcontrib⟩ := hmade entry made hf'
    rw [heq] at hnone
    have hbind := hnone hadmits
    rw [Std.ExtTreeMap.mem_toList_iff_getElem?_eq_some.mp hentry, Option.bind_some, hcontrib] at hbind
    cases hbind
  by_cases hadmits : admits allowed pos
  · rw [if_pos hadmits]
    rcases Option.eq_none_or_eq_some (posting[pos]?.bind fun termFrequency =>
      index.contribution scoring (index.idf scoring term) pos termFrequency) with hnone | ⟨score, hsome⟩
    · rw [hnone, hkept fun _ => hnone]
      rfl
    · obtain ⟨termFrequency, hfound, hcontrib⟩ := Option.bind_eq_some_iff.mp hsome
      have hmem : (pos, fun old : Option S => old.getD 0 + score) ∈ posting.toList.filterMap f := by
        refine List.mem_filterMap.mpr ⟨(pos, termFrequency),
          Std.ExtTreeMap.mem_toList_iff_getElem?_eq_some.mpr hfound, ?_⟩
        simp only [hf, if_pos hadmits, hcontrib, Option.map_some]
      rw [hsome, getElem?_updateAll_of_mem scores _
        (nodup_map_filterMap_toList posting fun entry made h => (hmade entry made h).1) hmem]
      rfl
  · rw [if_neg hadmits, hkept fun h => absurd h hadmits]

variable (terms : List String)

/-- What a list of terms contributes to a position. -/
def termScores (pos : ℕ) : List S :=
  terms.filterMap fun term => index.termScore scoring term pos

/-- The scores the exhaustive scan accumulates over a list of terms. -/
def referenceScores (terms : List String) : Std.ExtTreeMap ℕ S compare :=
  terms.foldl (fun scores term => updateAll scores (index.referenceUpdates scoring allowed term)) ∅

/-- The accumulated score of a position is the sum of its terms' contributions. -/
theorem getElem?_referenceScores (terms : List String) (pos : ℕ) :
    (index.referenceScores scoring allowed terms)[pos]? =
      if admits allowed pos ∧ index.termScores scoring terms pos ≠ [] then
        some (index.termScores scoring terms pos).sum else none := by
  have hfold : ∀ scores : Std.ExtTreeMap ℕ S compare, (terms.foldl (fun scores term =>
      updateAll scores (index.referenceUpdates scoring allowed term)) scores)[pos]? =
        if admits allowed pos ∧ index.termScores scoring terms pos ≠ [] then
          some (scores[pos]?.getD 0 + (index.termScores scoring terms pos).sum)
        else scores[pos]? := by
    induction terms with
    | nil => simp [termScores]
    | cons term rest ih =>
      intro scores
      rw [List.foldl_cons, ih, getElem?_referenceUpdates, termScores, termScores, List.filterMap_cons]
      by_cases hadmits : admits allowed pos
      · rcases Option.eq_none_or_eq_some (index.termScore scoring term pos) with hnone | ⟨score, hsome⟩
        · simp [hadmits, hnone]
        · simp only [hadmits, hsome, if_true, true_and, Option.map_some, Option.some_or, Option.getD_some,
            List.sum_cons, ne_eq, reduceCtorEq, not_false_eq_true, add_assoc]
          split
          · rfl
          · rename_i hempty
            simp [not_not.mp hempty]
      · simp [hadmits]
  rw [referenceScores, hfold]
  simp

/-- The serving terms of a list of terms. -/
def servingTerms : List (ServingTerm S) :=
  terms.filterMap fun term => (index.buildServing scoring)[term]?

theorem termScores_eq_filterMap (pos : ℕ) :
    index.termScores scoring terms pos =
      (index.servingTerms scoring terms).filterMap fun serving => scoreAt serving pos := by
  rw [termScores, servingTerms, List.filterMap_filterMap]
  refine List.filterMap_congr fun term _ => ?_
  rw [scoreAt_buildServing]

/-- The serving terms score a position with the sum of the contributions. -/
theorem totalScore_servingTerms (pos : ℕ) :
    totalScore (index.servingTerms scoring terms).get pos = (index.termScores scoring terms pos).sum := by
  have hsum : ∀ list : List (ServingTerm S), (list.map fun serving => (scoreAt serving pos).getD 0).sum =
      (list.filterMap fun serving => scoreAt serving pos).sum := by
    intro list
    induction list with
    | nil => rfl
    | cons serving rest ih =>
      rw [List.map_cons, List.sum_cons, List.filterMap_cons, ih]
      cases scoreAt serving pos with
      | none => simp
      | some score => simp
  have hmap : ((List.finRange (index.servingTerms scoring terms).length).map fun term =>
      (scoreAt ((index.servingTerms scoring terms).get term) pos).getD 0) =
        (index.servingTerms scoring terms).map fun serving => (scoreAt serving pos).getD 0 := by
    conv_rhs => rw [← List.map_get_finRange (index.servingTerms scoring terms)]
    rw [List.map_map]
    rfl
  rw [termScores_eq_filterMap, ← hsum, totalScore, MaxScore.partialScore, hmap]

/-- The serving terms have postings exactly where some term contributes. -/
theorem mem_positions_servingTerms (pos : ℕ) :
    pos ∈ positions (index.servingTerms scoring terms).get ↔ index.termScores scoring terms pos ≠ [] := by
  rw [MaxScore.mem_positions_iff_scoreAt, termScores_eq_filterMap, ne_eq, List.filterMap_eq_nil_iff]
  simp only [not_forall, ← ne_eq, Option.ne_none_iff_exists']
  constructor
  · rintro ⟨term, score, hscore⟩
    exact ⟨_, List.get_mem _ term, score, hscore⟩
  · rintro ⟨serving, hserv, score, hscore⟩
    obtain ⟨term, rfl⟩ := List.get_of_mem hserv
    exact ⟨term, score, hscore⟩

/-- The exhaustive scan has the rows of the positions the serving terms score. -/
theorem referenceScores_rows (terms : List String) :
    ((index.referenceScores scoring allowed terms).toList.filterMap fun entry =>
        index.unitIdByPos[entry.1]?.map fun unitId => (unitId, entry.2)).Perm
      (rowsOf (index.servingTerms scoring terms).get index.unitIdByPos allowed
        (positions (index.servingTerms scoring terms).get)) := by
  set served := (index.servingTerms scoring terms).get with hserved
  have hents : (index.referenceScores scoring allowed terms).toList.Perm
      (((ascending (positions served)).filter fun pos => admits allowed pos).map fun pos =>
        (pos, totalScore served pos)) := by
    have hnodup : (index.referenceScores scoring allowed terms).toList.Nodup := by
      have hkeys := keys_nodup (index.referenceScores scoring allowed terms)
      rw [← Std.ExtTreeMap.map_fst_toList_eq_keys] at hkeys
      exact hkeys.of_map _
    have hnodup' : (((ascending (positions served)).filter fun pos => admits allowed pos).map fun pos =>
        (pos, totalScore served pos)).Nodup :=
      ((ascending_nodup _).filter _).map fun _ _ heq => (Prod.mk.inj heq).1
    rw [List.perm_ext_iff_of_nodup hnodup hnodup']
    rintro ⟨pos, score⟩
    rw [Std.ExtTreeMap.mem_toList_iff_getElem?_eq_some, getElem?_referenceScores, List.mem_map,
      ← totalScore_servingTerms]
    simp only [← mem_positions_servingTerms]
    constructor
    · intro h
      split at h
      · rename_i hpos
        rw [← Option.some.inj h]
        exact ⟨pos, List.mem_filter.mpr ⟨mem_ascending.mpr hpos.2, hpos.1⟩, rfl⟩
      · cases h
    · rintro ⟨other, hother, heq⟩
      obtain ⟨rfl, rfl⟩ := Prod.mk.inj heq
      obtain ⟨hmem, hadmits⟩ := List.mem_filter.mp hother
      rw [if_pos ⟨hadmits, mem_ascending.mp hmem⟩]
  refine (hents.filterMap _).trans ?_
  rw [List.filterMap_map, List.filterMap_filter, rowsOf]
  refine List.Perm.of_eq (List.filterMap_congr fun pos _ => ?_)
  rfl

/-- A bounded ranking over the snapshot is the head of the exhaustive one. -/
theorem rankMaxscore_eq [IsOrderedAddMonoid S] (P : Primitives) (query : String) {k : ℕ} (hk : 0 < k)
    (allowed : Option (Finset ℕ)) :
    index.rankMaxscore scoring P query k allowed = index.rankReference scoring P query (some k) allowed := by
  unfold rankMaxscore rankReference
  by_cases hn : index.n = 0
  · rw [if_pos hn, if_pos hn]
  rw [if_neg hn, if_neg hn]
  by_cases hquery : (tokenize P query).toFinset = ∅
  · simp only [if_pos hquery]
  simp only [if_neg hquery]
  set terms := ascending (tokenize P query).toFinset with hterms
  have hrows := index.referenceScores_rows scoring allowed terms
  have hselect := MaxScore.select_eq_best (index.servingTerms scoring terms).get index.unitIdByPos
    allowed hk
  rw [← best_eq_of_perm k hrows] at hselect
  by_cases hnone : (index.servingTerms scoring terms).length = 0
  · -- Nothing is served, so nothing is scored either.
    have hempty : positions (index.servingTerms scoring terms).get = ∅ := by
      refine Finset.eq_empty_of_forall_notMem fun pos hpos => ?_
      obtain ⟨term, -⟩ := (MaxScore.mem_positions _).mp hpos
      exact absurd term.isLt (by omega)
    rw [hempty] at hrows
    have hnil := hrows.eq_nil
    rw [referenceScores] at hnil
    rw [hnil]
    exact (if_pos hnone).trans List.take_nil.symm
  · exact (if_neg hnone).trans hselect

/-- A ranking for the best `k` units is the first `k` rows of the exhaustive one, whatever the query,
the allowlist and the term weights; and over any serving terms, whatever their scores and caps, the
pruned scan selects the first rows of all positions they score. -/
theorem rank_eq_rankReference [IsOrderedAddMonoid S] (P : Primitives) (query : String) (k : ℕ)
    (allowed : Option (Finset ℕ)) :
    index.rank scoring P query (some k) allowed = index.rankReference scoring P query (some k) allowed ∧
      ∀ {m : ℕ} (terms : Fin m → ServingTerm S) (unitIdByPos : Std.ExtTreeMap ℕ String compare),
        MaxScore.select terms unitIdByPos allowed (k + 1) =
          (ranked (rowsOf terms unitIdByPos allowed (positions terms))).take (k + 1) := by
  constructor
  · cases k with
    | zero =>
      have hzero : index.rank scoring P query (some 0) allowed = [] := rfl
      rw [hzero, rankReference]
      simp
    | succ k => exact index.rankMaxscore_eq scoring P query (Nat.succ_pos k) allowed
  · intro m terms unitIdByPos
    exact MaxScore.select_eq_best terms unitIdByPos allowed (Nat.succ_pos k)

/-- Term weights that count occurrences. -/
def countScoring : Scoring ℚ where
  idf _ _ := 1
  contribution _ termFrequency _ _ _ := some termFrequency
  nonneg _ termFrequency _ _ _ _ _ h := Option.some.inj h ▸ Nat.cast_nonneg termFrequency

theorem rank_eq_rankReference_two_units :
    let index := (empty.addUnit "a" ["x", "y"] none).addUnit "b" ["x", "x"] none
    index.rank countScoring Primitives.sample "x y" (some 1) none =
      index.rankReference countScoring Primitives.sample "x y" (some 1) none :=
  (rank_eq_rankReference countScoring _ Primitives.sample "x y" 1 none).1

end Bm25Index

end LodeDB.Lexical
