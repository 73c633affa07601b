import LodeDB.Lexical.Incremental
import LodeDB.Lexical.RankPruned

/-!
# Renumbering the positions of an index

The positions of an index are internal names. An index is determined by the units at its live
positions, renumbering them renumbers the index, and no ranking depends on them.
-/

namespace LodeDB.Lexical

open SortedSet TreeMapRules Nested Ranking

/-- An index with its positions renamed. -/
def Bm25Index.renumber (rename : ℕ → ℕ) (index : Bm25Index) : Bm25Index where
  postings := index.postings.map fun _ posting => renameKeys rename posting
  docFreq := index.docFreq
  docLen := renameKeys rename index.docLen
  unitIdByPos := renameKeys rename index.unitIdByPos
  posByUnitId := index.posByUnitId.map fun _ pos => rename pos
  termsByPos := renameKeys rename index.termsByPos
  groupByPos := renameKeys rename index.groupByPos
  positionsByGroup := index.positionsByGroup.map fun _ positions => positions.image rename
  n := index.n
  totalLen := index.totalLen
  nextPos := index.nextPos

variable {index : Bm25Index} {live : Live} {rename : ℕ → ℕ}

theorem part_renumber (term : String) :
    part (index.renumber rename).postings term = renameKeys rename (part index.postings term) := part_map rfl

/-- The value of a term at a renamed position. -/
theorem find_renumber (hinj : Function.Injective rename) (term : String) (pos : ℕ) :
    Nested.find (index.renumber rename).postings term (rename pos) = Nested.find index.postings term pos := by
  rw [find_eq, find_eq, part_renumber, getElem?_renameKeys hinj]

theorem find_renumber_of_ne (term : String) {pos : ℕ} (hpos : ∀ old, rename old ≠ pos) :
    Nested.find (index.renumber rename).postings term pos = none := by
  rw [find_eq, part_renumber, getElem?_renameKeys_of_ne _ hpos]

/-- A unit at a renamed position. -/
theorem exists_renameKeys_iff (hinj : Function.Injective rename) {P : LexicalUnit → Prop} {pos : ℕ} :
    (∃ unit, (renameKeys rename live)[pos]? = some unit ∧ P unit) ↔
      ∃ old, rename old = pos ∧ ∃ unit, live[old]? = some unit ∧ P unit := by
  constructor
  · rintro ⟨unit, hunit, hP⟩
    obtain ⟨old, hold, hfound⟩ := exists_of_getElem?_renameKeys hunit
    exact ⟨old, hold, unit, hfound, hP⟩
  · rintro ⟨old, rfl, unit, hunit, hP⟩
    exact ⟨unit, (getElem?_renameKeys hinj live old).trans hunit, hP⟩

/-- Renaming the positions of the units renumbers the index. -/
theorem Indexes.renumber (h : Indexes index live) (hinj : Function.Injective rename) {next : ℕ}
    (hnext : ∀ pos unit, live[pos]? = some unit → rename pos < next) :
    Indexes { index.renumber rename with nextPos := next } (renameKeys rename live) where
  postings :=
    { find := fun term pos => by
        by_cases hpos : ∃ old, rename old = pos
        · obtain ⟨old, rfl⟩ := hpos
          rw [getElem?_renameKeys hinj, ← h.postings.find]
          exact find_renumber hinj term old
        · have hne : ∀ old, rename old ≠ pos := fun old hold => hpos ⟨old, hold⟩
          rw [getElem?_renameKeys_of_ne live hne]
          exact find_renumber_of_ne term hne
      noEmpty := h.postings.noEmpty.map fun old hempty => by
        have hsize := size_renameKeys hinj old
        rw [hempty, Std.ExtTreeMap.size_empty] at hsize
        refine eq_empty_of_keySet old ?_
        rw [← Finset.card_eq_zero, ← size_eq_card, ← hsize]
      docFreq := fun term => by
        have hmap : (index.postings.map fun _ posting => renameKeys rename posting)[term]? =
            index.postings[term]?.map fun posting => renameKeys rename posting :=
          Std.ExtTreeMap.getElem?_map
        refine (h.postings.docFreq term).trans ?_
        refine Eq.trans ?_ (congrArg (Option.map (·.size)) hmap).symm
        rw [Option.map_map]
        refine congrArg (fun f => index.postings[term]?.map f) (funext fun posting => ?_)
        exact (size_renameKeys hinj posting).symm }
  docLen := getElem?_renameKeys_map h.docLen hinj
  unitIdByPos := getElem?_renameKeys_map h.unitIdByPos hinj
  posByUnitId := fun unitId pos => by
    have hmap : (index.posByUnitId.map fun _ pos => rename pos)[unitId]? =
        index.posByUnitId[unitId]?.map rename := Std.ExtTreeMap.getElem?_map
    rw [exists_renameKeys_iff hinj]
    refine (Eq.congr_left hmap).trans ?_
    rw [Option.map_eq_some_iff]
    constructor
    · rintro ⟨old, hold, rfl⟩
      exact ⟨old, rfl, (h.posByUnitId unitId old).mp hold⟩
    · rintro ⟨old, rfl, hunit⟩
      exact ⟨old, (h.posByUnitId unitId old).mpr hunit, rfl⟩
  termsByPos := getElem?_renameKeys_map h.termsByPos hinj
  groupByPos := getElem?_renameKeys_map h.groupByPos hinj
  positionsByGroup :=
    { member := fun groupId pos => by
        rw [exists_renameKeys_iff hinj]
        refine (Eq.to_iff (congrArg (pos ∈ ·) (part_map (Finset.image_empty rename)))).trans ?_
        rw [Finset.mem_image]
        constructor
        · rintro ⟨old, hold, rfl⟩
          exact ⟨old, rfl, (h.positionsByGroup.member groupId old).mp hold⟩
        · rintro ⟨old, rfl, hunit⟩
          exact ⟨old, (h.positionsByGroup.member groupId old).mpr hunit, rfl⟩
      noEmpty := h.positionsByGroup.noEmpty.map fun _ => Finset.image_eq_empty.mp }
  n := by
    rw [keySet_renameKeys, Finset.card_image_of_injective _ hinj]
    exact h.n
  totalLen := by
    rw [keySet_renameKeys, Finset.sum_image fun _ _ _ _ heq => hinj heq]
    refine h.totalLen.trans (Finset.sum_congr rfl fun pos _ => ?_)
    rw [Live.lengthAt, Live.lengthAt, getElem?_renameKeys hinj]
  fresh := fun pos hpos => by
    rcases Option.eq_none_or_eq_some (renameKeys rename live)[pos]? with hnone | ⟨unit, hunit⟩
    · exact hnone
    · obtain ⟨old, rfl, hold⟩ := exists_of_getElem?_renameKeys hunit
      exact absurd (hnext old unit hold) (not_lt.mpr hpos)

/-- The units at the live positions determine the index, but for the next position. -/
theorem Indexes.unique {other : Bm25Index} (h : Indexes index live) (hother : Indexes other live) :
    other = { index with nextPos := other.nextPos } := by
  have hposts : other.postings = index.postings :=
    ext_find hother.postings.noEmpty h.postings.noEmpty fun term pos => by
      rw [hother.postings.find, h.postings.find]
  apply Bm25Index.ext
  · exact hposts
  · exact Std.ExtTreeMap.ext_getElem? fun term => by
      rw [hother.postings.docFreq, h.postings.docFreq, hposts]
  · exact Std.ExtTreeMap.ext_getElem? fun pos => by rw [hother.docLen, h.docLen]
  · exact Std.ExtTreeMap.ext_getElem? fun pos => by rw [hother.unitIdByPos, h.unitIdByPos]
  · refine Std.ExtTreeMap.ext_getElem? fun unitId => Option.ext fun pos => ?_
    rw [hother.posByUnitId, h.posByUnitId]
  · exact Std.ExtTreeMap.ext_getElem? fun pos => by rw [hother.termsByPos, h.termsByPos]
  · exact Std.ExtTreeMap.ext_getElem? fun pos => by rw [hother.groupByPos, h.groupByPos]
  · refine ext_part hother.positionsByGroup.noEmpty h.positionsByGroup.noEmpty fun groupId => ?_
    ext pos
    rw [hother.positionsByGroup.member, h.positionsByGroup.member]
  · exact hother.n.trans h.n.symm
  · exact hother.totalLen.trans h.totalLen.symm
  · rfl

namespace Bm25Index

variable {S : Type*} [AddCommMonoid S] [LinearOrder S] (scoring : Scoring S)

theorem termScore_eq_find (term : String) (pos : ℕ) :
    index.termScore scoring term pos =
      if index.idf scoring term ≤ 0 then none
      else (Nested.find index.postings term pos).bind fun termFrequency =>
        index.contribution scoring (index.idf scoring term) pos termFrequency := rfl

section

variable (hinj : Function.Injective rename)

include hinj

theorem admits_image (allowed : Option (Finset ℕ)) (pos : ℕ) :
    admits (allowed.map fun positions => positions.image rename) (rename pos) = admits allowed pos := by
  cases allowed with
  | none => rfl
  | some positions => simp [admits, hinj.eq_iff]

/-- A term contributes to a renamed position what it contributes to the position. -/
theorem termScore_renumber (term : String) (pos : ℕ) :
    (index.renumber rename).termScore scoring term (rename pos) = index.termScore scoring term pos := by
  have hidf : (index.renumber rename).idf scoring term = index.idf scoring term := rfl
  have hlen : (index.renumber rename).docLen[rename pos]? = index.docLen[pos]? := getElem?_renameKeys hinj _ _
  rw [termScore_eq_find, termScore_eq_find, hidf, find_renumber hinj]
  refine congrArg (fun score => if index.idf scoring term ≤ 0 then none else score) ?_
  refine congrArg (Option.bind _) (funext fun termFrequency => ?_)
  rw [contribution, contribution, hlen]
  rfl

/-- Renumbering an index moves its scores to the renamed positions. -/
theorem referenceScores_renumber (allowed : Option (Finset ℕ)) (terms : List String) :
    (index.renumber rename).referenceScores scoring (allowed.map fun positions => positions.image rename)
      terms = renameKeys rename (index.referenceScores scoring allowed terms) := by
  refine Std.ExtTreeMap.ext_getElem? fun pos => ?_
  by_cases hpos : ∃ old, rename old = pos
  · obtain ⟨old, rfl⟩ := hpos
    have hscores : (index.renumber rename).termScores scoring terms (rename old) =
        index.termScores scoring terms old :=
      List.filterMap_congr fun term _ => termScore_renumber scoring hinj term old
    rw [getElem?_renameKeys hinj, getElem?_referenceScores, getElem?_referenceScores, hscores, admits_image hinj]
  · have hne : ∀ old, rename old ≠ pos := fun old hold => hpos ⟨old, hold⟩
    have hscores : (index.renumber rename).termScores scoring terms pos = [] := by
      refine List.filterMap_eq_nil_iff.mpr fun term _ => ?_
      rw [termScore_eq_find, find_renumber_of_ne term hne]
      exact ite_self _
    rw [getElem?_renameKeys_of_ne _ hne, getElem?_referenceScores, hscores]
    simp

/-- No exhaustive ranking depends on the positions. -/
theorem rankReference_renumber (P : Primitives) (query : String) (limit : Option ℕ) (allowed : Option (Finset ℕ)) :
    (index.renumber rename).rankReference scoring P query limit
        (allowed.map fun positions => positions.image rename) =
      index.rankReference scoring P query limit allowed := by
  have hrows : ∀ terms, ranked (((index.renumber rename).referenceScores scoring
      (allowed.map fun positions => positions.image rename) terms).toList.filterMap fun entry =>
        (index.renumber rename).unitIdByPos[entry.1]?.map fun unitId => (unitId, entry.2)) =
      ranked ((index.referenceScores scoring allowed terms).toList.filterMap fun entry =>
        index.unitIdByPos[entry.1]?.map fun unitId => (unitId, entry.2)) := by
    intro terms
    rw [referenceScores_renumber scoring hinj]
    set scores := index.referenceScores scoring allowed terms
    refine ranked_eq_of_perm ?_
    refine ((toList_renameKeys_perm hinj scores).filterMap _).trans (List.Perm.of_eq ?_)
    rw [List.filterMap_map]
    refine List.filterMap_congr fun entry _ => ?_
    have hid : (index.renumber rename).unitIdByPos[rename entry.1]? = index.unitIdByPos[entry.1]? :=
      getElem?_renameKeys hinj _ _
    rw [Function.comp_apply, hid]
  unfold rankReference
  refine congrArg (fun rows => if index.n = 0 then [] else rows) ?_
  refine congrArg (fun rows => if (Text.tokenize P query).toFinset = ∅ then [] else rows) ?_
  cases limit with
  | none => exact hrows _
  | some limit => exact congrArg (List.take limit) (hrows _)

/-- No ranking depends on the positions. -/
theorem rank_renumber [IsOrderedAddMonoid S] (P : Primitives) (query : String) (limit : Option ℕ)
    (allowed : Option (Finset ℕ)) :
    (index.renumber rename).rank scoring P query limit (allowed.map fun positions => positions.image rename) =
      index.rank scoring P query limit allowed := by
  match limit with
  | none => exact rankReference_renumber scoring hinj P query none allowed
  | some 0 => rfl
  | some (k + 1) =>
    have hfirst := rankMaxscore_eq scoring (index.renumber rename) P query (Nat.succ_pos k)
      (allowed.map fun positions => positions.image rename)
    have hsec := rankMaxscore_eq scoring index P query (Nat.succ_pos k) allowed
    rw [rankReference_renumber scoring hinj, ← hsec] at hfirst
    exact hfirst

end

end Bm25Index

end LodeDB.Lexical
