import LodeDB.Lexical.Bm25
import LodeDB.Lib.Nested
import Mathlib.Algebra.BigOperators.Group.Finset.Basic

/-!
# An index mutated step by step

`Indexes index live` says that every map of an index is what the units at its live positions
determine. Appending a unit and removing a position keep it, so it holds after any sequence of
mutations, and two indexes over the same units at the same positions are equal.
-/

namespace LodeDB.Lexical

open SortedSet TreeMapRules Nested

variable {posByUnitId : Std.ExtTreeMap String ℕ compare}
  {positionsByGroup : Std.ExtTreeMap String (Finset ℕ) compare}

/-- A unit: its id, its tokens and the document group it belongs to. -/
structure LexicalUnit where
  unitId : String
  tokens : List String
  groupId : String
  deriving DecidableEq

/-- The units of an index by position. -/
abbrev Live := Std.ExtTreeMap ℕ LexicalUnit compare

/-- How often a unit holds a term, if it does. -/
def LexicalUnit.frequency (unit : LexicalUnit) (term : String) : Option ℕ :=
  if term ∈ unit.tokens then some (unit.tokens.count term) else none

/-- The length of the unit at a position. -/
def Live.lengthAt (live : Live) (pos : ℕ) : ℕ := (live[pos]?.map (·.tokens.length)).getD 0

/-- The postings of an index: the frequencies of the terms at the live positions. -/
structure PostingsOf (postings : Std.ExtTreeMap String (Std.ExtTreeMap ℕ ℕ compare) compare)
    (docFreq : Std.ExtTreeMap String ℕ compare) (stored : String → ℕ → Option ℕ) : Prop where
  find : ∀ term pos, Nested.find postings term pos = stored term pos
  noEmpty : NoEmpty postings
  docFreq : ∀ term : String, docFreq[term]? = postings[term]?.map (·.size)

/-- The positions by unit id: each live position stands under the id of its unit. -/
def PositionsOf (posByUnitId : Std.ExtTreeMap String ℕ compare) (live : Live) : Prop :=
  ∀ (unitId : String) (pos : ℕ), posByUnitId[unitId]? = some pos ↔
    ∃ unit, live[pos]? = some unit ∧ unit.unitId = unitId

/-- The positions by group: each live position stands under the group of its unit. -/
structure GroupsOf (positionsByGroup : Std.ExtTreeMap String (Finset ℕ) compare) (live : Live) : Prop where
  member : ∀ groupId pos, pos ∈ part positionsByGroup groupId ↔
    ∃ unit, live[pos]? = some unit ∧ unit.groupId = groupId
  noEmpty : NoEmpty positionsByGroup

/-- Every map of an index is determined by the units at its live positions. -/
structure Indexes (index : Bm25Index) (live : Live) : Prop where
  postings : PostingsOf index.postings index.docFreq fun term pos =>
    live[pos]?.bind fun unit => unit.frequency term
  docLen : ∀ pos : ℕ, index.docLen[pos]? = live[pos]?.map (·.tokens.length)
  unitIdByPos : ∀ pos : ℕ, index.unitIdByPos[pos]? = live[pos]?.map (·.unitId)
  posByUnitId : PositionsOf index.posByUnitId live
  termsByPos : ∀ pos : ℕ, index.termsByPos[pos]? = live[pos]?.map (·.tokens.toFinset)
  groupByPos : ∀ pos : ℕ, index.groupByPos[pos]? = live[pos]?.map (·.groupId)
  positionsByGroup : GroupsOf index.positionsByGroup live
  n : index.n = (keySet live).card
  totalLen : index.totalLen = ∑ pos ∈ keySet live, live.lengthAt pos
  fresh : ∀ pos : ℕ, index.nextPos ≤ pos → live[pos]? = none

namespace PostingsOf

variable {postings : Std.ExtTreeMap String (Std.ExtTreeMap ℕ ℕ compare) compare}
  {docFreq : Std.ExtTreeMap String ℕ compare} {stored : String → ℕ → Option ℕ}

section

variable (h : PostingsOf postings docFreq stored)

include h

/-- Adding a posting where there is none raises its term's document frequency by one. -/
theorem put {term : String} {pos : ℕ} (hnew : stored term pos = none) (frequency : ℕ) :
    PostingsOf (Nested.put postings term pos frequency)
      (docFreq.insert term (docFreq[term]?.getD 0 + 1))
      (fun other key => if term = other ∧ pos = key then some frequency else stored other key) := by
  refine ⟨?_, h.noEmpty.put term pos frequency, ?_⟩
  · intro other key
    rw [find_put, h.find]
  · intro other
    have hnot : pos ∉ part postings term := by
      rw [Std.ExtTreeMap.mem_iff_isSome_getElem?, ← find_eq, h.find, hnew]
      simp
    have hsize : docFreq[term]?.getD 0 = (part postings term).size := by
      rw [h.docFreq, part]
      cases postings[term]? <;> simp
    rw [getElem?_insert, Nested.put, getElem?_insert, hsize]
    split
    · simp [Std.ExtTreeMap.size_insert, hnot]
    · exact h.docFreq other

/-- Removing a posting keeps the document frequencies of the terms that are left. -/
theorem drop (term : String) (pos : ℕ) :
    PostingsOf (Nested.drop postings term pos)
      (match postings[term]? with
        | none => docFreq
        | some posting =>
          if (posting.erase pos).isEmpty then docFreq.erase term
          else docFreq.insert term (posting.erase pos).size)
      (fun other key => if term = other ∧ pos = key then none else stored other key) := by
  refine ⟨?_, drop_eq_write postings term pos ▸ h.noEmpty.write, ?_⟩
  · intro other key
    rw [find_drop, h.find]
  · intro other
    rcases Option.eq_none_or_eq_some postings[term]? with hnone | ⟨posting, hpost⟩
    · rw [Nested.drop, hnone]
      exact h.docFreq other
    · rw [Nested.drop, hpost]
      dsimp only
      split
      · rw [getElem?_erase, getElem?_erase]
        split
        · rfl
        · exact h.docFreq other
      · rw [getElem?_insert, getElem?_insert]
        split
        · rfl
        · exact h.docFreq other

theorem congr {other : String → ℕ → Option ℕ} (hsame : ∀ term pos, stored term pos = other term pos) :
    PostingsOf postings docFreq other :=
  ⟨fun term pos => (h.find term pos).trans (hsame term pos), h.noEmpty, h.docFreq⟩

end

end PostingsOf

section Positions

variable {live : Live} {pos : ℕ} {unit : LexicalUnit}

theorem PositionsOf.insert (h : PositionsOf posByUnitId live) (hfree : live[pos]? = none)
    (hnew : posByUnitId[unit.unitId]? = none) :
    PositionsOf (posByUnitId.insert unit.unitId pos) (live.insert pos unit) := by
  intro unitId other
  rw [getElem?_insert, getElem?_insert]
  by_cases hid : unit.unitId = unitId
  · rw [if_pos hid, Option.some_inj]
    constructor
    · exact fun hpos => ⟨unit, if_pos hpos, hid⟩
    · rintro ⟨found, hfound, hsame⟩
      by_contra hpos
      rw [if_neg hpos] at hfound
      have hidxd := (h unitId other).mpr ⟨found, hfound, hsame⟩
      rw [← hid, hnew] at hidxd
      cases hidxd
  · rw [if_neg hid, h]
    by_cases hpos : pos = other
    · subst hpos
      rw [if_pos rfl, hfree]
      simp [hid]
    · rw [if_neg hpos]

theorem PositionsOf.erase (h : PositionsOf posByUnitId live) (hunit : live[pos]? = some unit) :
    PositionsOf (posByUnitId.erase unit.unitId) (live.erase pos) := by
  intro unitId other
  have hpos : posByUnitId[unit.unitId]? = some pos := (h unit.unitId pos).mpr ⟨unit, hunit, rfl⟩
  rw [getElem?_erase, getElem?_erase]
  by_cases hid : unit.unitId = unitId
  · subst hid
    rw [if_pos rfl]
    constructor
    · intro hnone
      cases hnone
    · rintro ⟨found, hfound, hsame⟩
      split at hfound
      · cases hfound
      · rename_i hne
        have hother := (h unit.unitId other).mpr ⟨found, hfound, hsame⟩
        exact absurd (Option.some.inj (hpos.symm.trans hother)) hne
  · rw [if_neg hid, h]
    by_cases heq : pos = other
    · subst heq
      rw [if_pos rfl, hunit]
      simp [hid]
    · rw [if_neg heq]

theorem GroupsOf.add (h : GroupsOf positionsByGroup live) (hfree : live[pos]? = none) :
    GroupsOf (Nested.add positionsByGroup unit.groupId pos) (live.insert pos unit) := by
  refine ⟨fun groupId other => ?_, h.noEmpty.insert (Finset.insert_ne_empty _ _)⟩
  rw [Nested.add, part_insert, getElem?_insert]
  have hold := h.member groupId other
  by_cases hpos : pos = other
  · subst hpos
    rw [hfree] at hold
    rw [if_pos rfl]
    by_cases hgroup : unit.groupId = groupId
    · rw [if_pos hgroup]
      simp [hgroup]
    · rw [if_neg hgroup, hold]
      simp [hgroup]
  · rw [if_neg hpos, ← hold]
    by_cases hgroup : unit.groupId = groupId
    · rw [if_pos hgroup, hgroup]
      simp [Ne.symm hpos]
    · rw [if_neg hgroup]

theorem GroupsOf.remove (h : GroupsOf positionsByGroup live) (hunit : live[pos]? = some unit) :
    GroupsOf (Nested.remove positionsByGroup unit.groupId pos) (live.erase pos) := by
  rw [remove_eq_write]
  refine ⟨fun groupId other => ?_, h.noEmpty.write⟩
  rw [part_write, getElem?_erase]
  have hold := h.member groupId other
  by_cases hpos : pos = other
  · subst hpos
    rw [hunit] at hold
    rw [if_pos rfl]
    by_cases hgroup : unit.groupId = groupId
    · rw [if_pos hgroup]
      simp
    · rw [if_neg hgroup, hold]
      simp [hgroup]
  · rw [if_neg hpos, ← hold]
    by_cases hgroup : unit.groupId = groupId
    · rw [if_pos hgroup, hgroup]
      simp [Ne.symm hpos]
    · rw [if_neg hgroup]

/-- The total length gains the length of a unit at a free position. -/
theorem Live.sum_insert (hfree : live[pos]? = none) :
    ∑ other ∈ keySet (live.insert pos unit), Live.lengthAt (live.insert pos unit) other =
      (∑ other ∈ keySet live, live.lengthAt other) + unit.tokens.length := by
  have hnotMem : pos ∉ keySet live := by simp [hfree]
  have hrest : ∑ other ∈ keySet live, Live.lengthAt (live.insert pos unit) other =
      ∑ other ∈ keySet live, live.lengthAt other := by
    refine Finset.sum_congr rfl fun other hother => ?_
    have hne : pos ≠ other := fun heq => hnotMem (heq ▸ hother)
    rw [Live.lengthAt, Live.lengthAt, getElem?_insert, if_neg hne]
  have hfirst : Live.lengthAt (live.insert pos unit) pos = unit.tokens.length := by
    rw [Live.lengthAt, getElem?_insert, if_pos rfl]
    rfl
  rw [keySet_insert, Finset.sum_insert hnotMem, hrest, hfirst, Nat.add_comm]

/-- The total length loses the length of a unit that goes. -/
theorem Live.sum_erase (hunit : live[pos]? = some unit) :
    (∑ other ∈ keySet (live.erase pos), Live.lengthAt (live.erase pos) other) + unit.tokens.length =
      ∑ other ∈ keySet live, live.lengthAt other := by
  have hrest : ∑ other ∈ (keySet live).erase pos, Live.lengthAt (live.erase pos) other =
      ∑ other ∈ (keySet live).erase pos, live.lengthAt other := by
    refine Finset.sum_congr rfl fun other hother => ?_
    rw [Live.lengthAt, Live.lengthAt, getElem?_erase, if_neg (Finset.ne_of_mem_erase hother).symm]
  have hfirst : live.lengthAt pos = unit.tokens.length := by
    rw [Live.lengthAt, hunit]
    rfl
  rw [keySet_erase, hrest, ← hfirst]
  exact Finset.sum_erase_add _ _ (mem_keySet.mpr ⟨unit, hunit⟩)

end Positions

namespace Bm25Index

/-- Counting the terms of a unit changes the postings and the document frequencies only. -/
theorem foldl_addPosting (pos : ℕ) (tokens : List String) (terms : List String) (index : Bm25Index)
    {stored : String → ℕ → Option ℕ} (h : PostingsOf index.postings index.docFreq stored)
    (hnodup : terms.Nodup) (hnew : ∀ term ∈ terms, stored term pos = none) :
    ∃ postings docFreq, terms.foldl (addPosting pos tokens) index =
        { index with postings := postings, docFreq := docFreq } ∧
      PostingsOf postings docFreq fun term key =>
        if term ∈ terms ∧ pos = key then some (tokens.count term) else stored term key := by
  induction terms generalizing index stored with
  | nil => exact ⟨_, _, rfl, h.congr fun _ _ => by simp⟩
  | cons term rest ih =>
    obtain ⟨hterm, hrest⟩ := List.nodup_cons.mp hnodup
    have hput := h.put (hnew term List.mem_cons_self) (tokens.count term)
    have hstill : ∀ other ∈ rest, (if term = other ∧ pos = pos then some (tokens.count term)
        else stored other pos) = none := by
      intro other hother
      have hne : ¬ (term = other ∧ pos = pos) := fun h => hterm (h.1 ▸ hother)
      rw [if_neg hne]
      exact hnew other (List.mem_cons_of_mem _ hother)
    obtain ⟨postings, docFreq, heq, hposts⟩ := ih (addPosting pos tokens index term) hput hrest hstill
    refine ⟨postings, docFreq, heq, hposts.congr fun other key => ?_⟩
    by_cases hmem : other ∈ rest
    · by_cases hkey : pos = key
      · simp [hmem, hkey]
      · simp [hkey]
    · by_cases hsame : term = other
      · subst hsame
        simp [hmem]
      · simp [hmem, hsame, Ne.symm hsame]

/-- Taking a position out of terms changes postings and document frequencies only. -/
theorem foldl_removePosting (pos : ℕ) (terms : List String) (index : Bm25Index)
    {stored : String → ℕ → Option ℕ} (h : PostingsOf index.postings index.docFreq stored) :
    ∃ postings docFreq, terms.foldl (removePosting pos) index =
        { index with postings := postings, docFreq := docFreq } ∧
      PostingsOf postings docFreq fun term key =>
        if term ∈ terms ∧ pos = key then none else stored term key := by
  induction terms generalizing index stored with
  | nil => exact ⟨_, _, rfl, h.congr fun _ _ => by simp⟩
  | cons term rest ih =>
    have hstep : ∃ postings docFreq, removePosting pos index term =
        { index with postings := postings, docFreq := docFreq } ∧ PostingsOf postings docFreq fun other key =>
            if term = other ∧ pos = key then none else stored other key := by
      refine ⟨_, _, ?_, h.drop term pos⟩
      unfold removePosting
      rcases Option.eq_none_or_eq_some index.postings[term]? with hnone | ⟨posting, hpost⟩
      · rw [Nested.drop, hnone]
      · rw [Nested.drop, hpost]
        dsimp only
        split
        · rfl
        · rfl
    obtain ⟨postings, docFreq, heq, hposts⟩ := hstep
    obtain ⟨postings', docFreq', heq', hpostings'⟩ := ih (removePosting pos index term) (by rw [heq]; exact hposts)
    refine ⟨postings', docFreq', ?_, hpostings'.congr fun other key => ?_⟩
    · rw [List.foldl_cons, heq', heq]
    · by_cases hmem : other ∈ rest
      · by_cases hkey : pos = key
        · simp [hmem, hkey]
        · simp [hkey]
      · by_cases hsame : term = other
        · subst hsame
          simp [hmem]
        · simp [hmem, hsame, Ne.symm hsame]

theorem removeUnitId_eq {index : Bm25Index} {unitIds : Std.ExtTreeMap ℕ String compare} {pos : ℕ}
    {unitId : String} (h : unitIds[pos]? = some unitId) (hsame : index.unitIdByPos = unitIds) :
    removeUnitId pos index =
      { index with
        unitIdByPos := index.unitIdByPos.erase pos
        posByUnitId := index.posByUnitId.erase unitId } := by
  rw [removeUnitId, hsame, h]

theorem removeGroupEntry_eq {index : Bm25Index} {groups : Std.ExtTreeMap ℕ String compare} {pos : ℕ}
    {groupId : String} (h : groups[pos]? = some groupId) (hsame : index.groupByPos = groups) :
    removeGroupEntry pos index =
      { index with
        groupByPos := index.groupByPos.erase pos
        positionsByGroup := Nested.remove index.positionsByGroup groupId pos } := by
  rw [removeGroupEntry, hsame, h]
  dsimp only
  rcases Option.eq_none_or_eq_some index.positionsByGroup[groupId]? with hnone | ⟨positions, hpositions⟩
  · rw [Nested.remove, hnone]
  · rw [Nested.remove, hpositions]
    dsimp only
    split
    · rfl
    · rfl

end Bm25Index

namespace Indexes

variable {index : Bm25Index} {live : Live}

theorem empty : Indexes Bm25Index.empty ∅ where
  postings := ⟨by simp [Nested.find, Bm25Index.empty], noEmpty_empty, by simp [Bm25Index.empty]⟩
  docLen := by simp [Bm25Index.empty]
  unitIdByPos := by simp [Bm25Index.empty]
  posByUnitId := by simp [Bm25Index.empty, PositionsOf]
  termsByPos := by simp [Bm25Index.empty]
  groupByPos := by simp [Bm25Index.empty]
  positionsByGroup := ⟨by simp [Bm25Index.empty, part], noEmpty_empty⟩
  n := by simp [Bm25Index.empty]
  totalLen := by simp [Bm25Index.empty]
  fresh := by simp

/-- A unit stands at one position. -/
theorem pos_unique (h : Indexes index live) {pos other : ℕ} {unit otherUnit : LexicalUnit}
    (hunit : live[pos]? = some unit) (hother : live[other]? = some otherUnit)
    (hsame : unit.unitId = otherUnit.unitId) : pos = other := by
  have hpos := (h.posByUnitId unit.unitId pos).mpr ⟨unit, hunit, rfl⟩
  have hpos' := (h.posByUnitId unit.unitId other).mpr ⟨otherUnit, hother, hsame.symm⟩
  exact Option.some.inj (hpos.symm.trans hpos')

/-- Appending a unit whose id is not indexed. -/
theorem addAt (h : Indexes index live) (unit : LexicalUnit) (hnew : index.posByUnitId[unit.unitId]? = none) :
    Indexes (index.addAt unit.unitId unit.tokens unit.groupId) (live.insert index.nextPos unit) := by
  have hfree : live[index.nextPos]? = none := h.fresh _ le_rfl
  have hnotMem : index.nextPos ∉ keySet live := by simp [hfree]
  obtain ⟨postings, docFreq, heq, hposts⟩ := Bm25Index.foldl_addPosting index.nextPos unit.tokens
    (ascending unit.tokens.toFinset) (index.recordUnit unit.unitId unit.tokens unit.groupId)
    h.postings (ascending_nodup _) (fun term _ => by rw [hfree]; rfl)
  have hread : ∀ pos : ℕ, (live.insert index.nextPos unit)[pos]? =
      if index.nextPos = pos then some unit else live[pos]? := fun pos => getElem?_insert _ _ _ _
  rw [Bm25Index.addAt, heq]
  exact
    { postings := hposts.congr fun term pos => by
        rw [hread]
        by_cases hpos : index.nextPos = pos
        · by_cases hterm : term ∈ unit.tokens
          · simp [hpos, hterm, LexicalUnit.frequency]
          · simp [← hpos, hterm, hfree, LexicalUnit.frequency]
        · simp [hpos]
      docLen := getElem?_insert_map h.docLen index.nextPos unit
      unitIdByPos := getElem?_insert_map h.unitIdByPos index.nextPos unit
      posByUnitId := h.posByUnitId.insert hfree hnew
      termsByPos := getElem?_insert_map h.termsByPos index.nextPos unit
      groupByPos := getElem?_insert_map h.groupByPos index.nextPos unit
      positionsByGroup := h.positionsByGroup.add hfree
      n := by
        rw [keySet_insert, Finset.card_insert_of_notMem hnotMem, ← h.n]
        rfl
      totalLen := by
        rw [Live.sum_insert hfree, ← h.totalLen]
        rfl
      fresh := fun pos hpos => by
        have hpast : index.nextPos + 1 ≤ pos := hpos
        rw [hread, if_neg (by omega)]
        exact h.fresh pos (by omega) }

/-- Removing a live position. -/
theorem removeAt (h : Indexes index live) {pos : ℕ} {unit : LexicalUnit} (hunit : live[pos]? = some unit) :
    Indexes (index.removeAt pos) (live.erase pos) := by
  have hterms : index.termsByPos[pos]?.getD ∅ = unit.tokens.toFinset := by
    rw [h.termsByPos, hunit]
    rfl
  obtain ⟨postings, docFreq, heq, hposts⟩ := Bm25Index.foldl_removePosting pos
    (ascending unit.tokens.toFinset) { index with termsByPos := index.termsByPos.erase pos } h.postings
  have hdocLen : index.docLen[pos]?.getD 0 = unit.tokens.length := by
    rw [h.docLen, hunit]
    rfl
  have hid : index.unitIdByPos[pos]? = some unit.unitId := by
    rw [h.unitIdByPos, hunit]
    rfl
  have hgroup : index.groupByPos[pos]? = some unit.groupId := by
    rw [h.groupByPos, hunit]
    rfl
  have hrem : index.removeAt pos =
      { postings := postings
        docFreq := docFreq
        docLen := index.docLen.erase pos
        unitIdByPos := index.unitIdByPos.erase pos
        posByUnitId := index.posByUnitId.erase unit.unitId
        termsByPos := index.termsByPos.erase pos
        groupByPos := index.groupByPos.erase pos
        positionsByGroup := Nested.remove index.positionsByGroup unit.groupId pos
        n := index.n - 1
        totalLen := index.totalLen - unit.tokens.length
        nextPos := index.nextPos } := by
    rw [Bm25Index.removeAt, hterms, heq, ← hdocLen]
    dsimp only
    rw [Bm25Index.removeUnitId_eq hid, Bm25Index.removeGroupEntry_eq hgroup]
    all_goals rfl
  rw [hrem]
  exact
    { postings := hposts.congr fun term other => by
        rw [getElem?_erase]
        by_cases hpos : pos = other
        · by_cases hterm : term ∈ unit.tokens
          · simp [hpos, hterm]
          · simp [← hpos, hterm, hunit, LexicalUnit.frequency]
        · simp [hpos]
      docLen := getElem?_erase_map h.docLen pos
      unitIdByPos := getElem?_erase_map h.unitIdByPos pos
      posByUnitId := h.posByUnitId.erase hunit
      termsByPos := getElem?_erase_map h.termsByPos pos
      groupByPos := getElem?_erase_map h.groupByPos pos
      positionsByGroup := h.positionsByGroup.remove hunit
      n := by
        rw [keySet_erase, Finset.card_erase_of_mem (mem_keySet.mpr ⟨unit, hunit⟩), h.n]
      totalLen := by
        have hsum := Live.sum_erase hunit
        rw [← h.totalLen] at hsum
        exact (Nat.eq_sub_of_add_eq hsum).symm
      fresh := fun other hother => by
        rw [getElem?_erase, h.fresh other hother]
        exact ite_self _ }

end Indexes

end LodeDB.Lexical
