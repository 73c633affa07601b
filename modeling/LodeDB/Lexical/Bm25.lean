import LodeDB.Core.Basic
import LodeDB.Lib.SortedSet
import LodeDB.Lib.TreeMap
import Mathlib.Data.String.Basic

/-!
# The BM25 inverted index

Units are chunks of documents with their tokens; each holds a stable position that is never used
again. The maps are kept in step by `addAt` and `removeAt`, from which the public mutations are
made.
-/

namespace LodeDB.Lexical

open SortedSet

/-- An inverted index over units. -/
@[ext] structure Bm25Index where
  postings : Std.ExtTreeMap String (Std.ExtTreeMap ℕ ℕ compare) compare
  docFreq : Std.ExtTreeMap String ℕ compare
  docLen : Std.ExtTreeMap ℕ ℕ compare
  unitIdByPos : Std.ExtTreeMap ℕ String compare
  posByUnitId : Std.ExtTreeMap String ℕ compare
  termsByPos : Std.ExtTreeMap ℕ (Finset String) compare
  groupByPos : Std.ExtTreeMap ℕ String compare
  positionsByGroup : Std.ExtTreeMap String (Finset ℕ) compare
  n : ℕ
  totalLen : ℕ
  nextPos : ℕ

namespace Bm25Index

/-- An index without units. -/
def empty : Bm25Index := ⟨∅, ∅, ∅, ∅, ∅, ∅, ∅, ∅, 0, 0, 0⟩

/-- One term's posting of a unit, counted in its document frequency. -/
def addPosting (pos : ℕ) (tokens : List String) (index : Bm25Index) (token : String) : Bm25Index :=
  { index with
    postings := index.postings.insert token
      ((index.postings[token]?.getD ∅).insert pos (tokens.count token))
    docFreq := index.docFreq.insert token (index.docFreq[token]?.getD 0 + 1) }

variable (index : Bm25Index) (unitId : String) (tokens : List String) (groupId : String)

/-- Record a unit at the next position, in every map but those of its terms. -/
def recordUnit : Bm25Index :=
  let pos := index.nextPos
  { index with
    nextPos := index.nextPos + 1
    docLen := index.docLen.insert pos tokens.length
    totalLen := index.totalLen + tokens.length
    n := index.n + 1
    unitIdByPos := index.unitIdByPos.insert pos unitId
    posByUnitId := index.posByUnitId.insert unitId pos
    groupByPos := index.groupByPos.insert pos groupId
    positionsByGroup := index.positionsByGroup.insert groupId
      (insert pos (index.positionsByGroup[groupId]?.getD ∅)) }

/-- Append a unit at the next position. -/
def addAt : Bm25Index :=
  let pos := index.nextPos
  let recorded := index.recordUnit unitId tokens groupId
  let counted := (ascending tokens.toFinset).foldl (addPosting pos tokens) recorded
  { counted with termsByPos := counted.termsByPos.insert pos tokens.toFinset }

/-- Take a position out of a term's postings, and the term out with its last one. -/
def removePosting (pos : ℕ) (index : Bm25Index) (term : String) : Bm25Index :=
  match index.postings[term]? with
  | none => index
  | some posting =>
    if (posting.erase pos).isEmpty then
      { index with postings := index.postings.erase term, docFreq := index.docFreq.erase term }
    else
      { index with
        postings := index.postings.insert term (posting.erase pos)
        docFreq := index.docFreq.insert term (posting.erase pos).size }

/-- Drop the id of a position, in both directions. -/
def removeUnitId (pos : ℕ) (index : Bm25Index) : Bm25Index :=
  match index.unitIdByPos[pos]? with
  | none => index
  | some unitId =>
    { index with
      unitIdByPos := index.unitIdByPos.erase pos
      posByUnitId := index.posByUnitId.erase unitId }

/-- Drop a position from its group, and the group with its last position. -/
def removeGroupEntry (pos : ℕ) (index : Bm25Index) : Bm25Index :=
  match index.groupByPos[pos]? with
  | none => index
  | some groupId =>
    let index := { index with groupByPos := index.groupByPos.erase pos }
    match index.positionsByGroup[groupId]? with
    | none => index
    | some positions =>
      if positions.erase pos = ∅ then
        { index with positionsByGroup := index.positionsByGroup.erase groupId }
      else
        { index with positionsByGroup := index.positionsByGroup.insert groupId (positions.erase pos) }

/-- Remove the unit at a position. -/
def removeAt (pos : ℕ) : Bm25Index :=
  let terms := index.termsByPos[pos]?.getD ∅
  let index := { index with termsByPos := index.termsByPos.erase pos }
  let index := (ascending terms).foldl (removePosting pos) index
  let index := { index with
    totalLen := index.totalLen - index.docLen[pos]?.getD 0
    docLen := index.docLen.erase pos }
  let index := removeUnitId pos index
  let index := removeGroupEntry pos index
  { index with n := index.n - 1 }

/-- Remove one unit, if it is there. -/
def removeUnit : Bm25Index :=
  match index.posByUnitId[unitId]? with
  | some pos => index.removeAt pos
  | none => index

/-- Add or replace one tokenized unit. -/
def addUnit (groupId : Option String) : Bm25Index :=
  let index := if index.posByUnitId.contains unitId then index.removeUnit unitId else index
  index.addAt unitId tokens (groupId.getD unitId)

/-- Remove all units of a document group. -/
def removeGroup : Bm25Index :=
  match index.positionsByGroup[groupId]? with
  | none => index
  | some positions => (ascending positions).foldl removeAt index

/-- Replace the units of a document group. -/
def replaceGroup (units : List (String × List String)) : Bm25Index :=
  units.foldl (fun index unit => index.addUnit unit.1 unit.2 (some groupId)) (index.removeGroup groupId)

/-- Build an index from already tokenized units. -/
def fromTokenLists (unitIds : List String) (tokenLists : List (List String))
    (groupIds : Option (List String)) : Except CoreError Bm25Index :=
  if unitIds.length ≠ tokenLists.length then
    .error (invalid "unit_ids and token_lists must be the same length")
  else if groupIds.any fun groups => groups.length ≠ unitIds.length then
    .error (invalid "group_ids must align with unit_ids")
  else
    .ok ((unitIds.zip tokenLists).zipIdx.foldl (fun index unit =>
      let groupId := (groupIds.bind fun groups => groups[unit.2]?).getD unit.1.1
      index.addAt unit.1.1 unit.1.2 groupId) empty)

/-- The stable position of a unit. -/
def positionOf : Option ℕ := index.posByUnitId[unitId]?

end Bm25Index

end LodeDB.Lexical
