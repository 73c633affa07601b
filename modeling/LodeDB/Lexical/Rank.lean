import LodeDB.Lexical.Bm25
import LodeDB.Lib.Ranking
import LodeDB.Text.Chunk
import Mathlib.Algebra.Order.Monoid.Defs
import Mathlib.Algebra.Ring.Nat
import Mathlib.Data.List.FinRange

/-!
# Ranking the units of an index

`rankReference` scores every unit that shares a query term. `rankMaxscore` answers a bounded request from a compact
snapshot: it keeps a bounded heap, leaves out the terms whose caps together stay below the worst score kept, and
passes over a unit whose bound does. `Scoring` gives the weight of a term and of one posting, in any ordered monoid
of exact numbers.
-/

namespace LodeDB.Lexical

open SortedSet TreeMapRules Ranking
open Text (tokenize)

variable {S : Type*} [AddCommMonoid S] [LinearOrder S]

/-- The term weights of a ranking. `idf` is read from the unit count and a document frequency that is
not zero, `contribution` from it, a term frequency, a unit's length, the total length and the unit
count; it is missing where the source's denominator is not positive. -/
structure Scoring (S : Type*) [AddCommMonoid S] [LinearOrder S] where
  idf : (n df : ℕ) → S
  contribution : (idf : S) → (termFrequency length totalLen n : ℕ) → Option S
  nonneg : ∀ idf termFrequency length totalLen n score, 0 < idf →
    contribution idf termFrequency length totalLen n = some score → 0 ≤ score

/-- One posting of the serving snapshot. -/
structure ServingPosting (S : Type*) where
  pos : ℕ
  score : S

/-- The largest score of a list of postings, starting from a floor. -/
def maxScoreOf (floor : S) (entries : List (ServingPosting S)) : S :=
  entries.foldl (fun most entry => if most < entry.score then entry.score else most) floor

omit [AddCommMonoid S] in
theorem le_maxScoreOf (floor : S) (entries : List (ServingPosting S)) :
    floor ≤ maxScoreOf floor entries ∧ ∀ entry ∈ entries, entry.score ≤ maxScoreOf floor entries := by
  induction entries generalizing floor with
  | nil => exact ⟨le_rfl, by simp⟩
  | cons first rest ih =>
    rw [maxScoreOf, List.foldl_cons, ← maxScoreOf]
    split
    · rename_i hlt
      obtain ⟨hfloor, hrest⟩ := ih first.score
      refine ⟨hlt.le.trans hfloor, ?_⟩
      intro entry hentry
      rcases List.mem_cons.mp hentry with rfl | hentry
      · exact hfloor
      · exact hrest entry hentry
    · rename_i hle
      obtain ⟨hfloor, hrest⟩ := ih floor
      refine ⟨hfloor, ?_⟩
      intro entry hentry
      rcases List.mem_cons.mp hentry with rfl | hentry
      · exact (not_lt.mp hle).trans hfloor
      · exact hrest entry hentry

/-- One term of the snapshot: its postings by position, and a cap on their scores. -/
structure ServingTerm (S : Type*) [AddCommMonoid S] [LinearOrder S] where
  postings : List (ServingPosting S)
  maxScore : S
  sorted : (postings.map (·.pos)).Pairwise (· < ·)
  nonneg : ∀ posting ∈ postings, 0 ≤ posting.score
  floor : 0 ≤ maxScore
  bounded : ∀ posting ∈ postings, posting.score ≤ maxScore

/-- Whether a request may return a position: any, or one on its allowlist. -/
def admits (allowed : Option (Finset ℕ)) (pos : ℕ) : Bool := allowed.all fun positions => pos ∈ positions

namespace Bm25Index

variable (scoring : Scoring S) (index : Bm25Index)

/-- The inverse document frequency of a term, zero for a term no unit has. -/
def idf (term : String) : S :=
  let df := index.docFreq[term]?.getD 0
  if df = 0 then 0 else scoring.idf index.n df

/-- What one posting contributes under its term's inverse document frequency. -/
def contribution (idf : S) (pos termFrequency : ℕ) : Option S :=
  scoring.contribution idf termFrequency (index.docLen[pos]?.getD 0) index.totalLen index.n

/-- The contributions of one term to the units that are allowed. -/
def referenceUpdates (allowed : Option (Finset ℕ)) (term : String) : List (ℕ × (Option S → S)) :=
  match index.postings[term]? with
  | none => []
  | some posting =>
    let idf := index.idf scoring term
    if idf ≤ 0 then []
    else posting.toList.filterMap fun entry =>
      if admits allowed entry.1 then
        (index.contribution scoring idf entry.1 entry.2).map fun contribution =>
          (entry.1, fun score => score.getD 0 + contribution)
      else none

/-- Score every unit that shares a query term, and rank them. -/
def rankReference (P : Primitives) (query : String) (limit : Option ℕ) (allowed : Option (Finset ℕ)) :
    List (String × S) :=
  if index.n = 0 then []
  else
    let queryTerms := (tokenize P query).toFinset
    if queryTerms = ∅ then []
    else
      let scores := (ascending queryTerms).foldl (fun (scores : Std.ExtTreeMap ℕ S compare) term =>
        updateAll scores (index.referenceUpdates scoring allowed term)) ∅
      let rows := ranked (scores.toList.filterMap fun entry =>
        index.unitIdByPos[entry.1]?.map fun unitId => (unitId, entry.2))
      match limit with
      | none => rows
      | some limit => rows.take limit

/-- The serving postings of a term, as they are collected. -/
def servingEntries (idf : S) (posting : Std.ExtTreeMap ℕ ℕ compare) : List (ServingPosting S) :=
  posting.toList.filterMap fun entry =>
    (index.contribution scoring idf entry.1 entry.2).map fun score => ⟨entry.1, score⟩

end Bm25Index

/-- The order postings are sorted in. -/
def PosLe (left right : ServingPosting S) : Prop := left.pos ≤ right.pos

instance : DecidableRel (PosLe (S := S)) := fun left right => by
  unfold PosLe
  infer_instance

omit [AddCommMonoid S] [LinearOrder S] in
/-- Sorting postings at distinct positions puts them in strictly ascending order. -/
theorem sorted_insertionSort {entries : List (ServingPosting S)} (hnodup : (entries.map (·.pos)).Nodup) :
    ((entries.insertionSort PosLe).map (·.pos)).Pairwise (· < ·) := by
  have hle : ((entries.insertionSort PosLe).map (·.pos)).Pairwise (· ≤ ·) := by
    rw [List.pairwise_map]
    exact List.pairwise_insertionSort _ _
  have hdist : ((entries.insertionSort PosLe).map (·.pos)).Nodup :=
    ((List.perm_insertionSort _ _).map _).nodup_iff.mpr hnodup
  exact (hle.and hdist).imp fun {_ _} h => lt_of_le_of_ne h.1 h.2

namespace Bm25Index

variable (scoring : Scoring S) (index : Bm25Index)

/-- Collected entries stand at distinct positions. -/
theorem servingEntries_nodup (idf : S) (posting : Std.ExtTreeMap ℕ ℕ compare) :
    ((index.servingEntries scoring idf posting).map (·.pos)).Nodup := by
  refine nodup_map_filterMap_toList posting ?_
  intro entry made hmade
  obtain ⟨_, -, rfl⟩ := Option.map_eq_some_iff.mp hmade
  rfl

/-- Collected entries are not negative. -/
theorem servingEntries_nonneg {idf : S} (hidf : 0 < idf) {posting : Std.ExtTreeMap ℕ ℕ compare}
    {entry : ServingPosting S} (hentry : entry ∈ index.servingEntries scoring idf posting) : 0 ≤ entry.score := by
  obtain ⟨_, -, hcontrib⟩ := List.mem_filterMap.mp hentry
  obtain ⟨score, hscore, rfl⟩ := Option.map_eq_some_iff.mp hcontrib
  exact scoring.nonneg _ _ _ _ _ _ hidf hscore

/-- The serving term of a posting map, unless it weighs or contributes nothing. -/
def servingTerm (term : String) (posting : Std.ExtTreeMap ℕ ℕ compare) : Option (ServingTerm S) :=
  let idf := index.idf scoring term
  if hidf : idf ≤ 0 then none
  else
    let entries := index.servingEntries scoring idf posting
    if entries = [] then none
    else some
      { postings := entries.insertionSort PosLe
        maxScore := maxScoreOf 0 entries
        sorted := sorted_insertionSort (index.servingEntries_nodup scoring idf posting)
        nonneg := fun _ hposting => index.servingEntries_nonneg scoring (not_le.mp hidf)
          ((List.mem_insertionSort _).mp hposting)
        floor := (le_maxScoreOf 0 entries).1
        bounded := fun posting hposting =>
          (le_maxScoreOf 0 entries).2 posting ((List.mem_insertionSort _).mp hposting) }

/-- The serving snapshot: the serving terms of the index. -/
def buildServing : Std.ExtTreeMap String (ServingTerm S) compare :=
  collect (fun term posting => index.servingTerm scoring term posting) index.postings

end Bm25Index

namespace MaxScore

variable {m : ℕ} (terms : Fin m → ServingTerm S)

/-- The unread postings of each term. -/
abbrev Cursors (S : Type*) (m : ℕ) := Fin m → List (ServingPosting S)

/-- The pruning order of the terms: ascending caps, ties in term order. -/
def CapLe (left right : Fin m) : Prop :=
  (terms left).maxScore < (terms right).maxScore ∨ ((terms left).maxScore = (terms right).maxScore ∧ left ≤ right)

instance : DecidableRel (CapLe terms) := fun left right => by
  unfold CapLe
  infer_instance

/-- The terms in pruning order. -/
def pruningOrder : List (Fin m) := (List.finRange m).insertionSort (CapLe terms)

/-- The worst score kept by a full heap; a heap with room has no threshold. -/
def threshold (k : ℕ) (heap : List (String × S)) : Option S :=
  if k ≤ heap.length then (worst? heap).map Prod.snd else none

/-- The length of the longest run of terms whose caps sum to less than the threshold. -/
def splitPoint (theta : Option S) (cumulative : S) : List (Fin m) → ℕ
  | [] => 0
  | term :: rest =>
    let cumulative := cumulative + (terms term).maxScore
    if theta.any fun theta => cumulative < theta then splitPoint theta cumulative rest + 1 else 0

variable (cursor : Cursors S m)

/-- The smallest next position of some terms. -/
def nextCandidate (essential : List (Fin m)) : Option ℕ :=
  essential.foldl (fun candidate term =>
    match (cursor term).head? with
    | none => candidate
    | some posting => some (candidate.elim posting.pos fun current => min current posting.pos)) none

/-- Move every cursor to the first posting at or past a position. -/
def advance (candidate : ℕ) : Cursors S m :=
  fun term => (cursor term).dropWhile fun posting => posting.pos < candidate

/-- The score a term gives the candidate, if its cursor stands on it. -/
def held (unread : List (ServingPosting S)) (candidate : ℕ) : Option S :=
  match unread with
  | [] => none
  | posting :: _ => if posting.pos = candidate then some posting.score else none

/-- Add the scores some terms give the candidate. -/
def addHeld (candidate : ℕ) (sum : S) (list : List (Fin m)) : S :=
  list.foldl (fun sum term => (held (cursor term) candidate).elim sum fun score => sum + score) sum

/-- The bound of the candidate: the non-essential caps and the others' scores. -/
def upperBound (candidate split : ℕ) : S :=
  let caps := ((pruningOrder terms).take split).foldl (fun sum term => sum + (terms term).maxScore) 0
  addHeld cursor candidate caps ((pruningOrder terms).drop split)

/-- Consume the candidate on every term that holds it. -/
def consume (candidate : ℕ) : Cursors S m := fun term =>
  match cursor term with
  | [] => []
  | posting :: rest => if posting.pos = candidate then rest else posting :: rest

/-- The state of the scan: the cursors and the heap. -/
structure ScanState (S : Type*) (m : ℕ) where
  cursor : Cursors S m
  heap : List (String × S)

variable (unitIdByPos : Std.ExtTreeMap ℕ String compare) (allowed : Option (Finset ℕ)) (k : ℕ)

/-- The heap after the candidate, whose postings the cursors stand on. -/
def offerCandidate (cursor : Cursors S m) (candidate split : ℕ) (heap : List (String × S)) :
    List (String × S) :=
  if admits allowed candidate then
    if (threshold k heap).any fun theta => upperBound terms cursor candidate split < theta then heap
    else
      let score := addHeld cursor candidate 0 (List.finRange m)
      match unitIdByPos[candidate]? with
      | some unitId => offer k heap (unitId, score)
      | none => heap
  else heap

/-- One round of the scan, or the end of it. -/
def step (state : ScanState S m) : Option (ScanState S m) :=
  let split := splitPoint terms (threshold k state.heap) 0 (pruningOrder terms)
  match nextCandidate state.cursor ((pruningOrder terms).drop split) with
  | none => none
  | some candidate =>
    let cursor := advance state.cursor candidate
    some
      { cursor := consume cursor candidate
        heap := offerCandidate terms unitIdByPos allowed k cursor candidate split state.heap }

/-- The scan, for a number of rounds that suffices. -/
def scan : ℕ → ScanState S m → ScanState S m
  | 0, state => state
  | fuel + 1, state =>
    match step terms unitIdByPos allowed k state with
    | none => state
    | some next => scan fuel next

/-- The number of unread postings. -/
def unread (cursor : Cursors S m) : ℕ := ((List.finRange m).map fun term => (cursor term).length).sum

/-- The kept rows of a whole scan, ranked. -/
def select : List (String × S) :=
  let cursor : Cursors S m := fun term => (terms term).postings
  ranked (scan terms unitIdByPos allowed k (unread cursor + 1) ⟨cursor, []⟩).heap

end MaxScore

namespace Bm25Index

variable (scoring : Scoring S) (index : Bm25Index)

/-- The bounded ranking over the serving snapshot. -/
def rankMaxscore (P : Primitives) (query : String) (k : ℕ) (allowed : Option (Finset ℕ)) :
    List (String × S) :=
  if index.n = 0 then []
  else
    let queryTerms := (tokenize P query).toFinset
    if queryTerms = ∅ then []
    else
      let serving := index.buildServing scoring
      let terms := (ascending queryTerms).filterMap fun term => serving[term]?
      if terms.length = 0 then []
      else MaxScore.select terms.get index.unitIdByPos allowed k

/-- Score a query, best first. -/
def rank (P : Primitives) (query : String) (limit : Option ℕ) (allowed : Option (Finset ℕ)) :
    List (String × S) :=
  match limit with
  | none => index.rankReference scoring P query none allowed
  | some 0 => []
  | some k => index.rankMaxscore scoring P query k allowed

end Bm25Index

end LodeDB.Lexical
