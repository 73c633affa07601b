import LodeDB.Lexical.Rank
import LodeDB.Lib.SortedRun
import Mathlib.Algebra.BigOperators.Group.List.Basic
import Mathlib.Algebra.Order.BigOperators.Group.List
import Mathlib.Data.Finset.Union
import Mathlib.Data.Fintype.Basic

/-!
# The pruned ranking is the exhaustive one

The scan is followed by its frontier: every cursor stands at the first posting at or past it, and the heap holds the
best rows of the positions below it. A round moves the frontier past its candidate. The positions it passes over
occur in non-essential terms only, so their scores stay strictly below the worst score kept.
-/

namespace LodeDB.Lexical.MaxScore

open SortedSet Ranking SortedRun

variable {S : Type*} [AddCommMonoid S] [LinearOrder S]

variable {candidate pos : ℕ}

/-- The score a term gives a position, if it has a posting there. -/
def scoreAt (term : ServingTerm S) (pos : ℕ) : Option S :=
  (term.postings.find? fun posting => posting.pos = pos).map (·.score)

/-- The unread postings of a term once all positions below a frontier are read. -/
def readTo (term : ServingTerm S) (frontier : ℕ) : List (ServingPosting S) :=
  term.postings.filter fun posting => frontier ≤ posting.pos

theorem readTo_sorted (term : ServingTerm S) (frontier : ℕ) : ((readTo term frontier).map (·.pos)).Pairwise (· < ·) :=
  term.sorted.sublist (List.filter_sublist.map _)

variable {term : ServingTerm S} {posting : ServingPosting S} {frontier : ℕ}

theorem mem_readTo :
    posting ∈ readTo term frontier ↔ posting ∈ term.postings ∧ frontier ≤ posting.pos := by
  simp [readTo]

variable {score : S}

/-- A position has a score exactly if the term has a posting there. -/
theorem scoreAt_eq_some (h : scoreAt term pos = some score) : ⟨pos, score⟩ ∈ term.postings := by
  obtain ⟨posting, hfound, rfl⟩ := Option.map_eq_some_iff.mp h
  have hpos : posting.pos = pos := by simpa using List.find?_some hfound
  rw [← hpos]
  exact List.mem_of_find?_eq_some hfound

theorem exists_scoreAt (hpost : posting ∈ term.postings) : ∃ score, scoreAt term posting.pos = some score := by
  have hsome : (term.postings.find? fun other => other.pos = posting.pos).isSome := by
    rw [List.find?_isSome]
    exact ⟨posting, hpost, by simp⟩
  obtain ⟨found, hfound⟩ := Option.isSome_iff_exists.mp hsome
  exact ⟨found.score, by rw [scoreAt, hfound]; rfl⟩

theorem scoreAt_le_maxScore (term : ServingTerm S) (pos : ℕ) : (scoreAt term pos).getD 0 ≤ term.maxScore := by
  rcases Option.eq_none_or_eq_some (scoreAt term pos) with h | ⟨score, h⟩
  · rw [h]
    exact term.floor
  · rw [h]
    exact term.bounded _ (scoreAt_eq_some h)

/-- Reading on to a later frontier. -/
theorem readTo_of_le (term : ServingTerm S) {frontier later : ℕ} (hle : frontier ≤ later) :
    readTo term later = (readTo term frontier).filter fun posting => later ≤ posting.pos := by
  rw [readTo, readTo, List.filter_filter]
  refine List.filter_congr fun posting _ => ?_
  rw [← Bool.decide_and, decide_eq_decide]
  omega

/-- Skipping the postings before a candidate reads on to it. -/
theorem dropWhile_readTo (term : ServingTerm S) {frontier : ℕ} (hle : frontier ≤ candidate) :
    (readTo term frontier).dropWhile (fun posting => posting.pos < candidate) = readTo term candidate := by
  have hsorted := List.pairwise_map.mp (readTo_sorted term frontier)
  have hpart : IsPartitioned (fun posting : ServingPosting S => decide (posting.pos < candidate))
      (readTo term frontier) := by
    refine isPartitioned_of_pairwise hsorted ?_
    intro earlier later hlt htest
    exact decide_eq_true (hlt.trans (of_decide_eq_true htest))
  rw [dropWhile_eq_filter hpart, readTo_of_le term hle]
  refine List.filter_congr fun posting _ => ?_
  rw [← decide_not, decide_eq_decide, not_lt]

/-- Past the first unread posting stand later positions only. -/
theorem lt_pos_of_mem_tail {first : ServingPosting S} {rest : List (ServingPosting S)}
    (hread : readTo term frontier = first :: rest) (hpost : posting ∈ rest) : first.pos < posting.pos := by
  have hsorted := readTo_sorted term frontier
  rw [hread, List.map_cons, List.pairwise_cons] at hsorted
  exact hsorted.1 _ (List.mem_map_of_mem hpost)

theorem le_pos_of_mem_readTo (hpost : posting ∈ readTo term frontier) :
    frontier ≤ posting.pos := (mem_readTo.mp hpost).2

/-- At the candidate, the score a cursor holds is the score of the term there. -/
theorem held_readTo (term : ServingTerm S) (candidate : ℕ) :
    held (readTo term candidate) candidate = scoreAt term candidate := by
  have hfind : (term.postings.find? fun posting => posting.pos = candidate) =
      (readTo term candidate).find? fun posting => posting.pos = candidate := by
    rw [readTo, List.find?_filter]
    congr 1
    funext posting
    by_cases h : posting.pos = candidate
    · simp [h]
    · simp [h]
  rw [scoreAt, hfind]
  cases hread : readTo term candidate with
  | nil => rfl
  | cons first rest =>
    rw [held, List.find?_cons]
    by_cases hfirst : first.pos = candidate
    · simp [hfirst]
    · have hle : candidate ≤ first.pos := le_pos_of_mem_readTo (by rw [hread]; exact List.mem_cons_self)
      have hnone : (rest.find? fun posting => posting.pos = candidate) = none := by
        rw [List.find?_eq_none]
        intro posting hpost
        have hlt := lt_pos_of_mem_tail hread hpost
        simp only [decide_eq_true_eq]
        omega
      simp [hfirst, hnone]

variable {m : ℕ} (terms : Fin m → ServingTerm S)

/-- The cursors once all positions below a frontier are read. -/
def readAll (frontier : ℕ) : Cursors S m := fun term => readTo (terms term) frontier

theorem advance_readAll {frontier : ℕ} (hle : frontier ≤ candidate) :
    advance (readAll terms frontier) candidate = readAll terms candidate := by
  funext term
  exact dropWhile_readTo (terms term) hle

/-- Consuming the candidate reads on past it. -/
theorem consume_readAll (candidate : ℕ) :
    consume (readAll terms candidate) candidate = readAll terms (candidate + 1) := by
  funext term
  unfold consume readAll
  rw [readTo_of_le (terms term) (Nat.le_succ candidate)]
  cases hread : readTo (terms term) candidate with
  | nil => rfl
  | cons first rest =>
    have hle : candidate ≤ first.pos := le_pos_of_mem_readTo (by rw [hread]; exact List.mem_cons_self)
    have hrest : (rest.filter fun posting => candidate + 1 ≤ posting.pos) = rest := by
      rw [List.filter_eq_self]
      intro posting hpost
      have hlt := lt_pos_of_mem_tail hread hpost
      exact decide_eq_true (by omega)
    by_cases hfirst : first.pos = candidate
    · rw [List.filter_cons_of_neg (by simp [hfirst]), hrest]
      exact if_pos hfirst
    · have hpast : candidate + 1 ≤ first.pos := by omega
      rw [List.filter_cons_of_pos (by exact decide_eq_true hpast), hrest]
      exact if_neg hfirst

/-- The positions the terms have postings at. -/
def positions : Finset ℕ := Finset.univ.biUnion fun term => ((terms term).postings.map (·.pos)).toFinset

theorem mem_positions : pos ∈ positions terms ↔ ∃ term, ∃ posting ∈ (terms term).postings, posting.pos = pos := by
  simp [positions]

theorem mem_positions_iff_scoreAt : pos ∈ positions terms ↔ ∃ term score, scoreAt (terms term) pos = some score := by
  rw [mem_positions]
  constructor
  · rintro ⟨term, posting, hpost, rfl⟩
    exact ⟨term, exists_scoreAt hpost⟩
  · rintro ⟨term, score, hscore⟩
    exact ⟨term, _, scoreAt_eq_some hscore, rfl⟩

/-- The sum of the scores some terms give a position. -/
def partialScore (pos : ℕ) (list : List (Fin m)) : S :=
  (list.map fun term => (scoreAt (terms term) pos).getD 0).sum

/-- The score of a position: the sum over all terms. -/
def totalScore (pos : ℕ) : S := partialScore terms pos (List.finRange m)

/-- Adding up what the cursors hold adds up the scores at the candidate. -/
theorem addHeld_readAll (candidate : ℕ) (sum : S) (list : List (Fin m)) :
    addHeld (readAll terms candidate) candidate sum list = sum + partialScore terms candidate list := by
  induction list generalizing sum with
  | nil => simp [addHeld, partialScore]
  | cons term rest ih =>
    have hheld := held_readTo (terms term) candidate
    have hstep : addHeld (readAll terms candidate) candidate sum (term :: rest) =
        addHeld (readAll terms candidate) candidate
          ((scoreAt (terms term) candidate).elim sum fun score => sum + score) rest := by
      rw [← hheld]
      rfl
    rw [hstep, ih, partialScore, partialScore, List.map_cons, List.sum_cons, ← add_assoc]
    rcases Option.eq_none_or_eq_some (scoreAt (terms term) candidate) with h | ⟨score, h⟩
    · simp [h]
    · simp [h]

/-- The caps of some terms, summed. -/
def capSum (list : List (Fin m)) : S := (list.map fun term => (terms term).maxScore).sum

theorem foldl_maxScore (sum : S) (list : List (Fin m)) :
    list.foldl (fun sum term => sum + (terms term).maxScore) sum = sum + capSum terms list := by
  induction list generalizing sum with
  | nil => simp [capSum]
  | cons term rest ih => rw [List.foldl_cons, ih, capSum, capSum, List.map_cons, List.sum_cons, add_assoc]

theorem pruningOrder_perm : (pruningOrder terms).Perm (List.finRange m) := List.perm_insertionSort _ _

/-- The score of a position, over the non-essential terms and the essential ones. -/
theorem totalScore_eq (pos split : ℕ) :
    totalScore terms pos = partialScore terms pos ((pruningOrder terms).take split) +
      partialScore terms pos ((pruningOrder terms).drop split) := by
  rw [partialScore, partialScore, ← List.sum_append, ← List.map_append, List.take_append_drop]
  exact ((pruningOrder_perm terms).map _).sum_eq.symm

/-- The caps of the terms before the split stay strictly below the threshold. -/
theorem capSum_lt_of_splitPoint {theta : Option S} {cumulative : S} {list : List (Fin m)}
    (hpos : splitPoint terms theta cumulative list ≠ 0) :
    ∃ bound, theta = some bound ∧
      cumulative + capSum terms (list.take (splitPoint terms theta cumulative list)) < bound := by
  induction list generalizing cumulative with
  | nil => exact absurd rfl hpos
  | cons term rest ih =>
    rw [splitPoint] at hpos ⊢
    split at hpos
    · rename_i hbelow
      rw [if_pos hbelow, List.take_succ_cons, capSum, List.map_cons, List.sum_cons, ← add_assoc]
      by_cases hmore : splitPoint terms theta (cumulative + (terms term).maxScore) rest = 0
      · obtain ⟨bound, rfl, hlt⟩ : ∃ bound, theta = some bound ∧ cumulative + (terms term).maxScore < bound := by
          simpa [Option.any_eq_true] using hbelow
        exact ⟨bound, rfl, by simpa [hmore] using hlt⟩
      · exact ih hmore
    · exact absurd rfl hpos

variable {theta : S} {row : String × S} {heap : List (String × S)} {essential : List (Fin m)}

section Rows

variable (unitIdByPos : Std.ExtTreeMap ℕ String compare) (allowed : Option (Finset ℕ))

/-- The row of a position that is allowed and holds a unit. -/
def rowAt (pos : ℕ) : Option (String × S) :=
  if admits allowed pos then
    unitIdByPos[pos]?.map fun unitId => (unitId, totalScore terms pos)
  else none

/-- The rows of a set of positions. -/
def rowsOf (positions : Finset ℕ) : List (String × S) :=
  (ascending positions).filterMap (rowAt terms unitIdByPos allowed)

/-- Every row of a set of positions is the row of one of them, with its score. -/
theorem mem_rowsOf {positions : Finset ℕ} (hrow : row ∈ rowsOf terms unitIdByPos allowed positions) :
    ∃ pos ∈ positions, row.2 = totalScore terms pos := by
  obtain ⟨pos, hpos, hat⟩ := List.mem_filterMap.mp hrow
  refine ⟨pos, mem_ascending.mp hpos, ?_⟩
  rw [rowAt] at hat
  split at hat
  · obtain ⟨unitId, -, rfl⟩ := Option.map_eq_some_iff.mp hat
    rfl
  · cases hat

/-- The rows of two disjoint sets of positions. -/
theorem rowsOf_union {left right : Finset ℕ} (hdisj : Disjoint left right) :
    (rowsOf terms unitIdByPos allowed (left ∪ right)).Perm
      (rowsOf terms unitIdByPos allowed left ++ rowsOf terms unitIdByPos allowed right) := by
  rw [rowsOf, rowsOf, rowsOf, ← List.filterMap_append]
  refine List.Perm.filterMap _ ?_
  have hnodup : (ascending left ++ ascending right).Nodup := by
    rw [List.nodup_append]
    refine ⟨ascending_nodup left, ascending_nodup right, ?_⟩
    intro a ha b hb heq
    exact Finset.disjoint_left.mp hdisj (mem_ascending.mp ha) (heq ▸ mem_ascending.mp hb)
  rw [List.perm_ext_iff_of_nodup (ascending_nodup _) hnodup]
  intro pos
  simp

theorem rowsOf_singleton (pos : ℕ) :
    rowsOf terms unitIdByPos allowed {pos} = (rowAt terms unitIdByPos allowed pos).toList := by
  have hone : ascending ({pos} : Finset ℕ) = [pos] := rfl
  rw [rowsOf, hone, List.filterMap_cons]
  cases rowAt terms unitIdByPos allowed pos <;> rfl

variable (k : ℕ)

/-- The positions below a frontier. -/
def below (frontier : ℕ) : Finset ℕ := (positions terms).filter (· < frontier)

/-- The scan has read every position below a frontier. -/
structure Scanned (frontier : ℕ) (state : ScanState S m) : Prop where
  cursor : state.cursor = readAll terms frontier
  heap : state.heap = best k (rowsOf terms unitIdByPos allowed (below terms frontier))

/-- The split of the terms a state gives. -/
def splitOf (state : ScanState S m) : ℕ :=
  splitPoint terms (threshold k state.heap) 0 (pruningOrder terms)

variable {terms unitIdByPos allowed k} {frontier : ℕ} {state : ScanState S m}

omit [AddCommMonoid S] [LinearOrder S] in
/-- The threshold is the score of the worst row of a full selection. -/
theorem threshold_eq_some (h : threshold k heap = some theta) :
    k ≤ heap.length ∧ ∃ worst, worst? heap = some worst ∧ worst.2 = theta := by
  unfold threshold at h
  split at h
  · rename_i hfull
    exact ⟨hfull, Option.map_eq_some_iff.mp h⟩
  · cases h

omit [AddCommMonoid S] in
/-- A row whose score is below the threshold ranks behind every row kept. -/
theorem before_of_lt_threshold (hsorted : heap.Pairwise Before) (h : threshold k heap = some theta)
    (hrow : row.2 < theta) : ∀ kept ∈ heap, Before kept row := by
  intro kept hkept
  obtain ⟨-, worst, hworst, rfl⟩ := threshold_eq_some h
  exact before_of_score_lt (hrow.trans_le (before_worst hsorted hworst hkept).score_le)

omit [AddCommMonoid S] [LinearOrder S] in
/-- The next candidate is the smallest position the essential cursors stand on. -/
theorem nextCandidate_eq_min? (cursor : Cursors S m) (essential : List (Fin m)) :
    nextCandidate cursor essential = (essential.filterMap fun term => (cursor term).head?.map (·.pos)).min? := by
  unfold nextCandidate
  generalize hstep : (fun (candidate : Option ℕ) (term : Fin m) => _) = step
  have hnone : ∀ candidate term, (cursor term).head? = none → step candidate term = candidate := by
    intro candidate term hhead
    rw [← hstep]
    simp only [hhead]
  have hsome : ∀ candidate term posting, (cursor term).head? = some posting → step candidate term =
      some (candidate.elim posting.pos fun current => min current posting.pos) := by
    intro candidate term posting hhead
    rw [← hstep]
    simp only [hhead]
  have hfold : ∀ candidate : Option ℕ, essential.foldl step candidate =
      candidate.elim (essential.filterMap fun term => (cursor term).head?.map (·.pos)).min? fun least =>
        some ((essential.filterMap fun term => (cursor term).head?.map (·.pos)).foldl min least) := by
    clear hstep
    induction essential with
    | nil =>
      intro candidate
      cases candidate <;> rfl
    | cons term rest ih =>
      intro candidate
      rw [List.foldl_cons, ih]
      rcases Option.eq_none_or_eq_some (cursor term).head? with hhead | ⟨posting, hhead⟩
      · rw [hnone _ _ hhead, List.filterMap_cons_none (by rw [hhead]; rfl)]
      · rw [hsome _ _ _ hhead, List.filterMap_cons_some (by rw [hhead]; rfl)]
        cases candidate <;> rfl
  exact hfold none

/-- A position past the frontier that an essential term scores is not before the candidate. -/
theorem le_of_nextCandidate (hcand : nextCandidate (readAll terms frontier) essential = some candidate)
    {term : Fin m} (hterm : term ∈ essential) (hpos : frontier ≤ pos)
    (hscore : scoreAt (terms term) pos = some score) : candidate ≤ pos := by
  rw [nextCandidate_eq_min?, List.min?_eq_some_iff] at hcand
  have hmem := mem_readTo.mpr ⟨scoreAt_eq_some hscore, hpos⟩
  cases hread : readTo (terms term) frontier with
  | nil =>
    rw [hread] at hmem
    cases hmem
  | cons first rest =>
    have hfirst : candidate ≤ first.pos := hcand.2 _ (List.mem_filterMap.mpr
      ⟨term, hterm, by rw [readAll, hread]; rfl⟩)
    rw [hread] at hmem
    rcases List.mem_cons.mp hmem with heq | hrest
    · rw [← heq] at hfirst
      exact hfirst
    · exact hfirst.trans (lt_pos_of_mem_tail hread hrest).le

/-- The candidate is a position at or past the frontier that a term has a posting at. -/
theorem exists_of_nextCandidate (hcand : nextCandidate (readAll terms frontier) essential = some candidate) :
    ∃ term, ∃ posting ∈ readTo (terms term) frontier, posting.pos = candidate := by
  rw [nextCandidate_eq_min?, List.min?_eq_some_iff] at hcand
  obtain ⟨term, -, hhead⟩ := List.mem_filterMap.mp hcand.1
  obtain ⟨posting, hpost, heq⟩ := Option.map_eq_some_iff.mp hhead
  exact ⟨term, posting, List.mem_of_mem_head? hpost, heq⟩

/-- Without a candidate, no essential term scores a position at or past the frontier. -/
theorem scoreAt_of_nextCandidate_none (hnone : nextCandidate (readAll terms frontier) essential = none)
    {term : Fin m} (hterm : term ∈ essential) (hpos : frontier ≤ pos) : scoreAt (terms term) pos = none := by
  rw [nextCandidate_eq_min?, List.min?_eq_none_iff, List.filterMap_eq_nil_iff] at hnone
  rcases Option.eq_none_or_eq_some (scoreAt (terms term) pos) with h | ⟨score, h⟩
  · exact h
  · have hmem := mem_readTo.mpr ⟨scoreAt_eq_some h, hpos⟩
    have hempty := hnone term hterm
    rw [Option.map_eq_none_iff, List.head?_eq_none_iff] at hempty
    rw [readAll] at hempty
    rw [hempty] at hmem
    cases hmem

/-- The positions below a candidate are below the frontier or passed over. -/
theorem below_eq_union (hle : frontier ≤ candidate) :
    below terms candidate = below terms frontier ∪
      (positions terms).filter (fun pos => frontier ≤ pos ∧ pos < candidate) := by
  ext pos
  simp only [below, Finset.mem_filter, Finset.mem_union]
  constructor
  · rintro ⟨hpos, hlt⟩
    by_cases hbelow : pos < frontier
    · exact .inl ⟨hpos, hbelow⟩
    · exact .inr ⟨hpos, not_lt.mp hbelow, hlt⟩
  · rintro (⟨hpos, hlt⟩ | ⟨hpos, -, hlt⟩)
    · exact ⟨hpos, hlt.trans_le hle⟩
    · exact ⟨hpos, hlt⟩

/-- The rows below the next position are the candidate's and those below it. -/
theorem rowsOf_below_succ (hcand : candidate ∈ positions terms) :
    (rowsOf terms unitIdByPos allowed (below terms (candidate + 1))).Perm
      ((rowAt terms unitIdByPos allowed candidate).toList ++
        rowsOf terms unitIdByPos allowed (below terms candidate)) := by
  have hunion : below terms (candidate + 1) = {candidate} ∪ below terms candidate := by
    ext pos
    simp only [below, Finset.mem_filter, Finset.mem_union, Finset.mem_singleton]
    constructor
    · rintro ⟨hpos, hlt⟩
      rcases Nat.lt_succ_iff_lt_or_eq.mp hlt with hlt | heq
      · exact .inr ⟨hpos, hlt⟩
      · exact .inl heq
    · rintro (rfl | ⟨hpos, hlt⟩)
      · exact ⟨hcand, Nat.lt_succ_self _⟩
      · exact ⟨hpos, hlt.trans (Nat.lt_succ_self _)⟩
  have hdisj : Disjoint {candidate} (below terms candidate) := by
    simp [below]
  rw [hunion, ← rowsOf_singleton]
  exact rowsOf_union terms unitIdByPos allowed hdisj

/-- Reading past an unread posting leaves fewer of them. -/
theorem unread_readAll_lt {holder : Fin m} (hpost : posting ∈ readTo (terms holder) frontier) :
    unread (readAll terms (posting.pos + 1)) < unread (readAll terms frontier) := by
  have hle : frontier ≤ posting.pos + 1 := (le_pos_of_mem_readTo hpost).trans (Nat.le_succ _)
  refine List.sum_lt_sum _ _ ?_ ⟨holder, List.mem_finRange holder, ?_⟩
  · intro term _
    rw [readAll, readTo_of_le (terms term) hle]
    exact List.length_filter_le _ _
  · rw [readAll, readTo_of_le (terms holder) hle]
    refine List.length_filter_lt_length_iff_exists.mpr ⟨posting, hpost, ?_⟩
    simp

variable [IsOrderedAddMonoid S]

theorem partialScore_le_capSum (terms : Fin m → ServingTerm S) (pos : ℕ) (list : List (Fin m)) :
    partialScore terms pos list ≤ capSum terms list :=
  List.sum_le_sum fun term _ => scoreAt_le_maxScore (terms term) pos

/-- The bound of a candidate is not below its score. -/
theorem totalScore_le_upperBound (terms : Fin m → ServingTerm S) (candidate split : ℕ) :
    totalScore terms candidate ≤ upperBound terms (readAll terms candidate) candidate split := by
  rw [totalScore_eq terms candidate split, upperBound, foldl_maxScore, addHeld_readAll, zero_add]
  exact add_le_add_left (partialScore_le_capSum terms candidate _) _

/-- Positions that occur in non-essential terms only do not change the rows kept. -/
theorem Scanned.skip (h : Scanned terms unitIdByPos allowed k frontier state) (skipped : Finset ℕ)
    (hnew : Disjoint (below terms frontier) skipped) (hskip : skipped ⊆ positions terms)
    (hnone : ∀ pos ∈ skipped, ∀ term ∈ (pruningOrder terms).drop (splitOf terms k state),
      scoreAt (terms term) pos = none) :
    best k (rowsOf terms unitIdByPos allowed (below terms frontier ∪ skipped)) = state.heap := by
  rw [best_eq_of_perm k ((rowsOf_union terms unitIdByPos allowed hnew).trans List.perm_append_comm)]
  -- A skipped position has a score in some term, which is then before the split.
  have hbehind : ∀ pos ∈ skipped, ∃ theta, threshold k state.heap = some theta ∧ totalScore terms pos < theta := by
    intro pos hpos
    obtain ⟨term, score, hscore⟩ := (mem_positions_iff_scoreAt terms).mp (hskip hpos)
    have hnotDrop : term ∉ (pruningOrder terms).drop (splitOf terms k state) := by
      intro hterm
      rw [hnone pos hpos term hterm] at hscore
      cases hscore
    have hsplit : splitOf terms k state ≠ 0 := by
      intro hzero
      rw [hzero, List.drop_zero] at hnotDrop
      exact hnotDrop ((pruningOrder_perm terms).mem_iff.mpr (List.mem_finRange term))
    obtain ⟨theta, htheta, hlt⟩ := capSum_lt_of_splitPoint terms hsplit
    refine ⟨theta, htheta, ?_⟩
    have hzero : partialScore terms pos ((pruningOrder terms).drop (splitOf terms k state)) = 0 := by
      refine List.sum_eq_zero fun value hvalue => ?_
      obtain ⟨other, hother, rfl⟩ := List.mem_map.mp hvalue
      rw [hnone pos hpos other hother]
      rfl
    rw [totalScore_eq terms pos (splitOf terms k state), hzero, add_zero]
    rw [zero_add] at hlt
    exact (partialScore_le_capSum terms pos _).trans_lt hlt
  rcases skipped.eq_empty_or_nonempty with rfl | ⟨pos, hpos⟩
  · rw [h.heap]
    rfl
  · obtain ⟨theta, htheta, -⟩ := hbehind pos hpos
    have hfull := (threshold_eq_some htheta).1
    rw [h.heap] at hfull htheta hbehind ⊢
    refine best_append_of_behind _ (le_antisymm (best_length_le _ _) hfull) ?_
    intro kept hkept row hrow
    obtain ⟨source, hsource, hscore⟩ := mem_rowsOf terms unitIdByPos allowed hrow
    obtain ⟨theta', htheta', hlt⟩ := hbehind source hsource
    exact before_of_lt_threshold (best_pairwise _ _) htheta' (hscore ▸ hlt) kept hkept

/-- Offering the candidate to the best rows below it gives the best rows up to it. -/
theorem offerCandidate_eq (hk : 0 < k) {split : ℕ} (hcand : candidate ∈ positions terms) :
    offerCandidate terms unitIdByPos allowed k (readAll terms candidate) candidate split
        (best k (rowsOf terms unitIdByPos allowed (below terms candidate))) =
      best k (rowsOf terms unitIdByPos allowed (below terms (candidate + 1))) := by
  rw [best_eq_of_perm k (rowsOf_below_succ hcand), offerCandidate, rowAt]
  split
  · split
    · rename_i hpruned
      obtain ⟨theta, htheta, hlt⟩ : ∃ theta, threshold k
          (best k (rowsOf terms unitIdByPos allowed (below terms candidate))) = some theta ∧
            upperBound terms (readAll terms candidate) candidate split < theta := by
        simpa [Option.any_eq_true] using hpruned
      have hscore := (totalScore_le_upperBound terms candidate split).trans_lt hlt
      have hfull := le_antisymm (best_length_le _ _) (threshold_eq_some htheta).1
      cases unitIdByPos[candidate]? with
      | none => rfl
      | some unitId =>
        exact (best_cons_of_behind hfull (before_of_lt_threshold (best_pairwise _ _) htheta hscore)).symm
    · rw [addHeld_readAll, zero_add]
      cases unitIdByPos[candidate]? with
      | none => rfl
      | some unitId => exact offer_best hk _ _
  · rfl

/-- A round moves the frontier past its candidate. -/
theorem Scanned.step_some (hk : 0 < k) (h : Scanned terms unitIdByPos allowed k frontier state)
    {next : ScanState S m} (hstep : step terms unitIdByPos allowed k state = some next) :
    ∃ candidate, Scanned terms unitIdByPos allowed k (candidate + 1) next ∧
      unread next.cursor < unread state.cursor := by
  unfold step at hstep
  simp only at hstep
  split at hstep
  · cases hstep
  · rename_i candidate hcand
    rw [h.cursor] at hcand
    cases hstep
    obtain ⟨holder, posting, hpost, rfl⟩ := exists_of_nextCandidate hcand
    have hle := le_pos_of_mem_readTo hpost
    have hmem : posting.pos ∈ positions terms :=
      (mem_positions terms).mpr ⟨holder, posting, (mem_readTo.mp hpost).1, rfl⟩
    have hskip : best k (rowsOf terms unitIdByPos allowed (below terms posting.pos)) = state.heap := by
      rw [below_eq_union hle]
      refine h.skip _ ?_ (Finset.filter_subset _ _) ?_
      · rw [Finset.disjoint_left]
        intro pos hbelow hpassed
        exact absurd (Finset.mem_filter.mp hbelow).2 (not_lt.mpr (Finset.mem_filter.mp hpassed).2.1)
      · intro pos hpassed term hterm
        obtain ⟨-, hfrontier, hlt⟩ := Finset.mem_filter.mp hpassed
        rcases Option.eq_none_or_eq_some (scoreAt (terms term) pos) with hnone | ⟨score, hscore⟩
        · exact hnone
        · exact absurd (le_of_nextCandidate hcand hterm hfrontier hscore) (not_le.mpr hlt)
    refine ⟨posting.pos, ⟨?_, ?_⟩, ?_⟩
    · rw [h.cursor, advance_readAll terms hle, consume_readAll]
    · rw [h.cursor, advance_readAll terms hle, ← hskip]
      exact offerCandidate_eq hk hmem
    · rw [h.cursor, advance_readAll terms hle, consume_readAll]
      exact unread_readAll_lt hpost

/-- The scan ends with the best rows of all positions. -/
theorem Scanned.step_none (h : Scanned terms unitIdByPos allowed k frontier state)
    (hstep : step terms unitIdByPos allowed k state = none) :
    state.heap = best k (rowsOf terms unitIdByPos allowed (positions terms)) := by
  unfold step at hstep
  simp only at hstep
  split at hstep
  · rename_i hcand
    rw [h.cursor] at hcand
    have hall : positions terms = below terms frontier ∪ (positions terms).filter (frontier ≤ ·) := by
      simp only [below, ← not_lt]
      exact (Finset.filter_union_filter_not_eq _ _).symm
    rw [hall]
    refine (h.skip _ ?_ (Finset.filter_subset _ _) ?_).symm
    · rw [Finset.disjoint_left]
      intro pos hbelow hpast
      exact absurd (Finset.mem_filter.mp hbelow).2 (not_lt.mpr (Finset.mem_filter.mp hpast).2)
    · intro pos hpast term hterm
      exact scoreAt_of_nextCandidate_none hcand hterm (Finset.mem_filter.mp hpast).2
  · cases hstep

/-- With a round for each unread posting and one more, the scan ends. -/
theorem Scanned.scan (hk : 0 < k) {fuel : ℕ} (h : Scanned terms unitIdByPos allowed k frontier state)
    (hfuel : unread state.cursor < fuel) :
    (scan terms unitIdByPos allowed k fuel state).heap =
      best k (rowsOf terms unitIdByPos allowed (positions terms)) := by
  induction fuel generalizing frontier state with
  | zero => exact absurd hfuel (Nat.not_lt_zero _)
  | succ fuel ih =>
    rw [MaxScore.scan]
    rcases Option.eq_none_or_eq_some (step terms unitIdByPos allowed k state) with hnone | ⟨next, hsome⟩
    · rw [hnone]
      exact h.step_none hnone
    · rw [hsome]
      obtain ⟨candidate, hnext, hless⟩ := h.step_some hk hsome
      exact ih hnext (by omega)

/-- The rows a whole scan selects are the best rows of all positions. -/
theorem select_eq_best (terms : Fin m → ServingTerm S) (unitIdByPos : Std.ExtTreeMap ℕ String compare)
    (allowed : Option (Finset ℕ)) (hk : 0 < k) :
    select terms unitIdByPos allowed k = best k (rowsOf terms unitIdByPos allowed (positions terms)) := by
  have hstart : Scanned terms unitIdByPos allowed k 0
      (⟨fun term => (terms term).postings, []⟩ : ScanState S m) := by
    constructor
    · funext term
      simp [readAll, readTo]
    · have hnone : below terms 0 = ∅ := by simp [below]
      rw [hnone]
      exact (List.take_nil).symm
  rw [select, hstart.scan hk (Nat.lt_succ_self _), ranked_eq_self (best_pairwise _ _)]

end Rows

end LodeDB.Lexical.MaxScore
