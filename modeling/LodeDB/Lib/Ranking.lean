import Mathlib.Data.List.Sort
import Mathlib.Data.Prod.Lex

/-!
# Ranked rows

A row is an id with a score. Rows are ranked by descending score, then by ascending id, and a
bounded request keeps the first rows of that ranking. The ranking depends on the rows only, not on
the order in which they were found, and a row that ranks behind a full selection can be left out.
-/

namespace Ranking

variable {U S : Type*} [LinearOrder U] [LinearOrder S]

variable {k : ℕ}

/-- A row ranks before another: a higher score, or the same and an id not larger. -/
def Before (left right : U × S) : Prop := right.2 < left.2 ∨ (left.2 = right.2 ∧ left.1 ≤ right.1)

instance : DecidableRel (Before (U := U) (S := S)) := fun left right => by
  unfold Before
  infer_instance

/-- The place of a row in the ranking. -/
def place (row : U × S) : Sᵒᵈ ×ₗ U := toLex (OrderDual.toDual row.2, row.1)

variable {left right : U × S}

theorem before_iff : Before left right ↔ place left ≤ place right := by
  simp [Before, place, Prod.Lex.toLex_le_toLex]

theorem before_total (left right : U × S) : Before left right ∨ Before right left := by
  rw [before_iff, before_iff]
  exact le_total _ _

theorem before_trans {middle : U × S} (h : Before left middle) (h' : Before middle right) : Before left right :=
  before_iff.mpr ((before_iff.mp h).trans (before_iff.mp h'))

theorem before_antisymm (h : Before left right) (h' : Before right left) : left = right := by
  have hplace : place left = place right := le_antisymm (before_iff.mp h) (before_iff.mp h')
  rw [place, place, toLex_inj, Prod.mk.injEq] at hplace
  exact Prod.ext hplace.2 hplace.1

instance : Std.Total (Before (U := U) (S := S)) := ⟨before_total⟩

instance : IsTrans (U × S) Before := ⟨fun _ _ _ => before_trans⟩

/-- A row with a higher score ranks before. -/
theorem before_of_score_lt (h : right.2 < left.2) : Before left right := .inl h

/-- Ranking before means a score that is not lower. -/
theorem Before.score_le (h : Before left right) : right.2 ≤ left.2 :=
  h.elim le_of_lt fun h => h.1.ge

variable (rows : List (U × S))

/-- The rows in rank order. -/
def ranked : List (U × S) := rows.insertionSort Before

theorem ranked_perm : (ranked rows).Perm rows := List.perm_insertionSort _ _

theorem ranked_pairwise : (ranked rows).Pairwise Before :=
  List.pairwise_insertionSort _ _

variable {left right : List (U × S)}

/-- Two lists in rank order with the same rows are equal. -/
theorem eq_of_perm_of_pairwise (hperm : left.Perm right)
    (hleft : left.Pairwise Before) (hright : right.Pairwise Before) : left = right :=
  hperm.eq_of_pairwise (fun _ _ _ _ => before_antisymm) hleft hright

/-- The ranking does not depend on the order in which the rows come. -/
theorem ranked_eq_of_perm (hperm : left.Perm right) : ranked left = ranked right :=
  eq_of_perm_of_pairwise ((ranked_perm left).trans (hperm.trans (ranked_perm right).symm))
    (ranked_pairwise left) (ranked_pairwise right)

variable {rows : List (U × S)}

theorem ranked_eq_self (hrows : rows.Pairwise Before) : ranked rows = rows :=
  eq_of_perm_of_pairwise (ranked_perm rows) (ranked_pairwise rows) hrows

/-- The first rows of the ranking. -/
def best (k : ℕ) (rows : List (U × S)) : List (U × S) := (ranked rows).take k

theorem best_eq_of_perm (k : ℕ) (hperm : left.Perm right) :
    best k left = best k right := by
  rw [best, best, ranked_eq_of_perm hperm]

theorem best_pairwise (k : ℕ) (rows : List (U × S)) : (best k rows).Pairwise Before :=
  (ranked_pairwise rows).sublist (List.take_sublist _ _)

theorem best_length_le (k : ℕ) (rows : List (U × S)) : (best k rows).length ≤ k :=
  List.length_take_le _ _

/-- Inserting and then cutting needs only the first entries of a list. -/
theorem take_orderedInsert_take (k : ℕ) (row : U × S) (rows : List (U × S)) :
    (List.orderedInsert Before row rows).take k = (List.orderedInsert Before row (rows.take k)).take k := by
  induction rows generalizing k with
  | nil => simp
  | cons first rest ih =>
    cases k with
    | zero => simp
    | succ k =>
      rw [List.take_succ_cons, List.orderedInsert_cons, List.orderedInsert_cons]
      split
      · cases k with
        | zero => simp
        | succ k => simp [List.take_take]
      · simp only [List.take_succ_cons, ih k]

/-- A selection is enough to select again after one more row. -/
theorem best_cons (k : ℕ) (row : U × S) (rows : List (U × S)) :
    best k (row :: rows) = best k (row :: best k rows) := by
  have hinsert : ∀ others, ranked (row :: others) = List.orderedInsert Before row (ranked others) :=
    fun others => rfl
  rw [best, best, hinsert, hinsert, ranked_eq_self (best_pairwise k rows), best]
  exact take_orderedInsert_take k row (ranked rows)

/-- A row behind a full selection does not enter it. -/
theorem best_cons_of_behind {row : U × S} (hfull : (best k rows).length = k)
    (hbehind : ∀ kept ∈ best k rows, Before kept row) : best k (row :: rows) = best k rows := by
  have hlast : (best k rows ++ [row]).Pairwise Before := by
    rw [List.pairwise_append]
    refine ⟨best_pairwise k rows, List.pairwise_singleton _ _, ?_⟩
    intro kept hkept other hother
    rw [List.mem_singleton.mp hother]
    exact hbehind kept hkept
  have hperm : (row :: best k rows).Perm (best k rows ++ [row]) := @List.perm_append_comm _ [row] _
  rw [best_cons, best_eq_of_perm k hperm, best, ranked_eq_self hlast,
    List.take_append_of_le_length hfull.ge, List.take_of_length_le hfull.le]

/-- Rows behind a full selection do not enter it. -/
theorem best_append_of_behind (more : List (U × S)) (hfull : (best k rows).length = k)
    (hbehind : ∀ kept ∈ best k rows, ∀ row ∈ more, Before kept row) : best k (more ++ rows) = best k rows := by
  induction more with
  | nil => rfl
  | cons row more ih =>
    have hmore := ih fun kept hkept other hother => hbehind kept hkept other (List.mem_cons_of_mem _ hother)
    rw [List.cons_append, ← hmore]
    refine best_cons_of_behind (hmore ▸ hfull) ?_
    intro kept hkept
    exact hbehind kept (hmore ▸ hkept) row List.mem_cons_self

section Selection

variable (selection : List (U × S))

/-- A bounded selection in rank order, as a heap whose root is the worst row it keeps. -/
def push (row : U × S) : List (U × S) := List.orderedInsert Before row selection

/-- The root: the worst row kept. -/
def worst? : Option (U × S) := selection.getLast?

/-- Remove the worst row kept. -/
def pop : List (U × S) := selection.dropLast

/-- Offer a row to a selection of at most `k`: keep it while there is room, else only in place of a worse one. -/
def offer (k : ℕ) (selection : List (U × S)) (row : U × S) : List (U × S) :=
  if selection.length < k then push selection row
  else if (worst? selection).any (fun worst => Before row worst ∧ row ≠ worst) then
    push (pop selection) row
  else selection

/-- Every row kept ranks before the worst one. -/
theorem before_worst {selection : List (U × S)} (hsorted : selection.Pairwise Before) {worst : U × S}
    (hworst : worst? selection = some worst) {kept : U × S} (hkept : kept ∈ selection) : Before kept worst := by
  obtain ⟨front, rfl⟩ := List.getLast?_eq_some_iff.mp hworst
  rcases List.mem_append.mp hkept with hfront | hlast
  · exact (List.pairwise_append.mp hsorted).2.2 kept hfront worst (by simp)
  · rw [List.mem_singleton.mp hlast]
    exact (before_total worst worst).elim id id

/-- Offering a row to the best of some rows gives the best of all of them. -/
theorem offer_best (hk : 0 < k) (rows : List (U × S)) (row : U × S) :
    offer k (best k rows) row = best k (row :: rows) := by
  have hsorted := best_pairwise k rows
  have hpush : ∀ selection : List (U × S), selection.Pairwise Before →
      push selection row = ranked (row :: selection) := by
    intro selection hselection
    have hstep : ranked (row :: selection) = List.orderedInsert Before row (ranked selection) := rfl
    rw [hstep, ranked_eq_self hselection, push]
  unfold offer
  split
  · rename_i hroom
    have hshort : (ranked (row :: best k rows)).length ≤ k := by
      rw [(ranked_perm _).length_eq]
      exact hroom
    rw [best_cons, hpush _ hsorted]
    exact (List.take_of_length_le hshort).symm
  · rename_i hroom
    have hlen : (best k rows).length = k := le_antisymm (best_length_le k rows) (not_lt.mp hroom)
    obtain ⟨front, worst, hsplit⟩ : ∃ front worst, best k rows = front ++ [worst] := by
      have hne : best k rows ≠ [] := by
        intro hnil
        rw [hnil] at hlen
        exact absurd hlen hk.ne
      exact ⟨_, _, (List.dropLast_append_getLast hne).symm⟩
    have hworst : worst? (best k rows) = some worst := by rw [worst?, hsplit, List.getLast?_concat]
    rw [hworst]
    split
    · rename_i henters
      obtain ⟨hbefore, -⟩ : Before row worst ∧ row ≠ worst := by simpa using henters
      have hpop : pop (best k rows) = front := by rw [pop, hsplit, List.dropLast_concat]
      have hfront : front.Pairwise Before := hsorted.sublist (by rw [hsplit]; exact List.sublist_append_left _ _)
      -- The new row and the front are the first `k`, and the old worst row comes after them.
      have hordered : (push front row ++ [worst]).Pairwise Before := by
        rw [hpush front hfront, List.pairwise_append]
        refine ⟨ranked_pairwise _, List.pairwise_singleton _ _, ?_⟩
        intro kept hkept other hother
        rw [List.mem_singleton.mp hother]
        rcases List.mem_cons.mp ((ranked_perm _).mem_iff.mp hkept) with rfl | hmem
        · exact hbefore
        · exact before_worst hsorted hworst (by rw [hsplit]; exact List.mem_append_left _ hmem)
      have hperm : (row :: best k rows).Perm (push front row ++ [worst]) := by
        rw [hsplit, hpush front hfront, ← List.cons_append]
        exact (ranked_perm _).symm.append_right [worst]
      have hcount : (push front row).length = k := by
        rw [← hlen, hsplit, push, List.orderedInsert_length, List.length_append, List.length_singleton]
      rw [hpop, best_cons, best_eq_of_perm k hperm, best, ranked_eq_self hordered,
        List.take_append_of_le_length hcount.ge, List.take_of_length_le hcount.le]
    · rename_i hstays
      have hbehind : Before worst row := by
        rcases before_total worst row with h | h
        · exact h
        · by_cases heq : row = worst
          · rwa [heq] at h ⊢
          · exact absurd (by simpa using ⟨h, heq⟩) hstays
      refine (best_cons_of_behind hlen ?_).symm
      intro kept hkept
      exact before_trans (before_worst hsorted hworst hkept) hbehind

end Selection

end Ranking
