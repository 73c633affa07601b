import Mathlib.Data.Finset.Image
import Mathlib.Data.List.Sort

/-!
# Finite sets in ascending order

Ordered set containers iterate in ascending order. `ascending` is that iteration for a `Finset`,
computed by a structural sort so that closed terms evaluate.
-/

namespace SortedSet

variable {α : Type*} [LinearOrder α]

variable (items : Finset α)

/-- The elements of a finite set in ascending order. -/
def ascending : List α :=
  Quot.liftOn items.val (List.insertionSort (· ≤ ·)) fun _ _ hperm =>
    List.Perm.eq_of_pairwise (fun _ _ _ _ => le_antisymm) (List.pairwise_insertionSort _ _)
      (List.pairwise_insertionSort _ _)
      ((List.perm_insertionSort _ _).trans (hperm.trans (List.perm_insertionSort _ _).symm))

/-- The iteration visits the elements of the set. -/
@[simp] theorem mem_ascending {items : Finset α} {item : α} : item ∈ ascending items ↔ item ∈ items := by
  obtain ⟨⟨values⟩, hnodup⟩ := items
  exact List.mem_insertionSort _

/-- The iteration visits each element once. -/
theorem ascending_nodup : (ascending items).Nodup := by
  obtain ⟨⟨values⟩, hnodup⟩ := items
  exact (List.perm_insertionSort _ _).nodup_iff.mpr hnodup

/-- The iteration is in strictly ascending order. -/
theorem ascending_pairwise : (ascending items).Pairwise (· < ·) := by
  have hle : (ascending items).Pairwise (· ≤ ·) := by
    obtain ⟨⟨values⟩, hnodup⟩ := items
    exact List.pairwise_insertionSort _ _
  exact (hle.and (ascending_nodup items)).imp fun {_ _} h => lt_of_le_of_ne h.1 h.2

/-- Collecting the iteration gives the set back. -/
@[simp] theorem toFinset_ascending : (ascending items).toFinset = items := by
  ext item
  simp

/-- Machine words in ascending order. -/
def ascendingWords (words : Finset UInt64) : List UInt64 :=
  (ascending (words.image UInt64.toNat)).map UInt64.ofNat

@[simp] theorem mem_ascendingWords {words : Finset UInt64} {word : UInt64} :
    word ∈ ascendingWords words ↔ word ∈ words := by
  simp [ascendingWords]

theorem ascendingWords_nodup (words : Finset UInt64) : (ascendingWords words).Nodup := by
  refine List.Nodup.map_on ?_ (ascending_nodup _)
  intro left hleft right hright heq
  rw [mem_ascending, Finset.mem_image] at hleft hright
  obtain ⟨leftWord, -, rfl⟩ := hleft
  obtain ⟨rightWord, -, rfl⟩ := hright
  rw [UInt64.ofNat_toNat, UInt64.ofNat_toNat] at heq
  rw [heq]

end SortedSet
