import Mathlib.Data.List.Sort

/-!
# Partition points of a sorted run

A binary search for the first element that fails a test returns the length of the leading run that passes it. When
the test is closed downwards along the list, that point separates the elements that pass from those that fail.
`differenceMerge` walks two ascending runs together to find what the second lacks of the first.
-/

namespace SortedRun

variable {α : Type*}

variable {test : α → Bool} {items posted : List α}

/-- The index of the first element that fails the test. -/
def partitionPoint (test : α → Bool) (items : List α) : ℕ := (items.takeWhile test).length

/-- A test that never becomes true again once it has failed. -/
def IsPartitioned (test : α → Bool) (items : List α) : Prop :=
  items.Pairwise fun earlier later => test later = true → test earlier = true

/-- A sorted list is partitioned by every test the order carries downwards. -/
theorem isPartitioned_of_pairwise {order : α → α → Prop} (hsorted : items.Pairwise order)
    (hdown : ∀ earlier later, order earlier later → test later = true → test earlier = true) :
    IsPartitioned test items :=
  hsorted.imp fun {earlier later} => hdown earlier later

/-- The leading run holds the elements that pass, and what follows those that fail. -/
theorem takeWhile_eq_filter (h : IsPartitioned test items) :
    items.takeWhile test = items.filter test ∧ items.dropWhile test = items.filter fun item => !test item := by
  induction items with
  | nil => exact ⟨rfl, rfl⟩
  | cons first rest ih =>
    obtain ⟨hfirst, hrest⟩ := List.pairwise_cons.mp h
    cases htest : test first with
    | true => simpa [htest] using ih hrest
    | false =>
      have hfail : ∀ item ∈ rest, test item = false := fun item hitem => by
        by_contra hpass
        rw [hfirst item hitem (by simpa using hpass)] at htest
        cases htest
      have hrest : rest.filter (fun item => !test item) = rest :=
        List.filter_eq_self.mpr fun item hitem => by simp [hfail item hitem]
      simpa [htest, hrest] using hfail

/-- Before the partition point stand exactly the elements that pass. -/
theorem mem_take_partitionPoint (h : IsPartitioned test items) (a : α) :
    a ∈ items.take (partitionPoint test items) ↔ a ∈ items ∧ test a = true := by
  have hsplit : items.take (partitionPoint test items) = items.takeWhile test :=
    (List.prefix_iff_eq_take.mp (List.takeWhile_prefix test)).symm
  rw [hsplit, (takeWhile_eq_filter h).1, List.mem_filter]

/-- Skipping the elements that pass leaves what stands from the partition point on. -/
theorem dropWhile_eq_drop (test : α → Bool) (items : List α) :
    items.dropWhile test = items.drop (partitionPoint test items) := by
  have hsplit := congrArg (List.drop (partitionPoint test items)) (items.takeWhile_append_dropWhile (p := test))
  rwa [partitionPoint, List.drop_left] at hsplit

/-- Skipping the elements that pass leaves exactly those that fail. -/
theorem dropWhile_eq_filter (h : IsPartitioned test items) :
    items.dropWhile test = items.filter fun item => !test item := (takeWhile_eq_filter h).2

/-- From the partition point on stand exactly the elements that fail. -/
theorem mem_drop_partitionPoint (h : IsPartitioned test items) (a : α) :
    a ∈ items.drop (partitionPoint test items) ↔ a ∈ items ∧ test a = false := by
  rw [← dropWhile_eq_drop, dropWhile_eq_filter h, List.mem_filter, Bool.not_eq_true']

section Merge

variable [LinearOrder α]

/-- The elements of an ascending run that a second ascending run lacks. -/
def differenceMerge : List α → List α → List α
  | [], _ => []
  | item :: items, posted =>
    let ahead := posted.dropWhile (· < item)
    if ahead.head? = some item then differenceMerge items ahead.tail
    else item :: differenceMerge items ahead

/-- What stands ahead of an element in an ascending run is not below it. -/
theorem mem_dropWhile_lt (hposted : posted.Pairwise (· ≤ ·)) (item other : α) :
    other ∈ posted.dropWhile (· < item) ↔ other ∈ posted ∧ item ≤ other := by
  have hpart : IsPartitioned (fun value => decide (value < item)) posted :=
    isPartitioned_of_pairwise hposted fun _ _ hle hlt =>
      decide_eq_true (hle.trans_lt (of_decide_eq_true hlt))
  simp [dropWhile_eq_filter hpart]

/-- An element heads what stands ahead of it exactly if the run holds it. -/
theorem head?_dropWhile_lt (hposted : posted.Pairwise (· ≤ ·)) (item : α) :
    (posted.dropWhile (· < item)).head? = some item ↔ item ∈ posted := by
  have hahead := mem_dropWhile_lt hposted item
  have hsorted := hposted.sublist (List.dropWhile_sublist (p := fun value => decide (value < item)))
  constructor
  · intro h
    exact ((hahead item).mp (List.mem_of_mem_head? h)).1
  · intro h
    have hmem := (hahead item).mpr ⟨h, le_rfl⟩
    cases hrun : posted.dropWhile (· < item) with
    | nil =>
      rw [hrun] at hmem
      cases hmem
    | cons head tail =>
      rw [hrun] at hmem hahead hsorted
      have hle : item ≤ head := ((hahead head).mp List.mem_cons_self).2
      rcases List.mem_cons.mp hmem with rfl | htail
      · rfl
      · exact congrArg some (le_antisymm ((List.pairwise_cons.mp hsorted).1 item htail) hle)

/-- The merge returns exactly the elements the second run lacks. -/
theorem mem_differenceMerge (hitems : items.Pairwise (· < ·)) (hposted : posted.Pairwise (· < ·)) (item : α) :
    item ∈ differenceMerge items posted ↔ item ∈ items ∧ item ∉ posted := by
  induction items generalizing posted with
  | nil => simp [differenceMerge]
  | cons first rest ih =>
    obtain ⟨hfirst, hrest⟩ := List.pairwise_cons.mp hitems
    have hle : posted.Pairwise (· ≤ ·) := hposted.imp le_of_lt
    have hahead := mem_dropWhile_lt hle first
    have hhead := head?_dropWhile_lt hle first
    have hsorted := hposted.sublist (List.dropWhile_sublist (p := fun value => decide (value < first)))
    simp only [differenceMerge]
    split
    · rename_i hfound
      have hpost := hhead.mp hfound
      rw [ih hrest (hsorted.sublist (List.tail_sublist _)), List.mem_cons]
      constructor
      · rintro ⟨hmem, hmiss⟩
        refine ⟨.inr hmem, fun hitem => hmiss ?_⟩
        have hin := (hahead item).mpr ⟨hitem, (hfirst item hmem).le⟩
        rw [← List.cons_head?_tail hfound] at hin
        exact (List.mem_cons.mp hin).resolve_left (hfirst item hmem).ne'
      · rintro ⟨rfl | hmem, hmiss⟩
        · exact absurd hpost hmiss
        · exact ⟨hmem, fun hitem => hmiss ((hahead item).mp (List.mem_of_mem_tail hitem)).1⟩
    · rename_i hmiss
      have hnot : first ∉ posted := fun h => hmiss (hhead.mpr h)
      rw [List.mem_cons, ih hrest hsorted, List.mem_cons]
      constructor
      · rintro (rfl | ⟨hmem, hitem⟩)
        · exact ⟨.inl rfl, hnot⟩
        · exact ⟨.inr hmem, fun h => hitem ((hahead item).mpr ⟨h, (hfirst item hmem).le⟩)⟩
      · rintro ⟨rfl | hmem, hitem⟩
        · exact .inl rfl
        · exact .inr ⟨hmem, fun h => hitem ((hahead item).mp h).1⟩

end Merge

end SortedRun
