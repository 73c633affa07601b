import LodeDB.Lib.TreeMap
import Mathlib.Algebra.Order.Group.Nat

/-!
# Last write wins

A keyed table under a list of writes, each storing or dropping the value of one key: a lookup
reads the last write of its key, and writes may be split by a test that the writes of a key pass
before they fail it.
-/

namespace Writes

/-- The last element of a list that passes a test. -/
def last? {W : Type*} (test : W → Bool) (items : List W) : Option W := items.reverse.find? test

section Last

variable {W X : Type*} {test : W → Bool} {items : List W} {item last : W}

theorem last?_cons (test : W → Bool) (item : W) (items : List W) :
    last? test (item :: items) = (last? test items).or (if test item then some item else none) := by
  cases htest : test item <;> simp [last?, htest]

theorem last?_map (test : X → Bool) (f : W → X) (items : List W) :
    last? test (items.map f) = (last? (test ∘ f) items).map f := by
  rw [last?, ← List.map_reverse, List.find?_map, last?]

theorem last?_congr {test other : W → Bool} (h : ∀ item ∈ items, test item = other item) :
    last? test items = last? other items := by
  induction items with
  | nil => rfl
  | cons item items ih =>
    rw [last?_cons, last?_cons, h item (.head _), ih fun item hitem => h item (.tail _ hitem)]

theorem last?_spec (h : last? test items = some last) : last ∈ items ∧ test last = true :=
  ⟨List.mem_reverse.mp (List.mem_of_find?_eq_some h), List.find?_some h⟩

theorem exists_last? (hitem : item ∈ items) (htest : test item = true) : ∃ last, last? test items = some last :=
  Option.isSome_iff_exists.mp (List.find?_isSome.mpr ⟨item, List.mem_reverse.mpr hitem, htest⟩)

end Last

variable {κ V : Type*} {cmp : κ → κ → Ordering} [Std.TransCmp cmp] [Std.LawfulEqCmp cmp] [DecidableEq κ]

variable (map : Std.ExtTreeMap κ V cmp)

/-- Store or drop the value of one key. -/
def write (entry : κ × Option V) : Std.ExtTreeMap κ V cmp :=
  match entry.2 with
  | some value => map.insert entry.1 value
  | none => map.erase entry.1

theorem getElem?_write (entry : κ × Option V) (key : κ) :
    (write map entry)[key]? = if entry.1 = key then entry.2 else map[key]? := by
  obtain ⟨other, value⟩ := entry
  cases value with
  | none => exact TreeMapRules.getElem?_erase map other key
  | some value => exact TreeMapRules.getElem?_insert map other key value

/-- A lookup after a list of writes reads the last write of its key. -/
theorem getElem?_foldl_write (entries : List (κ × Option V)) (key : κ) :
    (entries.foldl write map)[key]? = match last? (fun entry => entry.1 = key) entries with
      | some entry => entry.2
      | none => map[key]? := by
  induction entries generalizing map with
  | nil => rfl
  | cons entry entries ih =>
    rw [List.foldl_cons, ih, last?_cons]
    cases last? (fun entry => entry.1 = key) entries with
    | some found => rfl
    | none => simp only [Option.none_or, getElem?_write, decide_eq_true_eq]; split <;> rfl

/-- A write may come before writes of other keys. -/
theorem write_foldl_write {entry : κ × Option V} {entries : List (κ × Option V)}
    (h : ∀ other ∈ entries, entry.1 ≠ other.1) :
    write (entries.foldl write map) entry = entries.foldl write (write map entry) := by
  induction entries generalizing map with
  | nil => rfl
  | cons other entries ih =>
    obtain ⟨hother, hrest⟩ := List.forall_mem_cons.mp h
    rw [List.foldl_cons, ih _ hrest, List.foldl_cons]
    refine congrArg (entries.foldl write) (Std.ExtTreeMap.ext_getElem? fun {key} => ?_)
    simp only [getElem?_write]
    split <;> split <;> simp_all

/-- Writes may be split by a test that no write of a key passes after another one fails it. -/
theorem foldl_write_filter (test : κ × Option V → Bool) {entries : List (κ × Option V)}
    (h : entries.Pairwise fun earlier later => earlier.1 = later.1 → test later = true → test earlier = true) :
    (entries.filter fun entry => !test entry).foldl write ((entries.filter test).foldl write map) =
      entries.foldl write map := by
  induction entries generalizing map with
  | nil => rfl
  | cons entry entries ih =>
    obtain ⟨hentry, hrest⟩ := List.pairwise_cons.mp h
    cases htest : test entry with
    | true => simpa [htest] using ih _ hrest
    | false =>
      have happart (other : κ × Option V) (hother : other ∈ entries.filter test) : entry.1 ≠ other.1 := fun hsame =>
        absurd (hentry other (List.mem_filter.mp hother).1 hsame (List.mem_filter.mp hother).2) (by simp [htest])
      simpa [htest, write_foldl_write map happart] using ih _ hrest

end Writes
