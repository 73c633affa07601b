import LodeDB.Lib.TreeMap
import Mathlib.Data.Finset.Basic

/-!
# Maps of non-empty parts

An inverted index keeps, for each outer key, a map or a set of inner keys, and drops the outer key
with its last inner key. Such an index is determined by its parts, however it was reached.
-/

namespace Nested

open TreeMapRules

variable {κ ι V : Type*} {cmp : κ → κ → Ordering} [Std.TransCmp cmp]

section Parts

variable {α : Type*} [EmptyCollection α] {maps : Std.ExtTreeMap κ α cmp} {outer : κ} {new : α}

/-- The part under an outer key. -/
def part (maps : Std.ExtTreeMap κ α cmp) (outer : κ) : α := maps[outer]?.getD ∅

/-- No outer key is open with an empty part. -/
def NoEmpty (maps : Std.ExtTreeMap κ α cmp) : Prop := ∀ outer : κ, maps[outer]? ≠ some ∅

/-- Write a part, and drop the outer key with its last entry. -/
def write [DecidablePred fun new : α => new = ∅] (maps : Std.ExtTreeMap κ α cmp) (outer : κ) (new : α) :
    Std.ExtTreeMap κ α cmp :=
  if new = ∅ then maps.erase outer else maps.insert outer new

theorem part_of_none (h : maps[outer]? = none) : part maps outer = ∅ := by rw [part, h, Option.getD_none]

theorem part_of_some (h : maps[outer]? = some new) : part maps outer = new := by rw [part, h, Option.getD_some]

theorem noEmpty_empty : NoEmpty (∅ : Std.ExtTreeMap κ α cmp) := by
  intro outer
  simp

variable [Std.LawfulEqCmp cmp]

theorem part_map {β : Type*} [EmptyCollection β] {f : α → β} (hf : f ∅ = ∅) :
    part (maps.map fun _ => f) outer = f (part maps outer) := by
  rw [part, part, Std.ExtTreeMap.getElem?_map]
  cases maps[outer]? with
  | none => exact hf.symm
  | some new => rfl

theorem NoEmpty.map {β : Type*} [EmptyCollection β] {f : α → β} (h : NoEmpty maps) (hf : ∀ new, f new = ∅ → new = ∅) :
    NoEmpty (maps.map fun _ => f) := by
  intro outer hempty
  rw [Std.ExtTreeMap.getElem?_map] at hempty
  obtain ⟨new, hnew, himage⟩ := Option.map_eq_some_iff.mp hempty
  exact h outer (hf new himage ▸ hnew)

/-- Maps of non-empty parts with the same parts are equal. -/
theorem ext_part {left right : Std.ExtTreeMap κ α cmp} (hleft : NoEmpty left) (hright : NoEmpty right)
    (h : ∀ outer, part left outer = part right outer) : left = right := by
  refine Std.ExtTreeMap.ext_getElem? fun outer => ?_
  have hsame := h outer
  rcases Option.eq_none_or_eq_some left[outer]? with hl | ⟨first, hl⟩
  · rcases Option.eq_none_or_eq_some right[outer]? with hr | ⟨second, hr⟩
    · rw [hl, hr]
    · rw [part_of_none hl, part_of_some hr] at hsame
      exact absurd (hsame ▸ hr) (hright outer)
  · rcases Option.eq_none_or_eq_some right[outer]? with hr | ⟨second, hr⟩
    · rw [part_of_some hl, part_of_none hr] at hsame
      exact absurd (hsame ▸ hl) (hleft outer)
    · rw [part_of_some hl, part_of_some hr] at hsame
      rw [hl, hr, hsame]

variable [DecidableEq κ]

theorem part_insert (other : κ) :
    part (maps.insert outer new) other = if outer = other then new else part maps other := by
  rw [part, getElem?_insert]
  split <;> rfl

theorem NoEmpty.insert (h : NoEmpty maps) (hnew : new ≠ ∅) : NoEmpty (maps.insert outer new) := by
  intro other
  rw [getElem?_insert]
  split
  · exact fun hempty => hnew (Option.some.inj hempty)
  · exact h other

variable [DecidablePred fun new : α => new = ∅]

theorem part_write (other : κ) :
    part (write maps outer new) other = if outer = other then new else part maps other := by
  rw [write]
  split
  · rename_i hempty
    rw [part, getElem?_erase, hempty]
    split <;> rfl
  · exact part_insert other

theorem NoEmpty.write (h : NoEmpty maps) : NoEmpty (write maps outer new) := by
  rw [Nested.write]
  split
  · intro other
    rw [getElem?_erase]
    split
    · exact Option.some_ne_none _ |>.symm
    · exact h other
  · rename_i hnew
    exact h.insert hnew

/-- Nothing is dropped where nothing was. -/
theorem write_of_none (h : maps[outer]? = none) : write maps outer ∅ = maps := by
  rw [write, if_pos rfl]
  refine Std.ExtTreeMap.ext_getElem? fun other => ?_
  rw [getElem?_erase]
  split
  · rename_i hsame
    rw [← hsame, h]
  · rfl

end Parts

section Maps

variable {cmp' : ι → ι → Ordering} [Std.TransCmp cmp']

/-- A map of maps. -/
abbrev Maps (κ ι V : Type*) (cmp : κ → κ → Ordering) (cmp' : ι → ι → Ordering) :=
  Std.ExtTreeMap κ (Std.ExtTreeMap ι V cmp') cmp

instance decidableEqEmpty : DecidablePred fun new : Std.ExtTreeMap ι V cmp' => new = ∅ := fun _ =>
  decidable_of_iff _ Std.ExtTreeMap.isEmpty_iff

variable (maps : Maps κ ι V cmp cmp') (outer : κ) (inner : ι)

/-- The value under an outer and an inner key. -/
def find : Option V :=
  maps[outer]?.bind fun part => part[inner]?

/-- Write a value, opening the outer key if needed. -/
def put (value : V) : Maps κ ι V cmp cmp' :=
  maps.insert outer ((part maps outer).insert inner value)

/-- Remove an inner key, and the outer key with its last inner key. -/
def drop : Maps κ ι V cmp cmp' :=
  match maps[outer]? with
  | none => maps
  | some part =>
    if (part.erase inner).isEmpty then maps.erase outer else maps.insert outer (part.erase inner)

theorem find_eq : find maps outer inner = (part maps outer)[inner]? := by
  rw [find, part]
  cases maps[outer]? <;> simp

theorem drop_eq_write [Std.LawfulEqCmp cmp] [DecidableEq κ] (maps : Maps κ ι V cmp cmp') (outer : κ) (inner : ι) :
    drop maps outer inner = write maps outer ((part maps outer).erase inner) := by
  cases h : maps[outer]? with
  | none => rw [drop, h, part_of_none h, Std.ExtTreeMap.erase_empty, write_of_none h]
  | some part => simp only [drop, h, part_of_some h, write, Std.ExtTreeMap.isEmpty_iff]

variable [Std.LawfulEqCmp cmp'] [Std.LawfulEqCmp cmp]

/-- Maps of non-empty parts with the same entries are equal. -/
theorem ext_find {left right : Maps κ ι V cmp cmp'} (hleft : NoEmpty left) (hright : NoEmpty right)
    (h : ∀ outer inner, find left outer inner = find right outer inner) : left = right := by
  refine ext_part hleft hright fun outer => Std.ExtTreeMap.ext_getElem? fun inner => ?_
  rw [← find_eq, ← find_eq, h]

variable [DecidableEq κ]

theorem NoEmpty.put {maps : Maps κ ι V cmp cmp'} (h : NoEmpty maps) (outer : κ) (inner : ι) (value : V) :
    NoEmpty (put maps outer inner value) := by
  refine h.insert fun hempty => ?_
  have hread := congrArg (fun part => part[inner]?) hempty
  simp at hread

variable [DecidableEq ι]

theorem find_put (maps : Maps κ ι V cmp cmp') (outer other : κ) (inner key : ι) (value : V) :
    find (put maps outer inner value) other key =
      if outer = other ∧ inner = key then some value else find maps other key := by
  rw [find_eq, find_eq, put, part_insert]
  by_cases houter : outer = other
  · simp [houter, getElem?_insert]
  · simp [houter]

theorem find_drop (maps : Maps κ ι V cmp cmp') (outer other : κ) (inner key : ι) :
    find (drop maps outer inner) other key = if outer = other ∧ inner = key then none else find maps other key := by
  rw [find_eq, find_eq, drop_eq_write, part_write]
  by_cases houter : outer = other
  · simp [houter, getElem?_erase]
  · simp [houter]

end Maps

section Sets

variable [DecidableEq ι]

/-- A map of sets. -/
abbrev Sets (κ ι : Type*) (cmp : κ → κ → Ordering) := Std.ExtTreeMap κ (Finset ι) cmp

/-- Add a member, opening the outer key if needed. -/
def add (sets : Sets κ ι cmp) (outer : κ) (member : ι) : Sets κ ι cmp :=
  sets.insert outer (insert member (part sets outer))

/-- Remove a member, and the outer key with its last member. -/
def remove (sets : Sets κ ι cmp) (outer : κ) (member : ι) : Sets κ ι cmp :=
  match sets[outer]? with
  | none => sets
  | some items =>
    if items.erase member = ∅ then sets.erase outer else sets.insert outer (items.erase member)

theorem remove_eq_write [Std.LawfulEqCmp cmp] [DecidableEq κ] (sets : Sets κ ι cmp) (outer : κ) (member : ι) :
    remove sets outer member = write sets outer ((part sets outer).erase member) := by
  cases h : sets[outer]? with
  | none => rw [remove, h, part_of_none h, Finset.erase_empty, write_of_none h]
  | some items => simp only [remove, h, part_of_some h, write]

end Sets

end Nested
