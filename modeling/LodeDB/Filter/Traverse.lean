import LodeDB.Filter.FieldIndex

/-!
# Traversals of a validated filter

Counting, probing, materialising, resolving and evaluating against the indexes all walk a filter the same way: the
entries of a node are combined, `$and`, `$or` and `$not` recurse, and every other key is a field. `Traversal` holds
what one walk does at each step; the shapes a validated filter cannot have are rejected with the same texts
everywhere.

`Traversal.sound` is the one induction behind the results about these walks: a relation between tests and results
that every step keeps holds of the whole filter.
-/

namespace LodeDB.Filter

open ExceptRules

/-- What a walk over a validated filter does at each step. -/
structure Traversal (A : Type*) where
  node : List A → A
  conj : List A → A
  disj : List A → A
  neg : A → A
  field : String → Value → A
  reject : CoreError → A

namespace Traversal

variable {A : Type*} (walk : Traversal A)

mutual

/-- Walk a filter node. -/
def filter : Value → A
  | .object entries => walk.node (filterEntries entries)
  | _ => walk.reject (invalid "validated filter must be an object")
termination_by structural value => value

/-- Walk the entries of a node. -/
def filterEntries : List (String × Value) → List A
  | [] => []
  | entry :: rest => filterEntry entry :: filterEntries rest
termination_by structural entries => entries

/-- Walk one entry of a node. -/
def filterEntry : String × Value → A
  | (key, spec) =>
    if key = "$and" then filterSubs walk.conj "validated $and must be a list" spec
    else if key = "$or" then filterSubs walk.disj "validated $or must be a list" spec
    else if key = "$not" then walk.neg (filter spec)
    else walk.field key spec
termination_by structural entry => entry

/-- Walk the operand of `$and` or `$or`. -/
def filterSubs (combine : List A → A) (listError : String) : Value → A
  | .array subs => combine (filterList subs)
  | _ => walk.reject (invalid listError)
termination_by structural spec => spec

/-- Walk the filters of a list. -/
def filterList : List Value → List A
  | [] => []
  | sub :: rest => filter sub :: filterList rest
termination_by structural subs => subs

end

theorem filterEntries_eq_map (entries : List (String × Value)) :
    walk.filterEntries entries = entries.map walk.filterEntry := by
  induction entries with
  | nil => rfl
  | cons entry rest ih => rw [filterEntries, ih, List.map_cons]

variable (subs : List Value)

theorem filterList_eq_map : walk.filterList subs = subs.map walk.filter := by
  induction subs with
  | nil => rfl
  | cons sub rest ih => rw [filterList, ih, List.map_cons]

@[simp] theorem filter_object (entries : List (String × Value)) :
    walk.filter (.object entries) = walk.node (entries.map walk.filterEntry) := by
  rw [filter, filterEntries_eq_map]

@[simp] theorem filterEntry_and : walk.filterEntry ("$and", .array subs) = walk.conj (subs.map walk.filter) := by
  simp [filterEntry, filterSubs, filterList_eq_map]

@[simp] theorem filterEntry_or : walk.filterEntry ("$or", .array subs) = walk.disj (subs.map walk.filter) := by
  simp [filterEntry, filterSubs, filterList_eq_map]

@[simp] theorem filterEntry_not (sub : Value) : walk.filterEntry ("$not", sub) = walk.neg (walk.filter sub) := by
  simp [filterEntry]

theorem filterEntry_field {name : String} (hname : isLogicalOperator name = false) (spec : Value) :
    walk.filterEntry (name, spec) = walk.field name spec := by
  simp only [isLogicalOperator, Bool.or_eq_false_iff, beq_eq_false_iff_ne] at hname
  simp [filterEntry, hname.1.1, hname.1.2, hname.2]

end Traversal

/-- A computation that succeeds, and whose result, if it gives one, is as promised. -/
def Gives {α : Type} (promise : α → Prop) (result : Except CoreError (Option α)) : Prop :=
  ∃ value, result = .ok value ∧ ∀ given, value = some given → promise given

/-- Giving nothing promises nothing. -/
theorem Gives.none {α : Type} {promise : α → Prop} : Gives promise (.ok none) := ⟨_, rfl, by simp⟩

/-- Giving what is promised. -/
theorem Gives.some {α : Type} {promise : α → Prop} {given : α} (h : promise given) : Gives promise (.ok (some given)) :=
  ⟨_, rfl, fun _ hgiven => Option.some.inj hgiven ▸ h⟩

/-- Parts keep a relation under a combination of tests and one of results. -/
def Combines {A : Type*} (Sound : (Metadata → Bool) → A → Prop)
    (tests : List Bool → Bool) (results : List A → A) : Prop :=
  ∀ (ι : Type) (parts : List ι) (test : ι → Metadata → Bool) (result : ι → A), parts ≠ [] →
    (∀ part ∈ parts, Sound (test part) (result part)) →
    Sound (fun metadata => tests (parts.map (test · metadata))) (results (parts.map result))

/-- A relation between tests and results that every step of a walk keeps. -/
structure Traversal.Keeps {A N : Type*} [LinearOrder N] (asNumber : String → Option N)
    (walk : Traversal A) (Sound : (Metadata → Bool) → A → Prop) : Prop where
  node : Combines Sound (List.all · id) walk.node
  conj : Combines Sound (List.all · id) walk.conj
  disj : Combines Sound (List.any · id) walk.disj
  neg : ∀ test result, Sound test result → Sound (fun metadata => !test metadata) (walk.neg result)
  field : ∀ name spec, isLogicalOperator name = false → IsFieldSpec spec →
    Sound (holdsEntry asNumber · (name, spec)) (walk.field name spec)

/-- What every step keeps holds of every validated filter and of each of its entries. -/
theorem Traversal.Keeps.sound {A N : Type*} [LinearOrder N] {asNumber : String → Option N}
    {walk : Traversal A} {Sound : (Metadata → Bool) → A → Prop} (h : walk.Keeps asNumber Sound) :
    (∀ filter, IsFilter filter → Sound (holds asNumber · filter) (walk.filter filter)) ∧
    ∀ entry, IsEntry entry → Sound (holdsEntry asNumber · entry) (walk.filterEntry entry) := by
  suffices h : (∀ filter, IsFilter filter → IsFilter filter ∧ Sound (holds asNumber · filter) (walk.filter filter)) ∧
      ∀ entry, IsEntry entry → IsEntry entry ∧ Sound (holdsEntry asNumber · entry) (walk.filterEntry entry) from
    ⟨fun filter hfilter => (h.1 filter hfilter).2, fun entry hentry => (h.2 entry hentry).2⟩
  refine IsFilter.induction ?_ ?_ ?_ ?_ ?_
  · intro entries hne ih
    refine ⟨.object entries hne fun entry hentry => (ih entry hentry).1, ?_⟩
    have hnode := h.node _ entries (fun entry => (holdsEntry asNumber · entry)) walk.filterEntry hne
      fun entry hentry => (ih entry hentry).2
    simpa only [filter_object, holds_object fun entry hentry => (ih entry hentry).1, List.all_map,
      Function.id_comp, Function.comp_def, id] using hnode
  · intro subs hne ih
    refine ⟨.and subs hne fun sub hsub => (ih sub hsub).1, ?_⟩
    have hconj := h.conj _ subs (fun sub => (holds asNumber · sub)) walk.filter hne
      fun sub hsub => (ih sub hsub).2
    simpa only [filterEntry_and, holdsEntry_and fun sub hsub => (ih sub hsub).1, List.all_map,
      Function.comp_def, id] using hconj
  · intro subs hne ih
    refine ⟨.or subs hne fun sub hsub => (ih sub hsub).1, ?_⟩
    have hdisj := h.disj _ subs (fun sub => (holds asNumber · sub)) walk.filter hne
      fun sub hsub => (ih sub hsub).2
    simpa only [filterEntry_or, holdsEntry_or fun sub hsub => (ih sub hsub).1, List.any_map,
      Function.comp_def, id] using hdisj
  · intro sub ih
    refine ⟨.not sub ih.1, ?_⟩
    simpa only [filterEntry_not, holdsEntry_not ih.1] using h.neg _ _ ih.2
  · intro name spec hname hspec
    refine ⟨.field name spec hname hspec, ?_⟩
    rw [filterEntry_field walk hname]
    exact h.field name spec hname hspec

end LodeDB.Filter
