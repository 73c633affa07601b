import LodeDB.Filter.Validate
import Mathlib.Data.String.Basic
import Std.Data.ExtTreeMap

/-!
# The per-document predicate

A document's metadata either satisfies a validated filter or not; this evaluator is the reference for every other
execution of a filter. The numeric reading of a string is any partial map into a linear order.

`holds` is the evaluator's verdict. On filters of the grammar the evaluator never fails, and the verdict of a node is
the conjunction of the verdicts of its entries.
-/

namespace LodeDB.Filter

open ExceptRules

variable {name : String} {entries : List (String × Value)} {subs : List Value}

/-- String metadata of one document. -/
abbrev Metadata := Std.ExtTreeMap String String compare

variable {N : Type*} [LinearOrder N] (asNumber : String → Option N)

/-- One ordered comparison, by its operator. -/
def compareWith {α : Type*} [LinearOrder α] (left : α) (op : String) (right : α) : Bool :=
  if op = "$gt" then decide (right < left)
  else if op = "$gte" then decide (right ≤ left)
  else if op = "$lt" then decide (left < right)
  else if op = "$lte" then decide (left ≤ right)
  else false

/-- Compare numerically when both sides are numbers, else as strings. -/
def compareOrdered (stored op operand : String) : Bool :=
  match asNumber operand, asNumber stored with
  | some operandNumber, some storedNumber => compareWith storedNumber op operandNumber
  | _, _ => compareWith stored op operand

/-- Whether a list of operand values holds a string. -/
def containsString (values : List Value) (needle : String) : Bool :=
  values.any fun value => value.asStr == some needle

variable (metadata : Metadata) (field : String) (entry : String × Value)

/-- Evaluate one operator on the stored value of a field. -/
def matchesOperator :
    Except CoreError Bool :=
  let stored := metadata[field]?
  let op := entry.1
  let operand := entry.2
  if op = "$eq" then .ok (stored.any fun value => operand.asStr == some value)
  else if op = "$ne" then .ok (!stored.any fun value => operand.asStr == some value)
  else if op = "$in" then
    match operand.asArray with
    | some values => .ok (stored.any (containsString values))
    | none => .error (invalid "validated $in operand must be a list")
  else if op = "$nin" then
    match operand.asArray with
    | some values => .ok (!stored.any (containsString values))
    | none => .error (invalid "validated $nin operand must be a list")
  else if op = "$exists" then
    match operand.asBool with
    | some flag => .ok (stored.isSome == flag)
    | none => .error (invalid "validated $exists operand must be a boolean")
  else if isOrderedOperator op then
    match operand.asStr with
    | some text => .ok (stored.any fun value => compareOrdered asNumber value op text)
    | none => .error (invalid "validated ordered operand must be a string")
  else .error (invalid "unsupported validated operator")

/-- Evaluate a field's specification: operators in order, stopping at the first that fails. -/
def matchesField (spec : Value) : Except CoreError Bool :=
  match spec with
  | .string expected => .ok (metadata[field]?.any fun stored => stored == expected)
  | .object entries => entries.allM (matchesOperator asNumber metadata field)
  | _ => .error (invalid "validated field spec must be a string or operator map")

mutual

/-- Evaluate a filter node: every entry must hold. -/
def matchesMetadataFilter (metadata : Metadata) : Value → Except CoreError Bool
  | .object entries => matchesEntries metadata entries
  | _ => .error (invalid "validated filter must be an object")
termination_by structural filter => filter

/-- Evaluate the entries of a node in order, stopping at the first that fails. -/
def matchesEntries (metadata : Metadata) : List (String × Value) → Except CoreError Bool
  | [] => .ok true
  | entry :: rest => do
    let matched ← matchesEntry metadata entry
    if matched then matchesEntries metadata rest else .ok false
termination_by structural entries => entries

/-- Evaluate one entry of a node. -/
def matchesEntry (metadata : Metadata) : String × Value → Except CoreError Bool
  | (key, spec) =>
    if key = "$and" then
      (matchesSubs metadata "validated $and must be a list" spec).map fun subs => subs.all id
    else if key = "$or" then
      (matchesSubs metadata "validated $or must be a list" spec).map fun subs => subs.any id
    else if key = "$not" then (matchesMetadataFilter metadata spec).map fun matched => !matched
    else matchesField asNumber metadata key spec
termination_by structural entry => entry

/-- Evaluate every filter of a list operand. -/
def matchesSubs (metadata : Metadata) (listError : String) : Value → Except CoreError (List Bool)
  | .array subs => matchesList metadata subs
  | _ => .error (invalid listError)
termination_by structural spec => spec

/-- Evaluate filters in order. -/
def matchesList (metadata : Metadata) : List Value → Except CoreError (List Bool)
  | [] => .ok []
  | sub :: rest => do
    let head ← matchesMetadataFilter metadata sub
    let tail ← matchesList metadata rest
    .ok (head :: tail)
termination_by structural subs => subs

end

/-- The verdict of a computation, reading a failure as false. -/
def verdict (result : Except CoreError Bool) : Bool :=
  match result with
  | .ok matched => matched
  | .error _ => false

/-- Whether metadata satisfies a filter. -/
def holds (filter : Value) : Bool :=
  verdict (matchesMetadataFilter asNumber metadata filter)

/-- Whether metadata satisfies one entry of a filter node. -/
def holdsEntry : Bool :=
  verdict (matchesEntry asNumber metadata entry)

/-- Whether metadata satisfies one operator on a field. -/
def holdsOperator : Bool :=
  verdict (matchesOperator asNumber metadata field entry)

variable {asNumber}

/-- The evaluator never fails on a validated operator. -/
theorem matchesOperator_eq {entry : String × Value} (h : IsOperator entry) (metadata : Metadata) (field : String) :
    matchesOperator asNumber metadata field entry = .ok (holdsOperator asNumber metadata field entry) := by
  cases h with
  | ordered op text hop =>
    unfold holdsOperator
    simp only [isOrderedOperator, Bool.or_eq_true, beq_iff_eq] at hop
    rcases hop with ((rfl | rfl) | rfl) | rfl <;> rfl
  | _ => rfl

/-- The evaluator never fails on a validated field specification. -/
theorem matchesField_eq {spec : Value} (h : IsFieldSpec spec) (metadata : Metadata) (field : String) :
    ∃ matched, matchesField asNumber metadata field spec = .ok matched := by
  cases h with
  | text text => exact ⟨_, rfl⟩
  | operators entries _ hents =>
    exact ⟨_, allM_ok_all fun entry hentry => matchesOperator_eq (hents entry hentry) metadata field⟩

/-- Evaluating the entries of a node is a short-circuit conjunction. -/
theorem matchesEntries_eq_allM (metadata : Metadata) (entries : List (String × Value)) :
    matchesEntries asNumber metadata entries = entries.allM (matchesEntry asNumber metadata) := by
  induction entries with
  | nil => rfl
  | cons entry rest ih =>
    rw [matchesEntries, List.allM, ih]
    congr 1
    funext matched
    cases matched <;> rfl

/-- Evaluating a list of filters evaluates each of them. -/
theorem matchesList_eq_mapM (metadata : Metadata) (subs : List Value) :
    matchesList asNumber metadata subs = subs.mapM (matchesMetadataFilter asNumber metadata) := by
  induction subs with
  | nil => rfl
  | cons sub rest ih => simp only [matchesList, ih, List.mapM_cons]; rfl

/-- A field entry is evaluated by its specification. -/
theorem matchesEntry_field (hname : isLogicalOperator name = false) (metadata : Metadata) (spec : Value) :
    matchesEntry asNumber metadata (name, spec) = matchesField asNumber metadata name spec := by
  simp only [isLogicalOperator, Bool.or_eq_false_iff, beq_eq_false_iff_ne] at hname
  simp [matchesEntry, hname.1.1, hname.1.2, hname.2]

/-- The evaluator never fails on the grammar of validated filters. -/
theorem matches_total (metadata : Metadata) :
    (∀ filter, IsFilter filter →
      matchesMetadataFilter asNumber metadata filter = .ok (holds asNumber metadata filter)) ∧
    ∀ entry, IsEntry entry → matchesEntry asNumber metadata entry = .ok (holdsEntry asNumber metadata entry) := by
  have hlist : ∀ subs : List Value, (∀ sub ∈ subs,
      matchesMetadataFilter asNumber metadata sub = .ok (holds asNumber metadata sub)) →
      matchesList asNumber metadata subs = .ok (subs.map (holds asNumber metadata)) := fun subs h => by
    rw [matchesList_eq_mapM]
    exact mapM_ok_map h
  refine IsFilter.induction ?_ ?_ ?_ ?_ ?_
  · intro entries _ ih
    simp only [holds, matchesMetadataFilter, matchesEntries_eq_allM, allM_ok_all ih, verdict]
  · intro subs _ ih
    simp only [holdsEntry, matchesEntry, matchesSubs, hlist subs ih, ↓reduceIte, Except.map, verdict]
  · intro subs _ ih
    simp [holdsEntry, matchesEntry, matchesSubs, hlist subs ih, Except.map, verdict]
  · intro sub ih
    simp [holdsEntry, matchesEntry, ih, Except.map, verdict]
  · intro name spec hname hspec
    have hfield : ∃ matched, matchesField asNumber metadata name spec = .ok matched :=
      matchesField_eq hspec metadata name
    obtain ⟨matched, hmatched⟩ := hfield
    simp only [holdsEntry, matchesEntry_field hname, hmatched, verdict]

/-- The evaluator returns the verdict of a validated filter. -/
theorem matchesMetadataFilter_eq {filter : Value} (h : IsFilter filter) (metadata : Metadata) :
    matchesMetadataFilter asNumber metadata filter = .ok (holds asNumber metadata filter) :=
  (matches_total metadata).1 filter h

/-- A node holds when all of its entries hold. -/
theorem holds_object (h : ∀ entry ∈ entries, IsEntry entry) (metadata : Metadata) :
    holds asNumber metadata (.object entries) = entries.all (holdsEntry asNumber metadata) := by
  simp only [holds, matchesMetadataFilter, matchesEntries_eq_allM,
    allM_ok_all fun entry hentry => (matches_total metadata).2 entry (h entry hentry), verdict]

/-- Evaluating the filters of a list operand gives their verdicts. -/
theorem matchesSubs_eq (h : ∀ sub ∈ subs, IsFilter sub) (metadata : Metadata) (listError : String) :
    matchesSubs asNumber metadata listError (.array subs) = .ok (subs.map (holds asNumber metadata)) := by
  rw [matchesSubs, matchesList_eq_mapM]
  exact mapM_ok_map fun sub hsub => (matches_total metadata).1 sub (h sub hsub)

/-- `$and` holds when all of its filters hold. -/
theorem holdsEntry_and (h : ∀ sub ∈ subs, IsFilter sub) (metadata : Metadata) :
    holdsEntry asNumber metadata ("$and", .array subs) = subs.all (holds asNumber metadata) := by
  simp [holdsEntry, matchesEntry, matchesSubs_eq h, Except.map, verdict, List.all_map]

/-- `$or` holds when one of its filters holds. -/
theorem holdsEntry_or (h : ∀ sub ∈ subs, IsFilter sub) (metadata : Metadata) :
    holdsEntry asNumber metadata ("$or", .array subs) = subs.any (holds asNumber metadata) := by
  simp [holdsEntry, matchesEntry, matchesSubs_eq h, Except.map, verdict, List.any_map]

/-- `$not` holds when its filter does not. -/
theorem holdsEntry_not {sub : Value} (h : IsFilter sub) (metadata : Metadata) :
    holdsEntry asNumber metadata ("$not", sub) = !holds asNumber metadata sub := by
  simp [holdsEntry, matchesEntry, matchesMetadataFilter_eq h, Except.map, verdict]

/-- A string specification holds when the field stores exactly that string. -/
theorem holdsEntry_text (hname : isLogicalOperator name = false) (metadata : Metadata) (text : String) :
    holdsEntry asNumber metadata (name, .string text) = holdsOperator asNumber metadata name ("$eq", .string text) := by
  simp only [holdsEntry, matchesEntry_field hname, matchesField, holdsOperator, matchesOperator,
    ↓reduceIte, Value.asStr_string, verdict]
  cases metadata[name]? <;> simp [eq_comm]

/-- An operator map holds when all of its operators hold. -/
theorem holdsEntry_operators (hname : isLogicalOperator name = false) (h : ∀ entry ∈ entries, IsOperator entry)
    (metadata : Metadata) :
    holdsEntry asNumber metadata (name, .object entries) = entries.all (holdsOperator asNumber metadata name) := by
  simp only [holdsEntry, matchesEntry_field hname, matchesField,
    allM_ok_all fun entry hentry => matchesOperator_eq (h entry hentry) metadata name, verdict]

end LodeDB.Filter
