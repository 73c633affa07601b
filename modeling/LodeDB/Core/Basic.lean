import Mathlib.Data.List.Basic

/-!
# Errors, JSON values and blank strings

The data every layer of the core engine shares. A JSON number is the text the engine prints for it, since no modelled
function computes with one. An object is the list of its entries in iteration order: no result depends on that order
or on the keys being distinct.
-/

namespace LodeDB

/-- Stable native-core error categories. -/
inductive CoreErrorCode
  | invalidArgument
  | notFound
  | corruptStore
  | planStale
  | unsupported
  | internal
  deriving DecidableEq

/-- A native-core error with its stable code and message. -/
structure CoreError where
  code : CoreErrorCode
  message : String
  deriving DecidableEq

/-- The rejection of a caller's argument. -/
def invalid (message : String) : CoreError := ⟨.invalidArgument, message⟩

/-- The rejection of a persisted store or sidecar. -/
def corrupt (message : String) : CoreError := ⟨.corruptStore, message⟩

/-- The code points with the Unicode `White_Space` property, which `str::trim` strips. -/
def isWhitespace (c : Char) : Bool :=
  (9 ≤ c.toNat && c.toNat ≤ 13) || c.toNat == 32 || c.toNat == 0x85 || c.toNat == 0xa0 ||
    c.toNat == 0x1680 || (0x2000 ≤ c.toNat && c.toNat ≤ 0x200a) || c.toNat == 0x2028 ||
    c.toNat == 0x2029 || c.toNat == 0x202f || c.toNat == 0x205f || c.toNat == 0x3000

/-- A string that is empty once trimmed. -/
def isBlank (text : String) : Bool := text.toList.all isWhitespace

/-- A JSON value. -/
inductive Value
  | null
  | bool (flag : Bool)
  | number (text : String)
  | string (text : String)
  | array (items : List Value)
  | object (entries : List (String × Value))

namespace Value

/-- The string a value holds, if it is one. -/
def asStr : Value → Option String
  | .string text => some text
  | _ => none

/-- The flag a value holds, if it is a boolean. -/
def asBool : Value → Option Bool
  | .bool flag => some flag
  | _ => none

/-- The items of a value, if it is an array. -/
def asArray : Value → Option (List Value)
  | .array items => some items
  | _ => none

/-- The entries of a value, if it is an object. -/
def asObject : Value → Option (List (String × Value))
  | .object entries => some entries
  | _ => none

@[simp] theorem asStr_string (text : String) : (string text).asStr = some text := rfl

@[simp] theorem asStr_object (entries : List (String × Value)) : (object entries).asStr = none := rfl

@[simp] theorem asBool_bool (flag : Bool) : (bool flag).asBool = some flag := rfl

@[simp] theorem asArray_array (items : List Value) : (array items).asArray = some items := rfl

@[simp] theorem asObject_object (entries : List (String × Value)) :
    (object entries).asObject = some entries := rfl

/-- Induction on a value with the hypothesis for every item and every entry. -/
theorem induction {P : Value → Prop} (hnull : P .null) (hbool : ∀ flag, P (.bool flag))
    (hnum : ∀ text, P (.number text)) (hstring : ∀ text, P (.string text))
    (harray : ∀ items, (∀ item ∈ items, P item) → P (.array items))
    (hobj : ∀ entries, (∀ entry ∈ entries, P entry.2) → P (.object entries)) (value : Value) : P value := by
  refine @Value.rec P (fun items => ∀ item ∈ items, P item)
    (fun entries => ∀ entry ∈ entries, P entry.2) (fun entry => P entry.2)
    hnull hbool hnum hstring harray hobj ?_ ?_ ?_ ?_ ?_ value
  · simp
  · intro head tail hhead htail item hitem
    rcases List.mem_cons.mp hitem with rfl | hitem
    · exact hhead
    · exact htail item hitem
  · simp
  · intro head tail hhead htail entry hentry
    rcases List.mem_cons.mp hentry with rfl | hentry
    · exact hhead
    · exact htail entry hentry
  · intro _ _ h
    exact h

mutual

/-- Whether two values are the same. -/
def same : Value → Value → Bool
  | .null, .null => true
  | .bool left, .bool right => left == right
  | .number left, .number right => left == right
  | .string left, .string right => left == right
  | .array left, .array right => sameItems left right
  | .object left, .object right => sameEntries left right
  | _, _ => false
termination_by structural left => left

/-- Whether two lists hold the same values. -/
def sameItems : List Value → List Value → Bool
  | [], [] => true
  | left :: lefts, right :: rights => same left right && sameItems lefts rights
  | _, _ => false
termination_by structural lefts => lefts

/-- Whether two objects hold the same entries. -/
def sameEntries : List (String × Value) → List (String × Value) → Bool
  | [], [] => true
  | left :: lefts, right :: rights => sameEntry left right && sameEntries lefts rights
  | _, _ => false
termination_by structural lefts => lefts

/-- Whether two entries are the same. -/
def sameEntry : String × Value → String × Value → Bool
  | (key, left), (other, right) => key == other && same left right
termination_by structural left => left

end

theorem sameItems_iff {lefts : List Value} (h : ∀ left ∈ lefts, ∀ right, same left right = true ↔ left = right)
    (rights : List Value) : sameItems lefts rights = true ↔ lefts = rights := by
  induction lefts generalizing rights with
  | nil => cases rights <;> simp [sameItems]
  | cons left lefts ih =>
    cases rights with
    | nil => simp [sameItems]
    | cons right rights =>
      rw [sameItems, Bool.and_eq_true, h left List.mem_cons_self,
        ih (fun other hother => h other (List.mem_cons_of_mem _ hother)), List.cons.injEq]

theorem sameEntries_iff {lefts : List (String × Value)}
    (h : ∀ left ∈ lefts, ∀ right, same left.2 right = true ↔ left.2 = right) (rights : List (String × Value)) :
    sameEntries lefts rights = true ↔ lefts = rights := by
  induction lefts generalizing rights with
  | nil => cases rights <;> simp [sameEntries]
  | cons left lefts ih =>
    cases rights with
    | nil => simp [sameEntries]
    | cons right rights =>
      obtain ⟨key, left⟩ := left
      obtain ⟨other, right⟩ := right
      rw [sameEntries, sameEntry, Bool.and_eq_true, Bool.and_eq_true, h (key, left) List.mem_cons_self,
        ih (fun entry hentry => h entry (List.mem_cons_of_mem _ hentry)), List.cons.injEq, Prod.mk.injEq, beq_iff_eq]

theorem same_iff (left right : Value) : same left right = true ↔ left = right := by
  induction left using Value.induction generalizing right with
  | hnull => cases right <;> simp [same]
  | hbool flag => cases right <;> simp [same]
  | hnum text => cases right <;> simp [same]
  | hstring text => cases right <;> simp [same]
  | harray items ih => cases right <;> simp [same, sameItems_iff ih]
  | hobj entries ih => cases right <;> simp [same, sameEntries_iff ih]

instance : DecidableEq Value := fun left right => decidable_of_iff (same left right = true) (same_iff left right)

end Value

end LodeDB
