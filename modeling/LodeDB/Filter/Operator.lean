import LodeDB.Filter.OrderedValues
import LodeDB.Filter.Traverse

/-!
# Operators of a field

The indexed executions of a filter check the shape of an operand alike, with an error text for each shape; only the
text for the values of a list differs, so it is a parameter. `Operator.accepts` is the meaning of an operator on the
stored value of a field, and agrees with the per-document evaluator.
-/

namespace LodeDB.Filter

open ExceptRules

variable {entry : String × Value} {N : Type*}

variable {asNumber : String → Option N}

/-- The value of an option, or the error that reports its absence. -/
def okOr {α : Type*} (value : Option α) (error : CoreError) : Except CoreError α :=
  match value with
  | some value => .ok value
  | none => .error error

@[simp] theorem okOr_some {α : Type*} (value : α) (error : CoreError) : okOr (some value) error = .ok value := rfl

/-- An operator with a well-formed operand. -/
inductive Operator
  | eq (value : String)
  | ne (value : String)
  | isIn (values : List String)
  | notIn (values : List String)
  | exists (flag : Bool)
  | ordered (op operand : String)
  deriving DecidableEq

/-- The strings of a list operand. -/
def readValues (message : String) (values : List Value) : Except CoreError (List String) :=
  values.mapM fun value => okOr value.asStr (invalid message)

/-- Read one entry of an operator map. -/
def readOperator (values : String → List Value → Except CoreError (List String))
    (entry : String × Value) : Except CoreError Operator :=
  let op := entry.1
  let operand := entry.2
  if op = "$eq" then
    (okOr operand.asStr (invalid "validated $eq operand must be a string")).map .eq
  else if op = "$ne" then
    (okOr operand.asStr (invalid "validated $ne operand must be a string")).map .ne
  else if op = "$in" then
    (okOr operand.asArray (invalid "validated $in operand must be a list") >>= values op).map .isIn
  else if op = "$nin" then
    (okOr operand.asArray (invalid "validated $nin operand must be a list") >>= values op).map .notIn
  else if op = "$exists" then
    (okOr operand.asBool (invalid "validated $exists operand must be a boolean")).map .exists
  else if isOrderedOperator op then
    (okOr operand.asStr (invalid "validated ordered operand must be a string")).map (.ordered op)
  else .error (invalid "unsupported validated operator")

/-- Read the values of a list operand, naming its operator in the error. -/
def namedValues (op : String) (values : List Value) : Except CoreError (List String) :=
  readValues ("validated " ++ op ++ " values must be strings") values

/-- Read the values of a list operand with the planner's shared error. -/
def plannerValues (_op : String) (values : List Value) : Except CoreError (List String) :=
  readValues "validated $in/$nin values must be strings" values

/-- The value of the stored field an operator accepts; a missing one fails all positive operators. -/
def Operator.accepts {N : Type*} [LinearOrder N] (asNumber : String → Option N)
    (stored : Option String) : Operator → Bool
  | .eq value => stored == some value
  | .ne value => !(stored == some value)
  | .isIn values => stored.any fun value => values.contains value
  | .notIn values => !stored.any fun value => values.contains value
  | .exists flag => stored.isSome == flag
  | .ordered op operand => stored.any fun value => compareOrdered asNumber value op operand

/-- Strings read back from the values that hold them. -/
@[simp] theorem readValues_strings (message : String) (texts : List String) :
    readValues message (texts.map .string) = .ok texts := by
  induction texts with
  | nil => rfl
  | cons text rest ih =>
    rw [readValues, List.map_cons, List.mapM_cons]
    simp only [Value.asStr_string, okOr_some, ok_bind]
    rw [← readValues, ih]
    rfl

/-- Which operator a validated entry holds. -/
inductive Denotes : String × Value → Operator → Prop
  | eq (text : String) : Denotes ("$eq", .string text) (.eq text)
  | ne (text : String) : Denotes ("$ne", .string text) (.ne text)
  | isIn (texts : List String) : Denotes ("$in", .array (texts.map .string)) (.isIn texts)
  | notIn (texts : List String) : Denotes ("$nin", .array (texts.map .string)) (.notIn texts)
  | exists (flag : Bool) : Denotes ("$exists", .bool flag) (.exists flag)
  | ordered (op text : String) (hop : isOrderedOperator op = true) :
      Denotes (op, .string text) (.ordered op text)

/-- Every validated operator entry holds an operator. -/
theorem IsOperator.denotes (h : IsOperator entry) : ∃ operator, Denotes entry operator := by
  cases h with
  | eq text => exact ⟨_, .eq text⟩
  | ne text => exact ⟨_, .ne text⟩
  | isIn texts => exact ⟨_, .isIn texts⟩
  | notIn texts => exact ⟨_, .notIn texts⟩
  | «exists» flag => exact ⟨_, .exists flag⟩
  | ordered op text hop => exact ⟨_, .ordered op text hop⟩

variable {operator : Operator}

/-- A validated entry is read as its operator, if the list reader returns its strings. -/
theorem Denotes.read (h : Denotes entry operator) {values : String → List Value → Except CoreError (List String)}
    (hvalues : ∀ op texts, values op (texts.map .string) = .ok texts) : readOperator values entry = .ok operator := by
  cases h with
  | isIn texts =>
    change Except.map Operator.isIn (values "$in" (texts.map .string)) = _
    rw [hvalues]
    rfl
  | notIn texts =>
    change Except.map Operator.notIn (values "$nin" (texts.map .string)) = _
    rw [hvalues]
    rfl
  | ordered op text hop =>
    have hcases := hop
    simp only [isOrderedOperator, Bool.or_eq_true, beq_iff_eq] at hcases
    rcases hcases with ((rfl | rfl) | rfl) | rfl <;> rfl
  | _ => rfl

/-- Reading a validated entry with the operator's own error texts. -/
theorem Denotes.read_named (h : Denotes entry operator) : readOperator namedValues entry = .ok operator :=
  h.read fun _ texts => readValues_strings _ texts

/-- Reading a validated entry with the planner's error texts. -/
theorem Denotes.read_planner (h : Denotes entry operator) : readOperator plannerValues entry = .ok operator :=
  h.read fun _ texts => readValues_strings _ texts

/-- The list of values of a validated operand contains what the strings contain. -/
theorem containsString_strings (texts : List String) (needle : String) :
    containsString (texts.map .string) needle = texts.contains needle := by
  induction texts with
  | nil => rfl
  | cons text rest ih =>
    rw [List.map_cons, List.contains_cons, ← ih]
    simp only [containsString, List.any_cons, Value.asStr_string]
    congr 1
    simp [eq_comm]

/-- The per-document evaluator accepts what the operator accepts. -/
theorem Denotes.holdsOperator [LinearOrder N] (h : Denotes entry operator) (metadata : Metadata) (field : String) :
    holdsOperator asNumber metadata field entry = operator.accepts asNumber metadata[field]? := by
  cases h with
  | eq text =>
    change metadata[field]?.any (fun value => some text == some value) = (metadata[field]? == some text)
    cases metadata[field]? <;> simp [eq_comm]
  | ne text =>
    change (!metadata[field]?.any (fun value => some text == some value)) = !(metadata[field]? == some text)
    cases metadata[field]? <;> simp [eq_comm]
  | isIn texts =>
    change metadata[field]?.any (containsString (texts.map .string)) = _
    simp only [Operator.accepts, funext (containsString_strings texts)]
  | notIn texts =>
    change (!metadata[field]?.any (containsString (texts.map .string))) = _
    simp only [Operator.accepts, funext (containsString_strings texts)]
  | «exists» flag => rfl
  | ordered op text hop =>
    have hcases := hop
    simp only [isOrderedOperator, Bool.or_eq_true, beq_iff_eq] at hcases
    rcases hcases with ((rfl | rfl) | rfl) | rfl <;> rfl

/-- Read a field's specification: a string, or an operator map. -/
def readFieldSpec {A : Type*} (text : String → A) (operators : List (String × Value) → A)
    (reject : CoreError → A) : Value → A
  | .string expected => text expected
  | .object entries => operators entries
  | _ => reject (invalid "validated field spec must be a string or operator map")

/-- A relation kept by string equality and every operator is kept by specifications. -/
theorem sound_readFieldSpec {A : Type*} [LinearOrder N] {Sound : (Metadata → Bool) → A → Prop} {name : String}
    {spec : Value} (hname : isLogicalOperator name = false) (hspec : IsFieldSpec spec) {text : String → A}
    {operator : String × Value → A} {combine : List A → A} {reject : CoreError → A}
    (hcombine : Combines Sound (List.all · id) combine)
    (htext : ∀ expected, Sound (fun metadata => metadata[name]? == some expected) (text expected))
    (hop : ∀ entry meaning, Denotes entry meaning →
      Sound (fun metadata => meaning.accepts asNumber metadata[name]?) (operator entry)) :
    Sound (holdsEntry asNumber · (name, spec))
      (readFieldSpec text (fun entries => combine (entries.map operator)) reject spec) := by
  cases hspec with
  | text expected =>
    have hequal : (holdsEntry asNumber · (name, .string expected)) =
        fun metadata => metadata[name]? == some expected := by
      funext metadata
      rw [holdsEntry_text hname, (Denotes.eq expected).holdsOperator]
      rfl
    rw [hequal]
    exact htext expected
  | operators entries hne hents =>
    have hequal : (holdsEntry asNumber · (name, .object entries)) =
        fun metadata => (entries.map (holdsOperator asNumber metadata name)).all id := by
      funext metadata
      rw [holdsEntry_operators hname hents, List.all_map]
      rfl
    rw [hequal]
    refine hcombine _ entries (fun entry => (holdsOperator asNumber · name entry)) operator hne ?_
    intro entry hentry
    obtain ⟨meaning, hmeaning⟩ := (hents entry hentry).denotes
    simpa only [hmeaning.holdsOperator] using hop entry meaning hmeaning

end LodeDB.Filter
