import LodeDB.Core.Basic
import LodeDB.Lib.Except

/-!
# Filter grammar and validation

The validator checks the grammar of a caller's filter and turns every operand into a string. The planner, the
resolver and the evaluator only see its output. `IsFilter` describes that output, a non-empty object whose entries
are logical operators over filters or field specifications; the results about validated filters are by induction on
it.
-/

namespace LodeDB.Filter

open ExceptRules

variable {coerced spec : Value} {field : String} {entry walked : String × Value}

variable {depth : ℕ} {metadata : Value}

/-- The deepest nesting the validator accepts. -/
def maxDepth : ℕ := 32

/-- The keys that combine filters. -/
def isLogicalOperator (key : String) : Bool := key == "$and" || key == "$or" || key == "$not"

/-- The ordered comparisons. -/
def isOrderedOperator (key : String) : Bool :=
  key == "$gt" || key == "$gte" || key == "$lt" || key == "$lte"

/-- The keys of an operator map. -/
def isComparisonOperator (key : String) : Bool :=
  key == "$eq" || key == "$ne" || isOrderedOperator key || key == "$in" || key == "$nin" || key == "$exists"

/-- How a boolean operand is written: as the engine or as the SDK writes it. -/
inductive StringifyMode
  | engine
  | sdk
  deriving DecidableEq

/-- The string a scalar operand stands for. -/
def scalar (field : String) (value : Value) (stringify : StringifyMode) : Except CoreError String :=
  match value with
  | .null => .ok ""
  | .string text => .ok text
  | .bool flag =>
    match stringify with
    | .engine => .ok (if flag then "True" else "False")
    | .sdk => .ok (if flag then "true" else "false")
  | .number text => .ok text
  | .array _ | .object _ =>
    .error (invalid ("filter operand for field " ++ field.quote ++ " must be a scalar value"))

/-- Check one operand of an operator map. -/
def validateOperand (field op : String) (operand : Value) (stringify : StringifyMode) :
    Except CoreError Value :=
  if op = "$exists" then
    match operand.asBool with
    | some flag => .ok (.bool flag)
    | none => .error (invalid ("$exists for field " ++ field.quote ++ " requires a boolean"))
  else if op = "$in" ∨ op = "$nin" then
    match operand.asArray with
    | none | some [] => .error (invalid (op ++ " for field " ++ field.quote ++ " requires a non-empty list"))
    | some items => do
      let values ← items.mapM fun item => scalar field item stringify
      .ok (.array (values.map .string))
  else do
    let text ← scalar field operand stringify
    .ok (.string text)

/-- Check one entry of an operator map. -/
def walkOperator (field : String) (stringify : StringifyMode) (entry : String × Value) :
    Except CoreError (String × Value) := do
  ensure (isComparisonOperator entry.1 = true)
    (invalid ("unsupported operator " ++ entry.1.quote ++ " for field " ++ field.quote))
  let operand ← validateOperand field entry.1 entry.2 stringify
  .ok (entry.1, operand)

/-- Check a field's specification: a scalar, or a non-empty operator map. -/
def walkField (field : String) (spec : Value) (stringify : StringifyMode) : Except CoreError Value :=
  match spec with
  | .object [] => .error (invalid ("operator map for field " ++ field.quote ++ " must be non-empty"))
  | .object entries => do
    let operators ← entries.mapM (walkOperator field stringify)
    .ok (.object operators)
  | spec => do
    let text ← scalar field spec stringify
    .ok (.string text)

mutual

/-- Check one filter node. -/
def walk (stringify : StringifyMode) (depth : ℕ) : Value → Except CoreError Value
  | .object entries => do
    ensure (depth ≤ maxDepth) (invalid "filter is nested too deeply")
    ensure (entries ≠ []) (invalid "filter must be a non-empty object")
    let walked ← walkEntries stringify depth entries
    .ok (.object walked)
  | _ => do
    ensure (depth ≤ maxDepth) (invalid "filter is nested too deeply")
    .error (invalid "filter must be an object")
termination_by structural value => value

/-- Check the entries of a filter node in order. -/
def walkEntries (stringify : StringifyMode) (depth : ℕ) :
    List (String × Value) → Except CoreError (List (String × Value))
  | [] => .ok []
  | entry :: rest => do
    let head ← walkEntry stringify depth entry
    let tail ← walkEntries stringify depth rest
    .ok (head :: tail)
termination_by structural entries => entries

/-- Check one entry of a filter node. -/
def walkEntry (stringify : StringifyMode) (depth : ℕ) :
    String × Value → Except CoreError (String × Value)
  | (key, spec) => do
    ensure (isBlank key = false) (invalid "filter keys must be non-blank strings")
    if key = "$not" then
      let walked ← walk stringify (depth + 1) spec
      .ok (key, walked)
    else if key = "$and" ∨ key = "$or" then
      let walked ← walkItems stringify (depth + 1) key spec
      .ok (key, walked)
    else if key.toList.head? = some '$' then
      .error (invalid ("unsupported filter operator " ++ key.quote ++ " at field level"))
    else
      let walked ← walkField key spec stringify
      .ok (key, walked)
termination_by structural entry => entry

/-- Check the operand of `$and` or `$or`: a non-empty list of filters. -/
def walkItems (stringify : StringifyMode) (depth : ℕ) (op : String) : Value → Except CoreError Value
  | .array [] => .error (invalid (op ++ " requires a non-empty list of filters"))
  | .array items => do
    let walked ← walkList stringify depth items
    .ok (.array walked)
  | _ => .error (invalid (op ++ " requires a non-empty list of filters"))
termination_by structural value => value

/-- Check a list of filters in order. -/
def walkList (stringify : StringifyMode) (depth : ℕ) : List Value → Except CoreError (List Value)
  | [] => .ok []
  | item :: rest => do
    let head ← walk stringify depth item
    let tail ← walkList stringify depth rest
    .ok (head :: tail)
termination_by structural items => items

end

/-- Validate a metadata filter with engine stringification. -/
def validateMetadataFilter (metadata : Value) : Except CoreError Value := walk .engine 0 metadata

/-- Coerce a metadata filter from SDK-style operands. -/
def coerceSdkFilter (metadata : Value) : Except CoreError Value := walk .sdk 0 metadata

/-- One entry of a validated operator map. -/
inductive IsOperator : String × Value → Prop
  | eq (text : String) : IsOperator ("$eq", .string text)
  | ne (text : String) : IsOperator ("$ne", .string text)
  | isIn (texts : List String) : IsOperator ("$in", .array (texts.map .string))
  | notIn (texts : List String) : IsOperator ("$nin", .array (texts.map .string))
  | exists (flag : Bool) : IsOperator ("$exists", .bool flag)
  | ordered (op text : String) (hop : isOrderedOperator op = true) : IsOperator (op, .string text)

/-- A validated field specification. -/
inductive IsFieldSpec : Value → Prop
  | text (text : String) : IsFieldSpec (.string text)
  | operators (entries : List (String × Value)) (hne : entries ≠ [])
      (hentries : ∀ entry ∈ entries, IsOperator entry) : IsFieldSpec (.object entries)

mutual

/-- A validated filter node. -/
inductive IsFilter : Value → Prop
  | object (entries : List (String × Value)) (hne : entries ≠ [])
      (hentries : ∀ entry ∈ entries, IsEntry entry) : IsFilter (.object entries)

/-- One entry of a validated filter node. -/
inductive IsEntry : String × Value → Prop
  | and (subs : List Value) (hne : subs ≠ []) (hsubs : ∀ sub ∈ subs, IsFilter sub) :
      IsEntry ("$and", .array subs)
  | or (subs : List Value) (hne : subs ≠ []) (hsubs : ∀ sub ∈ subs, IsFilter sub) :
      IsEntry ("$or", .array subs)
  | not (sub : Value) (hsub : IsFilter sub) : IsEntry ("$not", sub)
  | field (name : String) (spec : Value) (hname : isLogicalOperator name = false)
      (hspec : IsFieldSpec spec) : IsEntry (name, spec)

end

/-- Induction on the grammar of validated filters, for nodes and entries together. -/
theorem IsFilter.induction {P : Value → Prop} {Q : String × Value → Prop}
    (hnode : ∀ entries, entries ≠ [] → (∀ entry ∈ entries, Q entry) → P (.object entries))
    (hand : ∀ subs, subs ≠ [] → (∀ sub ∈ subs, P sub) → Q ("$and", .array subs))
    (hor : ∀ subs, subs ≠ [] → (∀ sub ∈ subs, P sub) → Q ("$or", .array subs)) (hnot : ∀ sub, P sub → Q ("$not", sub))
    (hfield : ∀ name spec, isLogicalOperator name = false → IsFieldSpec spec → Q (name, spec)) :
    (∀ filter, IsFilter filter → P filter) ∧ ∀ entry, IsEntry entry → Q entry :=
  ⟨fun _ h => @IsFilter.rec (fun filter _ => P filter) (fun entry _ => Q entry)
      (fun entries hne _ ih => hnode entries hne ih) (fun subs hne _ ih => hand subs hne ih)
      (fun subs hne _ ih => hor subs hne ih) (fun sub _ ih => hnot sub ih)
      (fun name spec hname hspec => hfield name spec hname hspec) _ h,
    fun _ h => @IsEntry.rec (fun filter _ => P filter) (fun entry _ => Q entry)
      (fun entries hne _ ih => hnode entries hne ih) (fun subs hne _ ih => hand subs hne ih)
      (fun subs hne _ ih => hor subs hne ih) (fun sub _ ih => hnot sub ih)
      (fun name spec hname hspec => hfield name spec hname hspec) _ h⟩

/-- The operand of a validated `$and` is a list of filters. -/
theorem IsEntry.and_subs (h : IsEntry ("$and", spec)) : ∃ subs, spec = .array subs ∧ ∀ sub ∈ subs, IsFilter sub := by
  generalize hentry : ("$and", spec) = entry at h
  cases h with
  | and subs hne hsubs => exact ⟨subs, (Prod.mk.inj hentry).2, hsubs⟩
  | or subs hne hsubs => simp at hentry
  | not sub hsub => simp at hentry
  | field name spec hname hspec =>
    obtain ⟨rfl, _⟩ := Prod.mk.inj hentry
    simp [isLogicalOperator] at hname

/-- Walking a list of filters walks each of them. -/
theorem walkList_eq_mapM (stringify : StringifyMode) (depth : ℕ) (items : List Value) :
    walkList stringify depth items = items.mapM (walk stringify depth) := by
  induction items with
  | nil => rfl
  | cons item rest ih => simp only [walkList, ih, List.mapM_cons]; rfl

/-- Walking the entries of a node walks each of them. -/
theorem walkEntries_eq_mapM (stringify : StringifyMode) (depth : ℕ) (entries : List (String × Value)) :
    walkEntries stringify depth entries = entries.mapM (walkEntry stringify depth) := by
  induction entries with
  | nil => rfl
  | cons entry rest ih => simp only [walkEntries, ih, List.mapM_cons]; rfl

variable {stringify : StringifyMode}

/-- A checked operator entry is one the planner understands. -/
theorem walkOperator_isOperator (h : walkOperator field stringify entry = .ok walked) : IsOperator walked := by
  obtain ⟨op, operand⟩ := entry
  simp only [walkOperator, bind_eq_ok, ensure_eq_ok, exists_const, Except.ok.injEq] at h
  obtain ⟨hop, checked, hchk, rfl⟩ := h
  unfold validateOperand at hchk
  split at hchk
  · rename_i hexists
    subst hexists
    split at hchk
    · obtain rfl := Except.ok.inj hchk
      exact .exists _
    · cases hchk
  · split at hchk
    · rename_i hlist
      split at hchk
      · cases hchk
      · cases hchk
      · simp only [bind_eq_ok, Except.ok.injEq] at hchk
        obtain ⟨texts, _, rfl⟩ := hchk
        rcases hlist with rfl | rfl
        · exact .isIn _
        · exact .notIn _
    · rename_i hexists hlist
      simp only [bind_eq_ok, Except.ok.injEq] at hchk
      obtain ⟨text, _, rfl⟩ := hchk
      simp only [isComparisonOperator, Bool.or_eq_true, beq_iff_eq] at hop
      rcases hop with ((((rfl | rfl) | hop) | hop) | hop) | hop
      · exact .eq _
      · exact .ne _
      · exact .ordered _ _ hop
      · exact absurd (.inl hop) hlist
      · exact absurd (.inr hop) hlist
      · exact absurd hop hexists

/-- A checked field specification is a string or a non-empty operator map. -/
theorem walkField_isFieldSpec {walked : Value} (h : walkField field spec stringify = .ok walked) :
    IsFieldSpec walked := by
  unfold walkField at h
  split at h
  · cases h
  · rename_i entries hne
    simp only [bind_eq_ok, Except.ok.injEq] at h
    obtain ⟨operators, hops, rfl⟩ := h
    refine .operators operators ?_ ?_
    · have hlen := length_of_mapM hops
      intro hnil
      subst hnil
      exact hne (List.length_eq_zero_iff.mp hlen.symm)
    · intro entry hentry
      obtain ⟨_, _, hwalked⟩ := exists_of_mem_mapM hops hentry
      exact walkOperator_isOperator hwalked
  · simp only [bind_eq_ok, Except.ok.injEq] at h
    obtain ⟨text, _, rfl⟩ := h
    exact .text text

/-- What a successful walk of a value returns, as a node and as an operand. -/
structure WalksTo (P : Value → Prop) (value : Value) : Prop where
  node : ∀ stringify depth walked, walk stringify depth value = .ok walked → P walked
  items : ∀ stringify depth op walked, walkItems stringify depth op value = .ok walked →
    ∃ subs, subs ≠ [] ∧ (∀ sub ∈ subs, P sub) ∧ walked = .array subs

section Walk

variable {P : Value → Prop} {Q : String × Value → Prop}
  (hnode : ∀ entries, entries ≠ [] → (∀ entry ∈ entries, Q entry) → P (.object entries))
  (hand : ∀ subs, subs ≠ [] → (∀ sub ∈ subs, P sub) → Q ("$and", .array subs))
  (hor : ∀ subs, subs ≠ [] → (∀ sub ∈ subs, P sub) → Q ("$or", .array subs))
  (hnot : ∀ sub, P sub → Q ("$not", sub))
  (hfield : ∀ (name : String) spec, name.toList.head? ≠ some '$' → IsFieldSpec spec → Q (name, spec))

include hand hor hnot hfield

/-- A checked entry is a logical operator over checked nodes or a field specification. -/
theorem walkEntry_walksTo (hspec : WalksTo P entry.2) (h : walkEntry stringify depth entry = .ok walked) :
    Q walked := by
  obtain ⟨key, spec⟩ := entry
  simp only [walkEntry, bind_eq_ok] at h
  obtain ⟨_, _, h⟩ := h
  split at h
  · simp only [bind_eq_ok, Except.ok.injEq] at h
    obtain ⟨sub, hsub, rfl⟩ := h
    rename_i hkey
    subst hkey
    exact hnot sub (hspec.node _ _ _ hsub)
  · split at h
    · rename_i hkey
      simp only [bind_eq_ok, Except.ok.injEq] at h
      obtain ⟨operand, hoperand, rfl⟩ := h
      obtain ⟨subs, hne, hsubs, rfl⟩ := hspec.items _ _ _ _ hoperand
      rcases hkey with rfl | rfl
      · exact hand subs hne hsubs
      · exact hor subs hne hsubs
    · split at h
      · cases h
      · rename_i hkey
        simp only [bind_eq_ok, Except.ok.injEq] at h
        obtain ⟨walkedSpec, hwalked, rfl⟩ := h
        exact hfield key walkedSpec hkey (walkField_isFieldSpec hwalked)

include hnode

/-- What holds along the grammar holds of everything the validator returns. -/
theorem walksTo (value : Value) : WalksTo P value := by
  induction value using Value.induction with
  | harray items ih =>
    refine ⟨by simp [walk], ?_⟩
    intro stringify depth op walked h
    cases items with
    | nil => simp [walkItems] at h
    | cons item rest =>
      simp only [walkItems, walkList_eq_mapM, bind_eq_ok, Except.ok.injEq] at h
      obtain ⟨subs, hsubs, rfl⟩ := h
      refine ⟨subs, ?_, ?_, rfl⟩
      · rintro rfl
        simpa using length_of_mapM hsubs
      · intro sub hsub
        obtain ⟨item, hitem, hwalked⟩ := exists_of_mem_mapM hsubs hsub
        exact (ih item hitem).node _ _ _ hwalked
  | hobj entries ih =>
    refine ⟨?_, by simp [walkItems]⟩
    intro stringify depth walked h
    simp only [walk, walkEntries_eq_mapM, bind_eq_ok, Except.ok.injEq] at h
    obtain ⟨_, _, _, hempty, walkedEntries, hents, rfl⟩ := h
    refine hnode walkedEntries ?_ ?_
    · rintro rfl
      exact ensure_eq_ok.mp hempty (List.length_eq_zero_iff.mp (length_of_mapM hents).symm)
    · intro entry hentry
      obtain ⟨original, horiginal, hwalked⟩ := exists_of_mem_mapM hents hentry
      exact walkEntry_walksTo hand hor hnot hfield (ih original horiginal) hwalked
  | _ => exact ⟨by simp [walk], by simp [walkItems]⟩

end Walk

theorem isLogicalOperator_of_head? {key : String} (h : key.toList.head? ≠ some '$') : isLogicalOperator key = false := by
  have hne (op : String) (hop : op.toList.head? = some '$') : (key == op) = false := by
    rw [beq_eq_false_iff_ne]
    rintro rfl
    exact h hop
  simp [isLogicalOperator, hne "$and" rfl, hne "$or" rfl, hne "$not" rfl]

/-- A filter the validator accepts at any depth is a filter of the grammar. -/
theorem walk_isFilter (h : walk stringify depth metadata = .ok coerced) : IsFilter coerced :=
  (walksTo (Q := IsEntry) .object .and .or .not
    (fun name spec hname => .field name spec (isLogicalOperator_of_head? hname)) metadata).node _ _ _ h

/-- A filter the SDK coercion accepts is a filter of the grammar. -/
theorem coerceSdkFilter_isFilter (h : coerceSdkFilter metadata = .ok coerced) :
    IsFilter coerced := walk_isFilter h

/-! ### Checking a checked filter -/

/-- Checking a checked operator changes nothing. -/
theorem IsOperator.walkOperator_eq (hentry : IsOperator entry)
    (h : walkOperator field stringify entry = .ok walked) : walked = entry := by
  simp only [walkOperator, bind_eq_ok, ensure_eq_ok, exists_const, Except.ok.injEq] at h
  obtain ⟨_, checked, hchk, rfl⟩ := h
  have hlist (op : String) (texts : List String) (hop : op = "$in" ∨ op = "$nin") {checked : Value}
      (h : validateOperand field op (.array (texts.map .string)) stringify = .ok checked) :
      checked = .array (texts.map .string) := by
    have hexists : op ≠ "$exists" := by rcases hop with rfl | rfl <;> simp
    have hscalars : (texts.map Value.string).mapM (fun item => scalar field item stringify) = .ok texts := by
      rw [List.mapM_map, mapM_ok_map (f := id) (by simp [scalar]), List.map_id]
    rw [validateOperand, if_neg hexists, if_pos hop] at h
    cases texts with
    | nil => simp [Value.asArray] at h
    | cons text rest =>
      simp only [List.map_cons] at hscalars
      simp [Value.asArray, hscalars] at h
      exact h.symm
  cases hentry with
  | isIn texts => rw [hlist _ texts (.inl rfl) hchk]
  | notIn texts => rw [hlist _ texts (.inr rfl) hchk]
  | ordered op text hop =>
    simp only [isOrderedOperator, Bool.or_eq_true, beq_iff_eq] at hop
    rcases hop with ((rfl | rfl) | rfl) | rfl <;> exact congrArg _ (Except.ok.inj hchk).symm
  | _ => exact congrArg _ (Except.ok.inj hchk).symm

/-- Checking a checked field specification changes nothing. -/
theorem IsFieldSpec.walkField_eq {walked : Value} (hspec : IsFieldSpec spec)
    (h : walkField field spec stringify = .ok walked) : walked = spec := by
  cases hspec with
  | text text => exact (Except.ok.inj h).symm
  | operators entries hne hents =>
    cases entries with
    | nil => exact absurd rfl hne
    | cons entry rest =>
      simp only [walkField, bind_eq_ok, Except.ok.injEq] at h
      obtain ⟨operators, hops, rfl⟩ := h
      rw [mapM_eq_self hops fun item hitem _ hwalked => (hents item hitem).walkOperator_eq hwalked]

/-- Checking a checked filter, or one of its entries, changes nothing. -/
theorem walk_eq_self (stringify : StringifyMode) :
    (∀ filter, IsFilter filter → ∀ depth walked, walk stringify depth filter = .ok walked → walked = filter) ∧
    ∀ entry, IsEntry entry → ∀ depth walked, walkEntry stringify depth entry = .ok walked → walked = entry := by
  have hitems (depth : ℕ) (op : String) {subs : List Value} {walked : Value}
      (ih : ∀ sub ∈ subs, ∀ depth walked, walk stringify depth sub = .ok walked → walked = sub)
      (h : walkItems stringify depth op (.array subs) = .ok walked) : walked = .array subs := by
    cases subs with
    | nil => simp [walkItems] at h
    | cons sub rest =>
      simp only [walkItems, walkList_eq_mapM, bind_eq_ok, Except.ok.injEq] at h
      obtain ⟨results, hresults, rfl⟩ := h
      rw [mapM_eq_self hresults fun item hitem result hr => ih item hitem _ result hr]
  refine IsFilter.induction ?_ ?_ ?_ ?_ ?_
  · intro entries _ ih depth walked h
    simp only [walk, walkEntries_eq_mapM, bind_eq_ok, Except.ok.injEq] at h
    obtain ⟨_, _, _, _, results, hresults, rfl⟩ := h
    rw [mapM_eq_self hresults fun item hitem result hr => ih item hitem _ result hr]
  iterate 2
    · intro subs _ ih depth walked h
      simp only [walkEntry, bind_eq_ok] at h
      simp at h
      obtain ⟨_, results, hresults, rfl⟩ := h
      rw [hitems _ _ ih hresults]
  · intro sub ih depth walked h
    simp only [walkEntry, bind_eq_ok] at h
    simp at h
    obtain ⟨_, result, hr, rfl⟩ := h
    rw [ih _ _ hr]
  · intro name spec hname hspec depth walked h
    simp only [isLogicalOperator, Bool.or_eq_false_iff, beq_eq_false_iff_ne] at hname
    simp only [walkEntry, hname.1.1, hname.1.2, hname.2, or_self, if_false, bind_eq_ok] at h
    obtain ⟨_, _, h⟩ := h
    split at h
    · cases h
    · simp only [bind_eq_ok, Except.ok.injEq] at h
      obtain ⟨result, hr, rfl⟩ := h
      rw [hspec.walkField_eq hr]

/-- A filter of the grammar that the coercion accepts is left as it is. -/
theorem coerceSdkFilter_eq_self {filter : Value} (hfilter : IsFilter filter)
    (h : coerceSdkFilter filter = .ok coerced) : coerced = filter :=
  (walk_eq_self .sdk).1 filter hfilter _ _ h

end LodeDB.Filter
