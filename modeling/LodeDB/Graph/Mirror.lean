import LodeDB.Graph.Records

/-!
# Records mirrored into the index

Every indexed record has text metadata: its kind and ids, its timestamps, and its scalar properties under a namespace
of their own. A search turns the frame and the caller's predicate into one filter over these texts, which says of a
record's metadata what they say of the record itself.
-/

namespace LodeDB.Graph

open TreeMapRules ExceptRules
open LodeDB.Filter

variable {field key op stored : String} {stop : Option TimeMs} {subs : List Value}
  {coerced predicate : Value} {checked : Option Value}

/-! ### Metadata -/

/-- The key a property is mirrored under. -/
def propertyKey (key : String) : String := "property:" ++ key

/-- Mirror the scalar properties. -/
def mirrorProperties (metadata : Metadata) (properties : Value) : Metadata :=
  writeAll metadata ((scalarProperties properties).toList.map fun entry => (propertyKey entry.1, entry.2))

/-- Mirror the timestamps. -/
def mirrorTemporal (metadata : Metadata) (stamps : Stamps) : Metadata :=
  ((((metadata.insert "valid_at" (encodeTsStart stamps.validAt)).insert "invalid_at"
    (encodeTsOpen stamps.invalidAt)).insert "created_at" (encodeTs stamps.createdAt)).insert "expired_at"
    (encodeTsOpen stamps.expiredAt)).insert "expired_at_is_open" (if stamps.expiredAt.isNone then "true" else "false")

/-- The kind, type and id of an entity. -/
def entityFields (entity : Entity) : List (String × String) :=
  [("kind", "entity"), ("type", entity.entityType), ("entity_id", entity.id)]

/-- The metadata of an entity. -/
def entityMetadata (entity : Entity) : Metadata :=
  mirrorTemporal (mirrorProperties (writeAll ∅ (entityFields entity)) entity.properties) entity.stamps

/-- The kind, relation, id and endpoints of a fact. -/
def factFields (fact : Fact) : List (String × String) :=
  [("kind", "fact"), ("relation", fact.relation), ("fact_id", fact.id), ("src", fact.src), ("dst", fact.dst)]

/-- The metadata of a fact. -/
def factMetadata (fact : Fact) : Metadata :=
  mirrorTemporal (mirrorProperties (writeAll ∅ (factFields fact)) fact.properties) fact.stamps

/-! ### The filter -/

/-- The filter that a field holds a text. -/
def equals (field text : String) : Value := .object [(field, .string text)]

/-- The filter that a field compares with a text. -/
def ordered (field op text : String) : Value := .object [(field, .object [(op, .string text)])]

/-- The clauses of a transaction end that is closed after a time. -/
def closedAfter (knownAt : TimeMs) : List Value :=
  [equals "expired_at_is_open" "false", ordered "expired_at" "$gt" (encodeTs knownAt)]

/-- The clauses of a frame. -/
def temporalClauses : AsOf → List Value
  | .now => [equals "expired_at" (encodeTsOpen none), equals "invalid_at" (encodeTsOpen none)]
  | .nowValid time =>
    [ordered "valid_at" "$lte" (encodeTs time), ordered "invalid_at" "$gt" (encodeTs time),
      ordered "created_at" "$lte" (encodeTs time), ordered "expired_at" "$gt" (encodeTs time)]
  | .at time => [ordered "valid_at" "$lte" (encodeTs time), ordered "invalid_at" "$gt" (encodeTs time)]
  | .atKnown validAt knownAt =>
    [ordered "valid_at" "$lte" (encodeTs validAt), ordered "created_at" "$lte" (encodeTs knownAt),
      ordered "expired_at" "$gt" (encodeTs knownAt),
      .object [("$or", .array [
        .object [("$and", .array (closedAfter knownAt))],
        ordered "invalid_at" "$gt" (encodeTs validAt)])]]
  | .all => []

mutual

/-- Move a predicate into the namespace of the mirrored properties. -/
def namespaceWalk : Value → Except String Value
  | .object entries =>
    if entries = [] then .error "property predicate must be a non-empty object"
    else (namespaceEntries entries).map .object
  | _ => .error "property predicate must be an object"
termination_by structural value => value

/-- Move the entries of a predicate in order. -/
def namespaceEntries : List (String × Value) → Except String (List (String × Value))
  | [] => .ok []
  | entry :: rest => do
    let head ← namespaceEntry entry
    let tail ← namespaceEntries rest
    .ok (head :: tail)
termination_by structural entries => entries

/-- Move one entry: logical operators keep their key, a field gets the namespace. -/
def namespaceEntry : String × Value → Except String (String × Value)
  | (key, spec) =>
    if key = "$and" ∨ key = "$or" then
      (namespaceItems (key ++ " requires a list of predicates") spec).map fun items => (key, items)
    else if key = "$not" then (namespaceWalk spec).map fun sub => (key, sub)
    else if key.toList.head? = some '$' then
      .error ("unsupported property predicate operator " ++ key.quote)
    else .ok (propertyKey key, spec)
termination_by structural entry => entry

/-- Move every predicate of a list operand. -/
def namespaceItems (listError : String) : Value → Except String Value
  | .array items => (namespaceList items).map .array
  | _ => .error listError
termination_by structural spec => spec

/-- Move predicates in order. -/
def namespaceList : List Value → Except String (List Value)
  | [] => .ok []
  | item :: rest => do
    let head ← namespaceWalk item
    let tail ← namespaceList rest
    .ok (head :: tail)
termination_by structural items => items

end

/-- A failed move is the caller's argument. -/
def namespacePropertyPredicate (predicate : Value) : Except GraphError Value :=
  (namespaceWalk predicate).mapError .invalidArgument

/-- Check a caller's predicate. -/
def validatePropertyPredicate (predicate : Value) : Except GraphError Value :=
  (coerceSdkFilter predicate).mapError fun error => .invalidArgument (coreErrorText error)

/-- The clause of a predicate, if the caller gives one. -/
def predicateClauses (predicate : Option Value) : Except GraphError (List Value) :=
  match predicate with
  | none => .ok []
  | some predicate => do
    let coerced ← validatePropertyPredicate predicate
    let clause ← namespacePropertyPredicate coerced
    .ok [clause]

/-- The clause of the type or relation asked for, if any. -/
def constraintClauses (typeOrRelation : Option (String × String)) : List Value :=
  (typeOrRelation.map fun constraint => equals constraint.1 constraint.2).toList

/-- The filter of a search: the kind, a type or relation, the frame and the predicate. -/
def asofFilter (kind : String) (typeOrRelation : Option (String × String)) (asOf : AsOf)
    (predicate : Option Value) : Except GraphError Value := do
  let pushed ← predicateClauses predicate
  .ok (.object [("$and", .array (equals "kind" kind :: constraintClauses typeOrRelation ++
    temporalClauses asOf ++ pushed))])

/-! ### What the clauses say -/

section Clauses

variable {N : Type*} [LinearOrder N] {asNumber : String → Option N} {metadata : Metadata}

section

variable (hfield : isLogicalOperator field = false)

include hfield

theorem isFilter_equals (text : String) : IsFilter (equals field text) := by
  refine .object _ (by simp) ?_
  simpa using .field field (.string text) hfield (.text text)

theorem isFilter_ordered (hop : isOrderedOperator op = true) (text : String) : IsFilter (ordered field op text) := by
  refine .object _ (by simp) ?_
  have hspec : IsFieldSpec (.object [(op, .string text)]) :=
    .operators _ (by simp) (by simpa using .ordered op text hop)
  simpa using .field field _ hfield hspec

theorem holds_equals (text : String) :
    holds asNumber metadata (equals field text) = (metadata[field]? == some text) := by
  have hentry : ∀ entry ∈ [(field, Value.string text)], IsEntry entry := by
    simpa using .field field (.string text) hfield (.text text)
  rw [equals, holds_object hentry]
  simp only [List.all_cons, List.all_nil, Bool.and_true, holdsEntry, matchesEntry_field hfield, matchesField, verdict]
  cases metadata[field]? <;> simp

theorem holds_ordered (hop : isOrderedOperator op = true) (text : String) :
    holds asNumber metadata (ordered field op text) =
      metadata[field]?.any fun stored => compareOrdered asNumber stored op text := by
  have hoperator : ∀ entry ∈ [(op, Value.string text)], IsOperator entry := by
    simpa using .ordered op text hop
  have hentry : ∀ entry ∈ [(field, Value.object [(op, .string text)])], IsEntry entry := by
    simpa using .field field _ hfield (.operators _ (by simp) hoperator)
  rw [ordered, holds_object hentry]
  simp only [List.all_cons, List.all_nil, Bool.and_true, holdsEntry_operators hfield hoperator]
  simp only [isOrderedOperator, Bool.or_eq_true, beq_iff_eq] at hop
  rcases hop with ((rfl | rfl) | rfl) | rfl <;> rfl

end

/-- The timestamps of a record, as its metadata has them. -/
structure MirrorsStamps (metadata : Metadata) (stamps : Stamps) : Prop where
  validAt : metadata["valid_at"]? = some (encodeTsStart stamps.validAt)
  invalidAt : metadata["invalid_at"]? = some (encodeTsOpen stamps.invalidAt)
  createdAt : metadata["created_at"]? = some (encodeTs stamps.createdAt)
  expiredAt : metadata["expired_at"]? = some (encodeTsOpen stamps.expiredAt)
  expiredAtIsOpen : metadata["expired_at_is_open"]? = some (if stamps.expiredAt.isNone then "true" else "false")

/-- A text that starts with the tag of a timestamp is no number. -/
def TagIsNoNumber (asNumber : String → Option N) : Prop :=
  ∀ text : String, text.toList.head? = some 'b' → asNumber text = none

section

variable (hnum : TagIsNoNumber asNumber)

include hnum

/-- Against a timestamp texts are compared as texts. -/
theorem compareOrdered_encodeTs (stored op : String) (time : TimeMs) :
    compareOrdered asNumber stored op (encodeTs time) = compareWith stored op (encodeTs time) := by
  have hnone : asNumber (encodeTs time) = none := hnum _ (by simp [encodeTs])
  rw [compareOrdered, hnone]

section

variable (hfield : isLogicalOperator field = false)

include hfield

theorem holds_atMost (hsto : metadata[field]? = some stored) (time : TimeMs) :
    holds asNumber metadata (ordered field "$lte" (encodeTs time)) = decide (stored ≤ encodeTs time) := by
  rw [holds_ordered hfield rfl, hsto, Option.any_some, compareOrdered_encodeTs hnum]
  simp [compareWith]

theorem holds_above (hsto : metadata[field]? = some stored) (time : TimeMs) :
    holds asNumber metadata (ordered field "$gt" (encodeTs time)) = decide (encodeTs time < stored) := by
  rw [holds_ordered hfield rfl, hsto, Option.any_some, compareOrdered_encodeTs hnum]
  simp [compareWith]

/-- A start that may be open is tested by its text. -/
theorem holds_started {start : Option TimeMs} (hsto : metadata[field]? = some (encodeTsStart start)) (time : TimeMs) :
    holds asNumber metadata (ordered field "$lte" (encodeTs time)) = isNoneOr start fun start => start ≤ time := by
  rw [holds_atMost hnum hfield hsto, Bool.eq_iff_iff, decide_eq_true_iff, encodeTsStart_le_iff]

/-- An end that may be open is tested by its text. -/
theorem holds_open (hsto : metadata[field]? = some (encodeTsOpen stop)) (time : TimeMs) :
    holds asNumber metadata (ordered field "$gt" (encodeTs time)) = isNoneOr stop fun stop => time < stop := by
  rw [holds_above hnum hfield hsto, Bool.eq_iff_iff, decide_eq_true_iff, lt_encodeTsOpen_iff]

end

end

/-- An end is open when it has the text of an open end. -/
theorem holds_isOpen (hfield : isLogicalOperator field = false)
    (hsto : metadata[field]? = some (encodeTsOpen stop)) :
    holds asNumber metadata (equals field (encodeTsOpen none)) = stop.isNone := by
  have hopen : encodeTsOpen none = openEnd := rfl
  rw [holds_equals hfield, hsto, hopen, Bool.eq_iff_iff, beq_iff_eq, Option.some_inj,
    encodeTsOpen_eq_openEnd_iff, Option.isNone_iff_eq_none]

theorem isFilter_and (hne : subs ≠ []) (hsubs : ∀ sub ∈ subs, IsFilter sub) :
    IsFilter (.object [("$and", .array subs)]) :=
  .object _ (by simp) (by simpa using .and subs hne hsubs)

theorem holds_and (hne : subs ≠ []) (hsubs : ∀ sub ∈ subs, IsFilter sub) :
    holds asNumber metadata (.object [("$and", .array subs)]) = subs.all (holds asNumber metadata) := by
  rw [holds_object (by simpa using .and subs hne hsubs)]
  simp [holdsEntry_and hsubs]

theorem isFilter_or (hne : subs ≠ []) (hsubs : ∀ sub ∈ subs, IsFilter sub) :
    IsFilter (.object [("$or", .array subs)]) :=
  .object _ (by simp) (by simpa using .or subs hne hsubs)

theorem holds_or (hne : subs ≠ []) (hsubs : ∀ sub ∈ subs, IsFilter sub) :
    holds asNumber metadata (.object [("$or", .array subs)]) = subs.any (holds asNumber metadata) := by
  rw [holds_object (by simpa using .or subs hne hsubs)]
  simp [holdsEntry_or hsubs]

theorem closedAfter_isFilter (knownAt : TimeMs) : ∀ clause ∈ closedAfter knownAt, IsFilter clause := by
  simp [closedAfter, isFilter_equals (show isLogicalOperator "expired_at_is_open" = false from rfl),
    isFilter_ordered (show isLogicalOperator "expired_at" = false from rfl) (show isOrderedOperator "$gt" = true from rfl)]

theorem temporalClauses_isFilter (asOf : AsOf) : ∀ clause ∈ temporalClauses asOf, IsFilter clause := by
  have hopen (field : String) (hfield : isLogicalOperator field = false) :
      IsFilter (equals field (encodeTsOpen none)) := isFilter_equals hfield _
  have hatMost (field : String) (hfield : isLogicalOperator field = false) (time : TimeMs) :
      IsFilter (ordered field "$lte" (encodeTs time)) := isFilter_ordered hfield rfl _
  have habove (field : String) (hfield : isLogicalOperator field = false) (time : TimeMs) :
      IsFilter (ordered field "$gt" (encodeTs time)) := isFilter_ordered hfield rfl _
  cases asOf with
  | all => simp [temporalClauses]
  | now =>
    simp only [temporalClauses, List.forall_mem_cons]
    exact ⟨hopen _ rfl, hopen _ rfl, by simp⟩
  | nowValid time =>
    simp only [temporalClauses, List.forall_mem_cons]
    exact ⟨hatMost _ rfl _, habove _ rfl _, hatMost _ rfl _, habove _ rfl _, by simp⟩
  | «at» time =>
    simp only [temporalClauses, List.forall_mem_cons]
    exact ⟨hatMost _ rfl _, habove _ rfl _, by simp⟩
  | atKnown validAt knownAt =>
    simp only [temporalClauses, List.forall_mem_cons]
    refine ⟨hatMost _ rfl _, hatMost _ rfl _, habove _ rfl _, isFilter_or (by simp) ?_, by simp⟩
    simp only [List.forall_mem_cons]
    exact ⟨isFilter_and (by simp [closedAfter]) (closedAfter_isFilter knownAt), habove _ rfl _, by simp⟩

/-- On the timestamps of a record the clauses of a frame say what the frame says. -/
theorem all_temporalClauses (hnum : TagIsNoNumber asNumber) {stamps : Stamps}
    (h : MirrorsStamps metadata stamps) (asOf : AsOf) :
    (temporalClauses asOf).all (holds asNumber metadata) = frameMatches asOf stamps := by
  have hstarted (time : TimeMs) : holds asNumber metadata (ordered "valid_at" "$lte" (encodeTs time)) =
      isNoneOr stamps.validAt fun start => start ≤ time := holds_started hnum rfl h.validAt time
  have hinvalid (time : TimeMs) : holds asNumber metadata (ordered "invalid_at" "$gt" (encodeTs time)) =
      isNoneOr stamps.invalidAt fun stop => time < stop := holds_open hnum rfl h.invalidAt time
  have hcr (time : TimeMs) : holds asNumber metadata (ordered "created_at" "$lte" (encodeTs time)) =
      decide (stamps.createdAt ≤ time) := by
    rw [holds_atMost hnum rfl h.createdAt, Bool.eq_iff_iff, decide_eq_true_iff, decide_eq_true_iff, encodeTs_le_iff]
  have hexp (time : TimeMs) : holds asNumber metadata (ordered "expired_at" "$gt" (encodeTs time)) =
      isNoneOr stamps.expiredAt fun stop => time < stop := holds_open hnum rfl h.expiredAt time
  cases asOf with
  | all => rfl
  | now =>
    simp [temporalClauses, frameMatches, holds_isOpen rfl h.expiredAt, holds_isOpen rfl h.invalidAt]
  | nowValid time => simp [temporalClauses, frameMatches, hstarted, hinvalid, hcr, hexp, Bool.and_assoc]
  | «at» time => simp [temporalClauses, frameMatches, hstarted, hinvalid]
  | atKnown validAt knownAt =>
    have hflag : holds asNumber metadata (equals "expired_at_is_open" "false") = stamps.expiredAt.isSome := by
      rw [holds_equals rfl, h.expiredAtIsOpen]
      cases stamps.expiredAt <;> rfl
    have hclosed : holds asNumber metadata (.object [("$and", .array (closedAfter knownAt))]) =
        stamps.expiredAt.any fun stop => knownAt < stop := by
      rw [holds_and (by simp [closedAfter]) (closedAfter_isFilter knownAt)]
      simp only [closedAfter, List.all_cons, List.all_nil, Bool.and_true, hflag, hexp]
      cases stamps.expiredAt <;> simp [isNoneOr]
    have hfilters : ∀ sub ∈ [Value.object [("$and", .array (closedAfter knownAt))],
        ordered "invalid_at" "$gt" (encodeTs validAt)], IsFilter sub := by
      simp only [List.forall_mem_cons]
      exact ⟨isFilter_and (by simp [closedAfter]) (closedAfter_isFilter knownAt), isFilter_ordered rfl rfl _, by simp⟩
    simp [temporalClauses, frameMatches, hstarted, hinvalid, hcr, hexp, holds_or (by simp) hfilters,
      hclosed, Bool.and_assoc]

/-! ### What the namespaced predicate says -/

theorem namespaceEntries_eq_mapM (entries : List (String × Value)) :
    namespaceEntries entries = entries.mapM namespaceEntry := by
  induction entries with
  | nil => rfl
  | cons entry rest ih => simp only [namespaceEntries, ih, List.mapM_cons]; rfl

theorem namespaceList_eq_mapM (items : List Value) : namespaceList items = items.mapM namespaceWalk := by
  induction items with
  | nil => rfl
  | cons item rest ih => simp only [namespaceList, ih, List.mapM_cons]; rfl

/-- Metadata that holds properties in their namespace. -/
def MirrorsProperties (metadata properties : Metadata) : Prop := ∀ key, metadata[propertyKey key]? = properties[key]?

/-- A field of a filter is tested by what the metadata holds under its name. -/
theorem matchesField_congr {metadata other : Metadata} (h : metadata[field]? = other[key]?) (spec : Value) :
    matchesField asNumber metadata field spec = matchesField asNumber other key spec := by
  have hop : matchesOperator asNumber metadata field = matchesOperator asNumber other key := by
    funext entry
    simp only [matchesOperator, h]
  simp only [matchesField, h, hop]

theorem head?_propertyKey (key : String) : (propertyKey key).toList.head? = some 'p' := by
  simp [propertyKey, String.toList_append]

/-- A filter over properties that moves into the namespace and says the same there. -/
def Namespaces (asNumber : String → Option N) (metadata properties : Metadata) (filter : Value) : Prop :=
  ∃ moved, namespaceWalk filter = .ok moved ∧ IsFilter moved ∧
    holds asNumber metadata moved = holds asNumber properties filter

/-- An entry of such a filter. -/
def NamespacesEntry (asNumber : String → Option N) (metadata properties : Metadata) (entry : String × Value) : Prop :=
  ∃ moved, namespaceEntry entry = .ok moved ∧ IsEntry moved ∧
    holdsEntry asNumber metadata moved = holdsEntry asNumber properties entry

variable {properties : Metadata}

/-- A list operand moves predicate by predicate. -/
theorem namespaceItems_of (h : ∀ sub ∈ subs, Namespaces asNumber metadata properties sub) :
    ∃ move : Value → Value, (∀ listError, namespaceItems listError (.array subs) = .ok (.array (subs.map move))) ∧
      (∀ moved ∈ subs.map move, IsFilter moved) ∧
      (subs.map move).map (holds asNumber metadata) = subs.map (holds asNumber properties) := by
  unfold Namespaces at h
  choose! move hmove hfilter hsame using h
  refine ⟨move, ?_, ?_, ?_⟩
  · intro listError
    rw [namespaceItems, namespaceList_eq_mapM, mapM_ok_map hmove]
    rfl
  · simpa using hfilter
  · simpa using hsame

theorem namespacesEntry_and (hne : subs ≠ []) (hsubs : ∀ sub ∈ subs, IsFilter sub)
    (h : ∀ sub ∈ subs, Namespaces asNumber metadata properties sub) :
    NamespacesEntry asNumber metadata properties ("$and", .array subs) := by
  obtain ⟨move, hmove, hfilters, hsame⟩ := namespaceItems_of h
  refine ⟨("$and", .array (subs.map move)), ?_, .and _ (by simpa using hne) hfilters, ?_⟩
  · simp [namespaceEntry, hmove, Except.map]
  · have hall := congrArg (List.all · id) hsame
    simp only [List.all_map, Function.id_comp] at hall
    rw [holdsEntry_and hfilters, holdsEntry_and hsubs, List.all_map]
    exact hall

theorem namespacesEntry_or (hne : subs ≠ []) (hsubs : ∀ sub ∈ subs, IsFilter sub)
    (h : ∀ sub ∈ subs, Namespaces asNumber metadata properties sub) :
    NamespacesEntry asNumber metadata properties ("$or", .array subs) := by
  obtain ⟨move, hmove, hfilters, hsame⟩ := namespaceItems_of h
  refine ⟨("$or", .array (subs.map move)), ?_, .or _ (by simpa using hne) hfilters, ?_⟩
  · simp [namespaceEntry, hmove, Except.map]
  · have hany := congrArg (List.any · id) hsame
    simp only [List.any_map, Function.id_comp] at hany
    rw [holdsEntry_or hfilters, holdsEntry_or hsubs, List.any_map]
    exact hany

theorem namespacesEntry_not {sub : Value} (hsub : IsFilter sub) (h : Namespaces asNumber metadata properties sub) :
    NamespacesEntry asNumber metadata properties ("$not", sub) := by
  obtain ⟨moved, hmoved, hfilter, hsame⟩ := h
  refine ⟨("$not", moved), ?_, .not moved hfilter, ?_⟩
  · simp [namespaceEntry, hmoved, Except.map]
  · rw [holdsEntry_not hfilter, holdsEntry_not hsub, hsame]

theorem namespacesEntry_field (hmirror : MirrorsProperties metadata properties) {spec : Value}
    (hkey : key.toList.head? ≠ some '$') (hspec : IsFieldSpec spec) :
    NamespacesEntry asNumber metadata properties (key, spec) := by
  have hlog : isLogicalOperator key = false := isLogicalOperator_of_head? hkey
  have hmovedKey : isLogicalOperator (propertyKey key) = false :=
    isLogicalOperator_of_head? (by simp [head?_propertyKey])
  refine ⟨(propertyKey key, spec), ?_, .field _ spec hmovedKey hspec, ?_⟩
  · simp only [isLogicalOperator, Bool.or_eq_false_iff, beq_eq_false_iff_ne] at hlog
    simp [namespaceEntry, hlog.1.1, hlog.1.2, hlog.2, hkey]
  · rw [holdsEntry, holdsEntry, matchesEntry_field hmovedKey, matchesEntry_field hlog,
      matchesField_congr (hmirror key)]

/-- A node moves entry by entry. -/
theorem namespaces_object {entries : List (String × Value)} (hne : entries ≠ [])
    (hents : ∀ entry ∈ entries, IsEntry entry)
    (h : ∀ entry ∈ entries, NamespacesEntry asNumber metadata properties entry) :
    Namespaces asNumber metadata properties (.object entries) := by
  unfold NamespacesEntry at h
  choose! move hmove hentry hsame using h
  have hmoved := List.forall_mem_map.mpr hentry
  refine ⟨.object (entries.map move), ?_, .object _ (by simpa using hne) hmoved, ?_⟩
  · rw [namespaceWalk, if_neg hne, namespaceEntries_eq_mapM, mapM_ok_map hmove]
    rfl
  · rw [holds_object hmoved, holds_object hents, List.all_map]
    rw [Bool.eq_iff_iff, List.all_eq_true, List.all_eq_true]
    refine forall₂_congr fun entry hentry => ?_
    rw [Function.comp, hsame entry hentry]

/-- What the coercion of a value returns moves into the namespace. -/
theorem namespaces_of_coerced (asNumber : String → Option N) (hmirror : MirrorsProperties metadata properties)
    (h : coerceSdkFilter predicate = .ok coerced) : Namespaces asNumber metadata properties coerced := by
  have hwalk := walksTo (P := fun value => IsFilter value ∧ Namespaces asNumber metadata properties value)
    (Q := fun entry => IsEntry entry ∧ NamespacesEntry asNumber metadata properties entry)
    (fun entries hne h => ⟨.object entries hne fun entry hentry => (h entry hentry).1,
      namespaces_object hne (fun entry hentry => (h entry hentry).1) fun entry hentry => (h entry hentry).2⟩)
    (fun subs hne h => ⟨.and subs hne fun sub hsub => (h sub hsub).1,
      namespacesEntry_and hne (fun sub hsub => (h sub hsub).1) fun sub hsub => (h sub hsub).2⟩)
    (fun subs hne h => ⟨.or subs hne fun sub hsub => (h sub hsub).1,
      namespacesEntry_or hne (fun sub hsub => (h sub hsub).1) fun sub hsub => (h sub hsub).2⟩)
    (fun sub h => ⟨.not sub h.1, namespacesEntry_not h.1 h.2⟩)
    (fun name spec hname hspec => ⟨.field name spec (isLogicalOperator_of_head? hname) hspec,
      namespacesEntry_field hmirror hname hspec⟩) predicate
  exact (hwalk.node _ _ _ h).2

end Clauses

/-! ### The metadata of a record -/

/-- A record that the index holds a document of. -/
inductive IndexedRecord
  | entity (entity : Entity)
  | fact (fact : Fact)
  deriving DecidableEq

namespace IndexedRecord

/-- The kind a search asks for. -/
def kind : IndexedRecord → String
  | entity _ => "entity"
  | fact _ => "fact"

/-- The type or relation a search can ask for, with the field it is mirrored under. -/
def constraint : IndexedRecord → String × String
  | entity e => ("type", e.entityType)
  | fact f => ("relation", f.relation)

def stamps : IndexedRecord → Stamps
  | entity e => e.stamps
  | fact f => f.stamps

def properties : IndexedRecord → Value
  | entity e => e.properties
  | fact f => f.properties

/-- The fields that identify a record. -/
def fields : IndexedRecord → List (String × String)
  | entity e => entityFields e
  | fact f => factFields f

def metadata : IndexedRecord → Metadata
  | entity e => entityMetadata e
  | fact f => factMetadata f

end IndexedRecord

theorem mirrorTemporal_mirrorsStamps (metadata : Metadata) (stamps : Stamps) :
    MirrorsStamps (mirrorTemporal metadata stamps) stamps where
  validAt := by simp only [mirrorTemporal, getElem?_insert]; rfl
  invalidAt := by simp only [mirrorTemporal, getElem?_insert]; rfl
  createdAt := by simp only [mirrorTemporal, getElem?_insert]; rfl
  expiredAt := by simp only [mirrorTemporal, getElem?_insert]; rfl
  expiredAtIsOpen := by simp only [mirrorTemporal, getElem?_insert]; rfl

/-- The fields of the timestamps. -/
def temporalFields : List String := ["valid_at", "invalid_at", "created_at", "expired_at", "expired_at_is_open"]

/-- Mirroring the timestamps leaves the other fields alone. -/
theorem getElem?_mirrorTemporal (metadata : Metadata) (stamps : Stamps) (hkey : key ∉ temporalFields) :
    (mirrorTemporal metadata stamps)[key]? = metadata[key]? := by
  simp only [temporalFields, List.mem_cons, List.not_mem_nil, or_false, not_or] at hkey
  obtain ⟨hvalid, hinvalid, hcr, hexp, hflag⟩ := hkey
  simp [mirrorTemporal, getElem?_insert, Ne.symm hvalid, Ne.symm hinvalid, Ne.symm hcr, Ne.symm hexp, Ne.symm hflag]

theorem propertyKey_injective : Function.Injective propertyKey := by
  intro left right h
  have hlists := congrArg String.toList h
  simp only [propertyKey, String.toList_append, List.append_cancel_left_eq] at hlists
  exact String.toList_inj.mp hlists

/-- Mirroring the properties leaves the fields outside their namespace alone. -/
theorem getElem?_mirrorProperties (metadata : Metadata) (properties : Value)
    (hkey : key.toList.head? ≠ some 'p') : (mirrorProperties metadata properties)[key]? = metadata[key]? := by
  refine getElem?_writeAll_of_notMem _ _ _ ?_
  simp only [List.map_map, List.mem_map, not_exists, not_and]
  rintro entry _ rfl
  exact hkey (head?_propertyKey _)

/-- Mirrored properties are found in their namespace. -/
theorem getElem?_mirrorProperties_propertyKey {metadata : Metadata} (hkey : metadata[propertyKey key]? = none)
    (properties : Value) :
    (mirrorProperties metadata properties)[propertyKey key]? = (scalarProperties properties)[key]? :=
  getElem?_writeAll_rename propertyKey_injective hkey

namespace IndexedRecord

variable (record : IndexedRecord)

theorem metadata_eq :
    record.metadata = mirrorTemporal (mirrorProperties (writeAll ∅ record.fields) record.properties) record.stamps := by
  cases record <;> rfl

theorem fields_nodup : (record.fields.map Prod.fst).Nodup := by
  cases record <;> simp [fields, entityFields, factFields]

/-- No identifying field is a timestamp or in the namespace of the properties. -/
theorem fields_apart : ∀ key ∈ record.fields.map Prod.fst, key ∉ temporalFields ∧ key.toList.head? ≠ some 'p' := by
  cases record <;> simp [fields, entityFields, factFields, temporalFields]

theorem getElem?_metadata {field : String × String} (hfield : field ∈ record.fields) :
    record.metadata[field.1]? = some field.2 := by
  have hapart := record.fields_apart field.1 (List.mem_map_of_mem hfield)
  rw [metadata_eq, getElem?_mirrorTemporal _ _ hapart.1, getElem?_mirrorProperties _ _ hapart.2]
  exact getElem?_writeAll_of_mem ∅ _ record.fields_nodup hfield

theorem mirrorsStamps : MirrorsStamps record.metadata record.stamps := by
  rw [metadata_eq]
  exact mirrorTemporal_mirrorsStamps _ _

theorem mirrorsProperties : MirrorsProperties record.metadata (scalarProperties record.properties) := by
  intro key
  have hfield : propertyKey key ∉ record.fields.map Prod.fst := by
    intro hmem
    exact (record.fields_apart _ hmem).2 (head?_propertyKey key)
  have htemporal : propertyKey key ∉ temporalFields := by
    have hheads : ∀ field ∈ temporalFields, field.toList.head? ≠ some 'p' := by decide
    intro hmem
    exact hheads _ hmem (head?_propertyKey key)
  rw [metadata_eq, getElem?_mirrorTemporal _ _ htemporal]
  refine getElem?_mirrorProperties_propertyKey ?_ record.properties
  rw [getElem?_writeAll_of_notMem _ _ _ hfield]
  simp

theorem kind_mem_fields : ("kind", record.kind) ∈ record.fields := by
  cases record <;> simp [fields, entityFields, factFields, kind]

theorem constraint_mem_fields : record.constraint ∈ record.fields := by
  cases record <;> simp [fields, entityFields, factFields, constraint]

theorem constraint_isField : isLogicalOperator record.constraint.1 = false := by
  cases record <;> rfl

end IndexedRecord

/-! ### The three encodings agree -/

section Agree

variable {N : Type*} [LinearOrder N] {asNumber : String → Option N}

/-- A checked predicate says in the namespace what it says of the properties. -/
theorem namespacePropertyPredicate_holds (asNumber : String → Option N)
    (h : coerceSdkFilter predicate = .ok coerced) (record : IndexedRecord) :
    ∃ moved, namespacePropertyPredicate coerced = .ok moved ∧ IsFilter moved ∧
      holds asNumber record.metadata moved = propertyMatches asNumber record.properties (some coerced) := by
  obtain ⟨moved, hmoved, hfilter, hsame⟩ := namespaces_of_coerced asNumber record.mirrorsProperties h
  refine ⟨moved, ?_, hfilter, hsame⟩
  rw [namespacePropertyPredicate, hmoved]
  rfl

/-- Check a caller's predicate if there is one. -/
def checkPredicate : Option Value → Except GraphError (Option Value)
  | none => .ok none
  | some predicate => (validatePropertyPredicate predicate).map some

theorem validatePropertyPredicate_eq_ok :
    validatePropertyPredicate predicate = .ok coerced ↔ coerceSdkFilter predicate = .ok coerced := by
  rw [validatePropertyPredicate]
  cases coerceSdkFilter predicate <;> simp [Except.mapError]

/-- The clause of a checked predicate says what the predicate says. -/
theorem predicateClauses_holds (asNumber : String → Option N) {predicate : Option Value}
    (h : checkPredicate predicate = .ok checked) (record : IndexedRecord) :
    ∃ clauses, predicateClauses predicate = .ok clauses ∧ (∀ clause ∈ clauses, IsFilter clause) ∧
      clauses.all (holds asNumber record.metadata) = propertyMatches asNumber record.properties checked := by
  cases predicate with
  | none =>
    obtain rfl := Except.ok.inj h
    exact ⟨[], rfl, by simp, rfl⟩
  | some predicate =>
    simp only [checkPredicate, map_eq_ok] at h
    obtain ⟨coerced, hcoerced, rfl⟩ := h
    obtain ⟨moved, hmoved, hfilter, hholds⟩ :=
      namespacePropertyPredicate_holds asNumber (validatePropertyPredicate_eq_ok.mp hcoerced) record
    refine ⟨[moved], ?_, by simpa using hfilter, ?_⟩
    · simp [predicateClauses, hcoerced, hmoved]
    · simpa using hholds

/-- On the metadata of a record the clause of its type or relation compares the texts. -/
theorem constraintClauses_holds (asNumber : String → Option N) (record : IndexedRecord) (wanted : Option String) :
    (∀ clause ∈ constraintClauses (wanted.map (record.constraint.1, ·)), IsFilter clause) ∧
    (constraintClauses (wanted.map (record.constraint.1, ·))).all (holds asNumber record.metadata) =
      wanted.all fun text => record.constraint.2 == text := by
  cases wanted with
  | none => exact ⟨by simp [constraintClauses], rfl⟩
  | some text =>
    refine ⟨by simpa [constraintClauses] using isFilter_equals record.constraint_isField text, ?_⟩
    have hholds : holds asNumber record.metadata (equals record.constraint.1 text) = (record.constraint.2 == text) := by
      rw [holds_equals record.constraint_isField, record.getElem?_metadata record.constraint_mem_fields]
      rfl
    simpa [constraintClauses] using hholds

/-- The filter of a search is built whenever the predicate is accepted, and on the metadata of a record it
says what the type or relation, the frame and the predicate say of the record. -/
theorem asofFilter_holds (hnum : TagIsNoNumber asNumber) (record : IndexedRecord) (asOf : AsOf)
    (wanted : Option String) {predicate : Option Value} (hchk : checkPredicate predicate = .ok checked) :
    ∃ filter, asofFilter record.kind (wanted.map (record.constraint.1, ·)) asOf predicate = .ok filter ∧
      IsFilter filter ∧ holds asNumber record.metadata filter =
        ((wanted.all fun text => record.constraint.2 == text) && frameMatches asOf record.stamps &&
          propertyMatches asNumber record.properties checked) := by
  obtain ⟨pushed, hpushed, hpushedFilters, hpredicate⟩ := predicateClauses_holds asNumber hchk record
  obtain ⟨hwantedFilters, hwanted⟩ := constraintClauses_holds asNumber record wanted
  have hkind : holds asNumber record.metadata (equals "kind" record.kind) = true := by
    rw [holds_equals rfl, record.getElem?_metadata record.kind_mem_fields, beq_self_eq_true]
  have hfilters : ∀ clause ∈ equals "kind" record.kind :: constraintClauses (wanted.map (record.constraint.1, ·)) ++
      temporalClauses asOf ++ pushed, IsFilter clause := by
    intro clause hclause
    simp only [List.cons_append, List.mem_cons, List.mem_append] at hclause
    rcases hclause with rfl | (hclause | hclause) | hclause
    · exact isFilter_equals rfl _
    · exact hwantedFilters clause hclause
    · exact temporalClauses_isFilter asOf clause hclause
    · exact hpushedFilters clause hclause
  refine ⟨_, by rw [asofFilter, hpushed]; rfl, isFilter_and (by simp) hfilters, ?_⟩
  rw [holds_and (by simp) hfilters]
  simp only [List.cons_append, List.all_cons, List.all_append, hkind, hwanted, hpredicate,
    all_temporalClauses hnum record.mirrorsStamps, Bool.true_and]

/-- The frame as a clause, as a test on the row and as the filter of a search agree on every record, with
the type or relation asked for and the caller's predicate beside it. The predicate in its namespace agrees
with the test of the row's properties. A filter that the engine accepts is evaluated as it was built. -/
theorem encodings_agree (hnumber : TagIsNoNumber asNumber) (record : IndexedRecord) (asOf : AsOf)
    (wanted : Option String) {predicate checked : Option Value} (hchecked : checkPredicate predicate = .ok checked) :
    Sql.selects (asOfSql asOf) record.stamps = frameMatches asOf record.stamps ∧
    ((entityFrameSql asOf).all fun clause => Sql.selects clause record.stamps) = frameMatches asOf record.stamps ∧
    (∃ filter, asofFilter record.kind (wanted.map (record.constraint.1, ·)) asOf predicate = .ok filter ∧
      matchesMetadataFilter asNumber record.metadata filter =
        .ok ((wanted.all fun text => record.constraint.2 == text) && frameMatches asOf record.stamps &&
          propertyMatches asNumber record.properties checked) ∧
      ∀ coerced, coerceSdkFilter filter = .ok coerced → coerced = filter) ∧
    ∀ coerced ∈ checked, ∃ moved, namespacePropertyPredicate coerced = .ok moved ∧
      matchesMetadataFilter asNumber record.metadata moved =
        .ok (propertyMatches asNumber record.properties (some coerced)) := by
  refine ⟨selects_asOfSql asOf record.stamps, selects_entityFrameSql asOf record.stamps, ?_, ?_⟩
  · obtain ⟨filter, hbuilt, hfilter, hholds⟩ := asofFilter_holds hnumber record asOf wanted hchecked
    refine ⟨filter, hbuilt, ?_, fun coerced hcoerced => coerceSdkFilter_eq_self hfilter hcoerced⟩
    rw [matchesMetadataFilter_eq hfilter, hholds]
  · intro coerced hcoerced
    cases predicate with
    | none =>
      obtain rfl := Except.ok.inj hchecked
      cases hcoerced
    | some predicate =>
      simp only [checkPredicate, map_eq_ok] at hchecked
      obtain ⟨checkedValue, hvalid, rfl⟩ := hchecked
      obtain rfl := Option.some.inj hcoerced
      obtain ⟨moved, hmoved, hfilter, hholds⟩ :=
        namespacePropertyPredicate_holds asNumber (validatePropertyPredicate_eq_ok.mp hvalid) record
      exact ⟨moved, hmoved, by rw [matchesMetadataFilter_eq hfilter, hholds]⟩

end Agree

/-- The number written in decimal digits. -/
def decimal (text : String) : Option ℕ :=
  if text.toList.all Char.isDigit then some (text.toList.foldl (fun n c => 10 * n + (c.toNat - 48)) 0) else none

/-- A fact without a start, closed in the knowledge of a later time. -/
def closedFact : Fact where
  id := "f"
  src := "ada"
  relation := "works_at"
  dst := "org"
  fact := "Ada works at the organisation"
  properties := .object [("confidence", .number "7"), ("tags", .array [.string "hr"])]
  episodes := []
  validAt := none
  invalidAt := some 5
  createdAt := -3
  expiredAt := some 9
  referenceTime := none

/-- At a time before its closing, the fact is still seen where its event time has ended since. -/
theorem encodings_agree_closedFact :
    frameMatches (.atKnown 6 8) closedFact.stamps = true ∧
    ∃ filter, asofFilter "fact" (some ("relation", "works_at")) (.atKnown 6 8)
        (some (.object [("confidence", .object [("$gte", .number "5")])])) = .ok filter ∧
      matchesMetadataFilter decimal (factMetadata closedFact) filter = .ok true := by
  have hnumber : TagIsNoNumber decimal := by
    intro text htag
    obtain ⟨rest, hrest⟩ := List.head?_eq_some_iff.mp htag
    simp [decimal, hrest]
  have hchecked : checkPredicate (some (.object [("confidence", .object [("$gte", .number "5")])])) =
      .ok (some (.object [("confidence", .object [("$gte", .string "5")])])) := rfl
  obtain ⟨_, _, ⟨filter, hbuilt, hmatches, _⟩, _⟩ :=
    encodings_agree hnumber (.fact closedFact) (.atKnown 6 8) (some "works_at") hchecked
  exact ⟨by decide, filter, hbuilt, hmatches.trans (by decide +kernel)⟩

end LodeDB.Graph
