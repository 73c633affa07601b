import LodeDB.Filter.Resolve

/-!
# Exact matching counts

The planner first asks the postings how many documents match. A conjunction or a disjunction has
a count only when one of its parts decides it or when it has a single part, so the answer may be
`none`; an answer that is given is the number of matching documents.
-/

namespace LodeDB.Filter

open ExceptRules

variable {ι : Type}

variable {parts : List ι} {part : ι} {test : ι → Metadata → Bool}

/-- The count of a conjunction, if its parts decide it. -/
def countAnd (counts : List (Option ℕ)) (total : ℕ) : Option ℕ :=
  if counts = [] then some total
  else if some 0 ∈ counts then some 0
  else if ∀ count ∈ counts, count = some total then some total
  else match counts with
    | [count] => count
    | _ => none

/-- The count of a disjunction, if its parts decide it. -/
def countOr (counts : List (Option ℕ)) (total : ℕ) : Option ℕ :=
  if counts = [] then some 0
  else if some total ∈ counts then some total
  else if ∀ count ∈ counts, count = some 0 then some 0
  else match counts with
    | [count] => count
    | _ => none

/-- The results of a list of computations, or the first error. -/
def collect {α : Type*} (results : List (Except CoreError α)) : Except CoreError (List α) :=
  results.mapM id

section Count

variable {N : Type*} [LinearOrder N] (asNumber : String → Option N)

/-- The number of documents one operator accepts, from posting lengths. -/
def countOperator (index : FieldIndex) (total : ℕ) (entry : String × Value) :
    Except CoreError (Option ℕ) :=
  (readOperator plannerValues entry).map fun
    | .eq value => some (index.posting value).card
    | .ne value => some (total - (index.posting value).card)
    | .isIn values => some (unionPostings index values).card
    | .notIn values => some (total - (unionPostings index values).card)
    | .exists flag => some (if flag then index.docs.card else total - index.docs.card)
    | .ordered op operand => some (countOrdered asNumber index op operand)

/-- The number of documents a field's specification accepts. -/
def countField (fields : FieldIndexes) (total : ℕ) (field : String) (spec : Value) :
    Except CoreError (Option ℕ) :=
  let index := fields.index field
  readFieldSpec (fun expected => .ok (some (index.posting expected).card))
    (fun entries => (collect (entries.map (countOperator asNumber index total))).map (countAnd · total))
    .error spec

/-- The walk that counts matching documents. -/
def counting (fields : FieldIndexes) (total : ℕ) : Traversal (Except CoreError (Option ℕ)) where
  node counts := (collect counts).map (countAnd · total)
  conj counts := (collect counts).map (countAnd · total)
  disj counts := (collect counts).map (countOr · total)
  neg count := count.map fun count => count.map (total - ·)
  field := countField asNumber fields total
  reject := .error

/-- The exact number of matching documents of a filter, when the indexes give it. -/
def exactMatchingCount (filter : Value) (fields : FieldIndexes) (allDocs : DocSet) :
    Except CoreError (Option ℕ) :=
  (counting asNumber fields allDocs.card).filter filter

/-- The exact number of matching documents of one entry of a filter node. -/
def countEntry (entry : String × Value) (fields : FieldIndexes) (allDocs : DocSet) :
    Except CoreError (Option ℕ) :=
  (counting asNumber fields allDocs.card).filterEntry entry

end Count

variable {N : Type*} [LinearOrder N] {asNumber : String → Option N} {corpus : Corpus}

/-- Computations that all succeed are collected in order. -/
theorem collect_map {α : Type} {result : ι → Except CoreError α} {value : ι → α}
    (h : ∀ part ∈ parts, result part = .ok (value part)) : collect (parts.map result) = .ok (parts.map value) := by
  rw [collect, List.mapM_map]
  exact mapM_ok_map h

/-- A conjunction selects nothing its parts do not. -/
theorem Corpus.select_all_subset (corpus : Corpus) (test : ι → Metadata → Bool) (hpart : part ∈ parts) :
    (corpus.select fun metadata => (parts.map (test · metadata)).all id) ⊆ corpus.select (test part) := by
  intro document hdoc
  simp only [mem_select, List.all_map, List.all_eq_true, Function.comp_apply, id] at hdoc ⊢
  obtain ⟨metadata, hmeta, hall⟩ := hdoc
  exact ⟨metadata, hmeta, hall part hpart⟩

/-- A disjunction selects everything its parts do. -/
theorem Corpus.select_subset_any (corpus : Corpus) (test : ι → Metadata → Bool) (hpart : part ∈ parts) :
    corpus.select (test part) ⊆ corpus.select fun metadata => (parts.map (test · metadata)).any id := by
  intro document hdoc
  simp only [mem_select, List.any_map, List.any_eq_true, Function.comp_apply, id] at hdoc ⊢
  obtain ⟨metadata, hmeta, hpass⟩ := hdoc
  exact ⟨metadata, hmeta, part, hpart, hpass⟩

/-- A test that selects as many documents as there are selects them all. -/
theorem Corpus.select_eq_allDocs {test : Metadata → Bool}
    (h : (corpus.select test).card = corpus.allDocs.card) : corpus.select test = corpus.allDocs :=
  Finset.eq_of_subset_of_card_le (corpus.select_subset test) h.ge

/-- Parts that all select everything leave their conjunction everything. -/
theorem Corpus.select_all_eq_allDocs (h : ∀ part ∈ parts, corpus.select (test part) = corpus.allDocs) :
    (corpus.select fun metadata => (parts.map (test · metadata)).all id) = corpus.allDocs := by
  refine Finset.Subset.antisymm (corpus.select_subset _) fun document hdoc => ?_
  obtain ⟨metadata, hmeta⟩ := Corpus.mem_allDocs.mp hdoc
  refine Corpus.mem_select.mpr ⟨metadata, hmeta, ?_⟩
  simp only [List.all_map, List.all_eq_true, Function.comp_apply, id]
  intro part hpart
  rw [← h part hpart] at hdoc
  obtain ⟨metadata', hmetadata', hpass⟩ := Corpus.mem_select.mp hdoc
  rw [hmeta, Option.some.injEq] at hmetadata'
  exact hmetadata' ▸ hpass

/-- Parts that all select nothing leave their disjunction nothing. -/
theorem Corpus.select_any_eq_empty (h : ∀ part ∈ parts, corpus.select (test part) = ∅) :
    (corpus.select fun metadata => (parts.map (test · metadata)).any id) = ∅ := by
  rw [Finset.eq_empty_iff_forall_notMem]
  intro document hdoc
  simp only [mem_select, List.any_map, List.any_eq_true, Function.comp_apply, id] at hdoc
  obtain ⟨metadata, hmeta, part, hpart, hpass⟩ := hdoc
  have hselected := Corpus.mem_select.mpr ⟨metadata, hmeta, hpass⟩
  rw [h part hpart] at hselected
  exact Finset.notMem_empty _ hselected

/-- A count that is given is the number of matching documents. -/
def Counts (corpus : Corpus) (test : Metadata → Bool) (result : Except CoreError (Option ℕ)) : Prop :=
  Gives (· = (corpus.select test).card) result

/-- A count decided by a part that absorbs the others, by all parts being neutral, or by a single part. -/
theorem combines_count {tests : List Bool → Bool} {decide : List (Option ℕ) → Option ℕ} (absorbing neutral : ℕ)
    (hdecide : ∀ counts, counts ≠ [] → decide counts =
      if some absorbing ∈ counts then some absorbing
      else if ∀ count ∈ counts, count = some neutral then some neutral
      else match counts with
        | [count] => count
        | _ => none)
    (habsorbs : ∀ {ι : Type} {parts : List ι} (test : ι → Metadata → Bool) {part : ι}, part ∈ parts →
      (corpus.select (test part)).card = absorbing →
      (corpus.select fun metadata => tests (parts.map (test · metadata))).card = absorbing)
    (hneutral : ∀ {ι : Type} {parts : List ι} {test : ι → Metadata → Bool},
      (∀ part ∈ parts, (corpus.select (test part)).card = neutral) →
      (corpus.select fun metadata => tests (parts.map (test · metadata))).card = neutral)
    (hsingle : ∀ passed, tests [passed] = passed) :
    Combines (Counts corpus) tests fun counts => (collect counts).map decide := by
  intro ι parts test result hne h
  choose! count hcount hexact using h
  refine ⟨decide (parts.map count), by simp only [collect_map hcount]; rfl, fun n hn => ?_⟩
  rw [hdecide _ (by simpa using hne)] at hn
  split_ifs at hn with hone hall
  · obtain ⟨part, hpart, hpartCount⟩ := List.mem_map.mp hone
    rw [habsorbs test hpart (hexact part hpart _ hpartCount).symm, Option.some.inj hn]
  · rw [hneutral fun part hpart => (hexact part hpart _ (hall _ (List.mem_map_of_mem hpart))).symm,
      Option.some.inj hn]
  · split at hn
    · rename_i single hlist
      obtain ⟨part, rfl, hpartCount⟩ := List.map_eq_singleton_iff.mp hlist
      simpa [hsingle] using hexact part List.mem_cons_self n (hpartCount.trans hn)
    · cases hn

/-- The count of a conjunction counts what passes all of its parts. -/
theorem combines_countAnd :
    Combines (Counts corpus) (List.all · id) fun counts =>
      (collect counts).map (countAnd · corpus.allDocs.card) := by
  refine combines_count 0 corpus.allDocs.card (fun counts hne => if_neg hne) ?_ ?_ (by simp)
  · intro ι parts test part hpart hzero
    have hsub := Finset.card_le_card (corpus.select_all_subset test hpart)
    omega
  · intro ι parts test htotal
    rw [Corpus.select_all_eq_allDocs fun part hpart => Corpus.select_eq_allDocs (htotal part hpart)]

/-- The count of a disjunction counts what passes one of its parts. -/
theorem combines_countOr :
    Combines (Counts corpus) (List.any · id) fun counts =>
      (collect counts).map (countOr · corpus.allDocs.card) := by
  refine combines_count corpus.allDocs.card 0 (fun counts hne => if_neg hne) ?_ ?_ (by simp)
  · intro ι parts test part hpart htotal
    have hsub := Finset.card_le_card (corpus.select_subset_any test hpart)
    have hle := Finset.card_le_card
      (corpus.select_subset fun metadata => (parts.map (test · metadata)).any id)
    omega
  · intro ι parts test hzero
    rw [Corpus.select_any_eq_empty fun part hpart => Finset.card_eq_zero.mp (hzero part hpart), Finset.card_empty]

/-- The documents outside a posting, counted. -/
theorem Corpus.card_select_not (corpus : Corpus) (test : Metadata → Bool) :
    (corpus.select fun metadata => !test metadata).card = corpus.allDocs.card - (corpus.select test).card := by
  rw [select_not, Finset.card_sdiff_of_subset (corpus.select_subset test)]

/-- On a reflecting index an operator's count is the number of documents it accepts. -/
theorem Reflects.countOperator_eq {field : String} {index : FieldIndex} (h : Reflects corpus field index)
    {entry : String × Value} {operator : Operator} (hop : Denotes entry operator) :
    Counts corpus (fun metadata => operator.accepts asNumber metadata[field]?)
      (countOperator asNumber index corpus.allDocs.card entry) := by
  rw [countOperator, hop.read_planner]
  cases operator with
  | eq value => exact .some (congrArg Finset.card (h.posting value))
  | ne value =>
    refine .some ?_
    rw [h.posting, ← Corpus.card_select_not]
    rfl
  | isIn values => exact .some (congrArg Finset.card (h.unionPostings_eq values))
  | notIn values =>
    refine .some ?_
    rw [h.unionPostings_eq, ← Corpus.card_select_not]
    rfl
  | «exists» flag =>
    refine .some ?_
    rw [h.docs]
    cases flag with
    | true => simp [Operator.accepts]
    | false => simp [Operator.accepts, ← Corpus.card_select_not]
  | ordered op operand => exact .some (by rw [h.countOrdered_eq, h.resolveOrdered_eq]; rfl)

/-- Counting a validated filter keeps every count exact. -/
theorem counting_keeps (asNumber : String → Option N) {fields : FieldIndexes} (h : Indexes corpus fields) :
    (counting asNumber fields corpus.allDocs.card).Keeps asNumber (Counts corpus) where
  node := combines_countAnd
  conj := combines_countAnd
  disj := combines_countOr
  neg test result hr := by
    obtain ⟨count, hcount, hexact⟩ := hr
    refine ⟨count.map (corpus.allDocs.card - ·), by simp only [counting, hcount]; rfl, fun n hn => ?_⟩
    obtain ⟨matching, hmatch, rfl⟩ := Option.map_eq_some_iff.mp hn
    rw [hexact matching hmatch, ← Corpus.card_select_not]
  field name spec hname hspec := by
    refine sound_readFieldSpec hname hspec combines_countAnd ?_ fun entry operator hop =>
      (h name).countOperator_eq hop
    exact fun expected => .some (congrArg Finset.card ((h name).posting expected))

end LodeDB.Filter
