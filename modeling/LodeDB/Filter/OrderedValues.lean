import LodeDB.Filter.FieldIndex
import LodeDB.Lib.SortedRun
import Mathlib

/-!
# Ordered operators on a field index

An ordered operator splits the stored values of a field into a sorted numeric run, cut by binary search, and a
remainder compared as strings. The partition, which the source caches, is recomputed here from the value postings.
`f64` comparison is the order of the parameter `N`.
-/

namespace LodeDB.Filter

open SortedRun

variable {N : Type*} [LinearOrder N] (asNumber : String → Option N)

variable {index : FieldIndex} {field op value : String} {corpus : Corpus}

/-- A stored value that reads as a number. -/
structure NumericValue (N : Type*) where
  number : N
  value : String

/-- The order of the numeric run: by number, equal numbers by their text. -/
def NumericValue.le (left right : NumericValue N) : Prop :=
  left.number < right.number ∨ (left.number = right.number ∧ left.value ≤ right.value)

instance (left right : NumericValue N) : Decidable (left.le right) :=
  inferInstanceAs (Decidable (_ ∨ _))

/-- The values of a field that read as numbers, in order. -/
def numericValues (index : FieldIndex) : List (NumericValue N) :=
  (index.valueDocs.keys.filterMap fun value => (asNumber value).map (NumericValue.mk · value)).insertionSort
    NumericValue.le

/-- The values of a field that do not read as numbers. -/
def nonnumericValues (index : FieldIndex) : List String :=
  index.valueDocs.keys.filter fun value => (asNumber value).isNone

/-- The numeric values on the side of the operand that the operator asks for. -/
def numericValuesSatisfying (index : FieldIndex) (op : String) (operand : N) : List String :=
  let run := numericValues asNumber index
  let lower := partitionPoint (fun entry => decide (entry.number < operand)) run
  let upper := partitionPoint (fun entry => decide (entry.number ≤ operand)) run
  let range :=
    if op = "$gt" then run.drop upper
    else if op = "$gte" then run.drop lower
    else if op = "$lt" then run.take lower
    else if op = "$lte" then run.take upper
    else []
  range.map NumericValue.value

/-- The stored values an ordered operator accepts. -/
def orderedValues (index : FieldIndex) (op operand : String) : List String :=
  match asNumber operand with
  | some number =>
    numericValuesSatisfying asNumber index op number ++
      (nonnumericValues asNumber index).filter fun value => compareOrdered asNumber value op operand
  | none => index.valueDocs.keys.filter fun value => compareOrdered asNumber value op operand

/-- The documents an ordered operator accepts. -/
def resolveOrdered (index : FieldIndex) (op operand : String) : DocSet :=
  (orderedValues asNumber index op operand).foldl (fun docs value => docs ∪ index.posting value) ∅

/-- The number of documents an ordered operator accepts, by summing posting lengths. -/
def countOrdered (index : FieldIndex) (op operand : String) : ℕ :=
  ((orderedValues asNumber index op operand).map fun value => (index.posting value).card).sum

variable {asNumber}

/-- The order of the numeric run is total. -/
theorem NumericValue.total (left right : NumericValue N) : left.le right ∨ right.le left := by
  rcases lt_trichotomy left.number right.number with h | h | h
  · exact .inl (.inl h)
  · rcases le_total left.value right.value with hvalue | hvalue
    · exact .inl (.inr ⟨h, hvalue⟩)
    · exact .inr (.inr ⟨h.symm, hvalue⟩)
  · exact .inr (.inl h)

/-- The order of the numeric run is transitive. -/
theorem NumericValue.trans {first second third : NumericValue N} (h : first.le second)
    (h' : second.le third) : first.le third := by
  rcases h with h | ⟨h, hvalue⟩ <;> rcases h' with h' | ⟨h', hvalue'⟩
  · exact .inl (h.trans h')
  · exact .inl (h'.symm ▸ h)
  · exact .inl (h ▸ h')
  · exact .inr ⟨h.trans h', hvalue.trans hvalue'⟩

/-- The numeric run is sorted by number. -/
theorem numericValues_sorted (index : FieldIndex) :
    (numericValues asNumber index).Pairwise fun left right => left.number ≤ right.number := by
  have hsorted : (numericValues asNumber index).Pairwise NumericValue.le := by
    have : Std.Total (NumericValue.le (N := N)) := ⟨NumericValue.total⟩
    have : IsTrans (NumericValue N) NumericValue.le := ⟨fun _ _ _ => NumericValue.trans⟩
    exact List.pairwise_insertionSort _ _
  exact hsorted.imp fun {left right} h => h.elim (fun h => h.le) fun h => h.1.le

/-- The numeric run holds the stored values that read as numbers, with their number. -/
theorem mem_numericValues {entry : NumericValue N} :
    entry ∈ numericValues asNumber index ↔
      entry.value ∈ index.valueDocs.keys ∧ asNumber entry.value = some entry.number := by
  simp only [numericValues, List.mem_insertionSort, List.mem_filterMap, Option.map_eq_some_iff]
  constructor
  · rintro ⟨value, hvalue, number, hnum, rfl⟩
    exact ⟨hvalue, hnum⟩
  · rintro ⟨hvalue, hnum⟩
    exact ⟨entry.value, hvalue, entry.number, hnum, rfl⟩

/-- The texts of the numeric run are distinct. -/
theorem numericValues_nodup (index : FieldIndex) : ((numericValues asNumber index).map NumericValue.value).Nodup := by
  rw [numericValues, ((List.perm_insertionSort _ _).map _).nodup_iff, List.map_filterMap]
  refine (index.valueDocs.nodup_keys).filterMap ?_
  intro left right value hleft hright
  simp only [Option.map_map, Option.mem_def, Option.map_eq_some_iff, Function.comp_apply] at hleft hright
  obtain ⟨_, _, rfl⟩ := hleft
  obtain ⟨_, _, h⟩ := hright
  exact h.symm

/-- Every range the ordered operators cut is part of the numeric run. -/
theorem numericValuesSatisfying_nodup (index : FieldIndex) (op : String) (operand : N) :
    (numericValuesSatisfying asNumber index op operand).Nodup := by
  have hsub : (numericValuesSatisfying asNumber index op operand).Sublist
      ((numericValues asNumber index).map NumericValue.value) := by
    refine List.Sublist.map _ ?_
    split_ifs
    · exact List.drop_sublist _ _
    · exact List.drop_sublist _ _
    · exact List.take_sublist _ _
    · exact List.take_sublist _ _
    · exact List.nil_sublist _
  exact hsub.nodup (numericValues_nodup index)

/-- The range of an ordered operator has the values whose number compares. -/
theorem mem_numericValuesSatisfying {operand : N} :
    value ∈ numericValuesSatisfying asNumber index op operand ↔ value ∈ index.valueDocs.keys ∧
        ∃ number, asNumber value = some number ∧ compareWith number op operand = true := by
  have hlower : IsPartitioned (fun entry => decide (entry.number < operand))
      (numericValues asNumber index) :=
    isPartitioned_of_pairwise (numericValues_sorted index) fun _ _ hle hlt =>
      decide_eq_true (hle.trans_lt (of_decide_eq_true hlt))
  have hupper : IsPartitioned (fun entry => decide (entry.number ≤ operand))
      (numericValues asNumber index) :=
    isPartitioned_of_pairwise (numericValues_sorted index) fun _ _ hle hle' =>
      decide_eq_true (hle.trans (of_decide_eq_true hle'))
  -- each operator keeps the entries of the run that satisfy the comparison
  have hrange : ∀ (range : List (NumericValue N)) (test : N → Prop),
      (∀ entry, entry ∈ range ↔ entry ∈ numericValues asNumber index ∧ test entry.number) →
      (value ∈ range.map NumericValue.value ↔ value ∈ index.valueDocs.keys ∧
        ∃ number, asNumber value = some number ∧ test number) := by
    intro range test hmem
    simp only [List.mem_map, hmem, mem_numericValues]
    constructor
    · rintro ⟨entry, ⟨⟨hkey, hnum⟩, htest⟩, rfl⟩
      exact ⟨hkey, entry.number, hnum, htest⟩
    · rintro ⟨hkey, number, hnum, htest⟩
      exact ⟨⟨number, value⟩, ⟨⟨hkey, hnum⟩, htest⟩, rfl⟩
  unfold numericValuesSatisfying
  refine hrange _ (fun number => compareWith number op operand = true) fun entry => ?_
  unfold compareWith
  split_ifs
  · simp [mem_drop_partitionPoint hupper]
  · simp [mem_drop_partitionPoint hlower]
  · simp [mem_take_partitionPoint hlower]
  · simp [mem_take_partitionPoint hupper]
  · simp

/-- An ordered operator accepts what the per-document comparison accepts. -/
theorem mem_orderedValues {operand : String} :
    value ∈ orderedValues asNumber index op operand ↔
      value ∈ index.valueDocs.keys ∧ compareOrdered asNumber value op operand = true := by
  unfold orderedValues
  split
  · rename_i number hnum
    simp only [List.mem_append, mem_numericValuesSatisfying, nonnumericValues, List.mem_filter, compareOrdered, hnum]
    cases asNumber value <;> simp
  · simp

/-- The accepted values are listed once each. -/
theorem orderedValues_nodup (index : FieldIndex) (op operand : String) :
    (orderedValues asNumber index op operand).Nodup := by
  unfold orderedValues
  split
  · refine List.Nodup.append (numericValuesSatisfying_nodup index op _)
      ((index.valueDocs.nodup_keys.filter _).filter _) ?_
    intro value hnumeric hnonnumeric
    obtain ⟨_, _, hnum, _⟩ := mem_numericValuesSatisfying.mp hnumeric
    simp [nonnumericValues, hnum] at hnonnumeric
  · exact index.valueDocs.nodup_keys.filter _

/-- The union of the accepted postings. -/
theorem resolveOrdered_eq_biUnion (index : FieldIndex) (op operand : String) :
    resolveOrdered asNumber index op operand =
      (orderedValues asNumber index op operand).toFinset.biUnion index.posting := by
  have hfold : ∀ (values : List String) (docs : DocSet),
      values.foldl (fun docs value => docs ∪ index.posting value) docs =
        docs ∪ values.toFinset.biUnion index.posting := by
    intro values
    induction values with
    | nil => simp
    | cons value rest ih =>
      intro docs
      rw [List.foldl_cons, ih, List.toFinset_cons, Finset.biUnion_insert, Finset.union_assoc]
  rw [resolveOrdered, hfold, Finset.empty_union]

/-- On a reflecting index an ordered operator selects the documents it should. -/
theorem Reflects.resolveOrdered_eq (h : Reflects corpus field index) (op operand : String) :
    resolveOrdered asNumber index op operand =
      corpus.select fun metadata => metadata[field]?.any fun value => compareOrdered asNumber value op operand := by
  ext id
  simp only [resolveOrdered_eq_biUnion, Finset.mem_biUnion, List.mem_toFinset, mem_orderedValues]
  constructor
  · rintro ⟨value, ⟨_, hcompare⟩, hid⟩
    simp only [h.posting, Corpus.mem_select, beq_iff_eq] at hid
    obtain ⟨metadata, hmeta, hvalue⟩ := hid
    exact Corpus.mem_select.mpr ⟨metadata, hmeta, by simpa [hvalue] using hcompare⟩
  · intro hid
    obtain ⟨metadata, hmeta, hany⟩ := Corpus.mem_select.mp hid
    cases hvalue : metadata[field]? with
    | none => simp [hvalue] at hany
    | some value =>
      have hpost : id ∈ index.posting value := by
        simpa [h.posting] using ⟨metadata, hmeta, hvalue⟩
      refine ⟨value, ⟨FieldIndex.mem_keys_of_mem_posting hpost, ?_⟩, hpost⟩
      simpa [hvalue] using hany

/-- On a reflecting index summing posting lengths counts the accepted documents. -/
theorem Reflects.countOrdered_eq (h : Reflects corpus field index) (op operand : String) :
    countOrdered asNumber index op operand = (resolveOrdered asNumber index op operand).card := by
  rw [resolveOrdered_eq_biUnion, Finset.card_biUnion fun left _ right _ hne => h.posting_disjoint hne,
    countOrdered, List.sum_toFinset _ (orderedValues_nodup index op operand)]

end LodeDB.Filter
