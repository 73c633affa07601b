import Mathlib.Data.List.Forall2

/-!
# Computations that may fail

How a result of a monadic computation in `Except` splits into the results of its steps. The
rules are stated for `ok` results: a proof about a successful run peels the steps apart with
`bind_eq_ok`, and a proof that a run succeeds builds it back with the totality rules.
-/

namespace ExceptRules

universe u v

variable {ε : Type u} {α β : Type v}

variable {first : Except ε α} {result : β} {f : α → β} {check : Prop} {error : ε} {step : α → Except ε β}
  {results : List β} {items : List α}

/-- A sequence of two steps succeeds exactly when both steps do. -/
@[simp] theorem bind_eq_ok {next : α → Except ε β} :
    (first >>= next) = .ok result ↔ ∃ value, first = .ok value ∧ next value = .ok result := by
  cases first with
  | error error => simp [bind, Except.bind]
  | ok value => simp [bind, Except.bind]

/-- Mapping a pure function over a computation succeeds with the mapped value. -/
@[simp] theorem map_eq_ok : first.map f = .ok result ↔ ∃ value, first = .ok value ∧ f value = result := by
  cases first with
  | error error => simp [Except.map]
  | ok value => simp [Except.map]

@[simp] theorem ok_bind (value : α) (next : α → Except ε β) : (Except.ok value >>= next) = next value := rfl

/-- Mapping the result of a sequence maps the result of its last step. -/
theorem map_bind {γ : Type v} (first : Except ε α) (next : α → Except ε β) (f : β → γ) :
    (first >>= next).map f = first >>= fun value => (next value).map f := by
  cases first <;> rfl

/-- Computations are equal if a faithful view of their results is. -/
theorem eq_of_map_eq {second : Except ε α} (h : first.map f = second.map f)
    (hview : ∀ value other, first = .ok value → second = .ok other → f value = f other → value = other) :
    first = second := by
  cases first with
  | error error =>
    cases second with
    | error other =>
      cases h
      rfl
    | ok other => cases h
  | ok value =>
    cases second with
    | error other => cases h
    | ok other => rw [hview value other rfl rfl (Except.ok.inj h)]

/-- A check that must hold before a computation goes on. -/
def ensure (check : Prop) [Decidable check] (error : ε) : Except ε PUnit.{v + 1} :=
  if check then .ok ⟨⟩ else .error error

@[simp] theorem ensure_eq_ok [Decidable check] {result : PUnit.{v + 1}} :
    ensure check error = .ok result ↔ check := by
  unfold ensure
  split <;> simp_all

theorem ensure_of [Decidable check] (h : check) :
    ensure check error = .ok (PUnit.unit : PUnit.{v + 1}) := if_pos h

/-- Checking every item of a list succeeds exactly when every check does. -/
@[simp] theorem forM_eq_ok {check : α → Except ε PUnit.{v + 1}} :
    forM items check = .ok ⟨⟩ ↔ ∀ item ∈ items, check item = .ok ⟨⟩ := by
  induction items with
  | nil => simp [pure, Except.pure]
  | cons item items ih =>
    rw [List.forM_cons, bind_eq_ok, List.forall_mem_cons]
    constructor
    · rintro ⟨_, hitem, hitems⟩
      exact ⟨hitem, ih.mp hitems⟩
    · rintro ⟨hitem, hitems⟩
      exact ⟨⟨⟩, hitem, ih.mpr hitems⟩

/-- Every item is related to something exactly when the list is to some list. -/
theorem exists_forall₂ {related : α → β → Prop} :
    (∃ others, List.Forall₂ related items others) ↔ ∀ item ∈ items, ∃ other, related item other := by
  induction items with
  | nil => exact ⟨by simp, fun _ => ⟨[], .nil⟩⟩
  | cons item items ih =>
    rw [List.forall_mem_cons, ← ih]
    constructor
    · rintro ⟨_, _ | ⟨hfirst, hrest⟩⟩
      exact ⟨⟨_, hfirst⟩, _, hrest⟩
    · rintro ⟨⟨other, hfirst⟩, others, hrest⟩
      exact ⟨other :: others, .cons hfirst hrest⟩

/-- A step over a list succeeds exactly when it does on each item, in order. -/
theorem mapM_eq_ok :
    items.mapM step = .ok results ↔ List.Forall₂ (fun item result => step item = .ok result) items results := by
  induction items generalizing results with
  | nil => cases results <;> simp [pure, Except.pure]
  | cons item items ih =>
    simp only [List.mapM_cons, bind_eq_ok, ih]
    constructor
    · rintro ⟨value, hvalue, values, hvalues, hr⟩
      simp only [pure, Except.pure, Except.ok.injEq] at hr
      subst hr
      exact .cons hvalue hvalues
    · intro h
      cases h with
      | cons hvalue hvalues => exact ⟨_, hvalue, _, hvalues, rfl⟩

/-- A step that succeeds with a function's values maps like that function. -/
theorem mapM_ok_map (h : ∀ item ∈ items, step item = .ok (f item)) : items.mapM step = .ok (items.map f) := by
  rw [mapM_eq_ok, List.forall₂_map_right_iff, List.forall₂_same]
  exact h

/-- A step whose results are those of a function maps like that function. -/
theorem mapM_eq_map (h : items.mapM step = .ok results)
    (hstep : ∀ item ∈ items, ∀ result, step item = .ok result → result = f item) : results = items.map f := by
  have hboth := (List.forall₂_and_left _ _).mpr ⟨hstep, mapM_eq_ok.mp h⟩
  have hsame : List.Forall₂ Eq (items.map f) results :=
    List.forall₂_map_left_iff.mpr (hboth.imp fun item result hitem => (hitem.1 result hitem.2).symm)
  exact (List.forall₂_eq_eq_eq ▸ hsame).symm

/-- A step that changes another's results on each item changes those of the list. -/
theorem mapM_ok_of_mapM {changed : α → Except ε β} {f : β → β} (h : items.mapM step = .ok results)
    (hstep : ∀ item ∈ items, ∀ result, step item = .ok result → changed item = .ok (f result)) :
    items.mapM changed = .ok (results.map f) := by
  rw [mapM_eq_ok, List.forall₂_map_right_iff]
  have hboth := (List.forall₂_and_left _ _).mpr ⟨hstep, mapM_eq_ok.mp h⟩
  exact hboth.imp fun item result hitem => hitem.1 result hitem.2

/-- A list whose items a step leaves as they are is left as it is. -/
theorem mapM_eq_self {step : α → Except ε α} {results : List α} (h : items.mapM step = .ok results)
    (hstep : ∀ item ∈ items, ∀ result, step item = .ok result → result = item) : results = items := by
  have hmap : results = items.map id := mapM_eq_map h hstep
  rwa [List.map_id] at hmap

/-- Every result of a mapped step comes from an item. -/
theorem exists_of_mem_mapM (h : items.mapM step = .ok results) (hr : result ∈ results) :
    ∃ item ∈ items, step item = .ok result := by
  rw [mapM_eq_ok] at h
  induction h with
  | nil => simp at hr
  | cons hstep _ ih =>
    rcases List.mem_cons.mp hr with rfl | hr
    · exact ⟨_, List.mem_cons_self, hstep⟩
    · obtain ⟨item, hitem, hok⟩ := ih hr
      exact ⟨item, List.mem_cons_of_mem _ hitem, hok⟩

/-- A mapped step keeps the length of the list. -/
theorem length_of_mapM (h : items.mapM step = .ok results) : results.length = items.length :=
  (mapM_eq_ok.mp h).length_eq.symm

/-- A conjunction of tests that all succeed is the conjunction of their verdicts. -/
theorem allM_ok_all {step : α → Except ε Bool} {test : α → Bool}
    (h : ∀ item ∈ items, step item = .ok (test item)) : items.allM step = .ok (items.all test) := by
  induction items with
  | nil => rfl
  | cons item items ih =>
    rw [List.allM, h item List.mem_cons_self, List.all_cons]
    cases hitem : test item with
    | false => rfl
    | true => exact ih fun item hmem => h item (List.mem_cons_of_mem _ hmem)

end ExceptRules
