import Mathlib.Data.List.Basic

/-!
# Loops that read their items through a view

A step factors through a view when items with equal views make it do the same. A loop over such steps
then depends only on the views of its items.
-/

namespace LodeDB.View

variable {α β ν : Type*} {view : α → ν}

/-- Lists with equal views are related item by item. -/
theorem forall₂_of_view {rel : α → α → Prop} {items others : List α} (hviews : items.map view = others.map view)
    (hrel : ∀ item ∈ items, ∀ other ∈ others, view item = view other → rel item other) :
    List.Forall₂ rel items others := by
  induction items generalizing others with
  | nil =>
    cases others with
    | nil => exact .nil
    | cons => cases hviews
  | cons item rest ih =>
    cases others with
    | nil => cases hviews
    | cons other others =>
      rw [List.map_cons, List.map_cons, List.cons.injEq] at hviews
      refine .cons (hrel item List.mem_cons_self other List.mem_cons_self hviews.1) (ih hviews.2 ?_)
      intro item hitem other hother
      exact hrel item (List.mem_cons_of_mem _ hitem) other (List.mem_cons_of_mem _ hother)

/-- Lists with equal views have equal views item by item. -/
theorem forall₂_of_map_eq {items others : List α} (hviews : items.map view = others.map view) :
    List.Forall₂ (fun item other => view item = view other) items others :=
  forall₂_of_view hviews fun _ _ _ _ hview => hview

variable {items others : List α}

section

variable (hviews : items.map view = others.map view)

include hviews

/-- A map reads its items through the view. -/
theorem map_eq {f : α → β} (hstep : ∀ item other, view item = view other → f item = f other) :
    items.map f = others.map f := by
  have hitems := forall₂_of_map_eq hviews
  clear hviews
  induction hitems with
  | nil => rfl
  | cons hitem _ ih => rw [List.map_cons, List.map_cons, hstep _ _ hitem, ih]

/-- So does a map to lists. -/
theorem flatMap_eq {f : α → List β} (hstep : ∀ item other, view item = view other → f item = f other) :
    items.flatMap f = others.flatMap f := by
  rw [List.flatMap_def, List.flatMap_def, map_eq hviews hstep]

/-- A fold reads its items through the view. -/
theorem foldl_eq {f : β → α → β} (hstep : ∀ state item other, view item = view other → f state item = f state other)
    (start : β) : items.foldl f start = others.foldl f start := by
  have hitems := forall₂_of_map_eq hviews
  clear hviews
  induction hitems generalizing start with
  | nil => rfl
  | cons hitem _ ih => rw [List.foldl_cons, List.foldl_cons, hstep start _ _ hitem, ih]

/-- A loop of checks reads its items through the view. -/
theorem forM_eq {ε : Type*} {check : α → Except ε PUnit}
    (hstep : ∀ item other, view item = view other → check item = check other) :
    items.forM check = others.forM check := by
  have hitems := forall₂_of_map_eq hviews
  clear hviews
  induction hitems with
  | nil => rfl
  | cons hitem _ ih => simp only [List.forM, hstep _ _ hitem, ih]

end

end LodeDB.View
