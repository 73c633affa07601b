import Mathlib.Data.List.Nodup

/-!
# First and last occurrences

Ways to make a list duplicate-free: keep the first occurrence of each value, visit the first
element of each key with its position, or keep the last element of each key.
-/

namespace Occurrence

variable {α κ : Type*}

variable {seen : List κ} {position : ℕ} {values : List α}

/-- Keeping first occurrences leaves no duplicate. -/
theorem nodup_eraseDups [BEq α] [LawfulBEq α] (values : List α) : values.eraseDups.Nodup := by
  cases values with
  | nil => exact List.nodup_nil
  | cons value rest =>
    rw [List.eraseDups_cons, List.nodup_cons]
    exact ⟨by simp [List.mem_eraseDups], nodup_eraseDups _⟩
termination_by values.length
decreasing_by exact Nat.lt_succ_of_le (List.length_filter_le _ _)

variable [DecidableEq κ] (key : α → κ)

/-- The first element of each unseen key, with its position: what a loop visits that passes over the keys it has
recorded. -/
def firstVisits (seen : List κ) (position : ℕ) : List α → List (α × ℕ)
  | [] => []
  | value :: rest =>
    if key value ∈ seen then firstVisits seen (position + 1) rest
    else (value, position) :: firstVisits (key value :: seen) (position + 1) rest

/-- The keys visited are those that occur and had not been seen. -/
theorem mem_map_firstVisits {k : κ} :
    k ∈ (firstVisits key seen position values).map (fun visit => key visit.1) ↔ k ∈ values.map key ∧ k ∉ seen := by
  induction values generalizing seen position with
  | nil => simp [firstVisits]
  | cons value rest ih =>
    rw [firstVisits, List.map_cons, List.mem_cons]
    split
    · rename_i hseen
      rw [ih]
      constructor
      · exact fun h => ⟨.inr h.1, h.2⟩
      · rintro ⟨rfl | h, hnot⟩
        · exact absurd hseen hnot
        · exact ⟨h, hnot⟩
    · rename_i hnew
      rw [List.map_cons, List.mem_cons, ih, List.mem_cons, not_or]
      constructor
      · rintro (rfl | ⟨h, -, hnot⟩)
        · exact ⟨.inl rfl, hnew⟩
        · exact ⟨.inr h, hnot⟩
      · rintro ⟨rfl | h, hnot⟩
        · exact .inl rfl
        · by_cases heq : k = key value
          · exact .inl heq
          · exact .inr ⟨h, heq, hnot⟩

/-- No key is visited twice. -/
theorem nodup_map_firstVisits (seen : List κ) (position : ℕ) (values : List α) :
    ((firstVisits key seen position values).map fun visit => key visit.1).Nodup := by
  induction values generalizing seen position with
  | nil => exact List.nodup_nil
  | cons value rest ih =>
    rw [firstVisits]
    split
    · exact ih seen (position + 1)
    · rw [List.map_cons, List.nodup_cons, mem_map_firstVisits]
      exact ⟨fun h => h.2 List.mem_cons_self, ih _ _⟩

/-- A visit stands at the first position of its key. -/
theorem snd_of_mem_firstVisits {visit : α × ℕ} (h : visit ∈ firstVisits key seen position values) :
    visit.2 = position + (values.map key).idxOf (key visit.1) := by
  induction values generalizing seen position with
  | nil => cases h
  | cons value rest ih =>
    have hlater : ∀ seen', key value ∈ seen' → visit ∈ firstVisits key seen' (position + 1) rest →
        visit.2 = position + ((value :: rest).map key).idxOf (key visit.1) := by
      intro seen' hvalue hvisit
      have hnew := ((mem_map_firstVisits key).mp (List.mem_map_of_mem hvisit)).2
      have hne : key value ≠ key visit.1 := fun heq => hnew (heq ▸ hvalue)
      rw [ih hvisit, List.map_cons, List.idxOf_cons_ne _ hne]
      omega
    rw [firstVisits] at h
    split at h
    · rename_i hseen
      exact hlater seen hseen h
    · rcases List.mem_cons.mp h with rfl | h
      · simp
      · exact hlater _ List.mem_cons_self h

/-- The last element of each key, in order. -/
def keepLast : List α → List α
  | [] => []
  | value :: rest =>
    if key value ∈ rest.map key then keepLast rest else value :: keepLast rest

theorem keepLast_subset (values : List α) : keepLast key values ⊆ values := by
  induction values with
  | nil => simp [keepLast]
  | cons value rest ih =>
    rw [keepLast]
    split
    · exact List.subset_cons_of_subset _ ih
    · exact List.cons_subset_cons _ ih

/-- Every key survives. -/
theorem mem_map_keepLast (values : List α) (k : κ) : k ∈ (keepLast key values).map key ↔ k ∈ values.map key := by
  induction values with
  | nil => simp [keepLast]
  | cons value rest ih =>
    rw [keepLast]
    split
    · rename_i hrepeated
      rw [ih, List.map_cons, List.mem_cons]
      exact ⟨Or.inr, fun h => h.elim (fun heq => heq ▸ hrepeated) fun h => h⟩
    · rw [List.map_cons, List.map_cons, List.mem_cons, List.mem_cons, ih]

/-- No key survives twice. -/
theorem nodup_map_keepLast (values : List α) : ((keepLast key values).map key).Nodup := by
  induction values with
  | nil => simp [keepLast]
  | cons value rest ih =>
    rw [keepLast]
    split
    · exact ih
    · rename_i hfresh
      rw [List.map_cons, List.nodup_cons]
      exact ⟨fun h => hfresh ((mem_map_keepLast key rest _).mp h), ih⟩

end Occurrence
