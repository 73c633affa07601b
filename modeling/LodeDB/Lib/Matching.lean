import Mathlib.Data.List.Infix
import Mathlib.Data.Set.Basic

/-!
# Leftmost maximal matches

The matches of a pattern in a text, read from the left: the longest one at a position is taken and the
search goes on after it; where nothing matches, the next position is tried.
-/

namespace Matching

variable {α : Type*}

/-- The list of matches of a text. -/
inductive FindAll (pattern : Set (List α)) : List α → List (List α) → Prop
  | nil : FindAll pattern [] []
  | skip {first : α} {rest : List α} {found : List (List α)}
      (hnone : ∀ word ∈ pattern, ¬ word <+: first :: rest) (hrest : FindAll pattern rest found) :
      FindAll pattern (first :: rest) found
  | take {word rest : List α} {found : List (List α)} (hword : word ∈ pattern)
      (hlongest : ∀ longer ∈ pattern, longer <+: word ++ rest → longer.length ≤ word.length)
      (hrest : FindAll pattern rest found) : FindAll pattern (word ++ rest) (word :: found)

variable {pattern : Set (List α)} {text : List α} {found other : List (List α)}

/-- Every match is one of the pattern. -/
theorem FindAll.mem (h : FindAll pattern text found) : ∀ word ∈ found, word ∈ pattern := by
  induction h with
  | nil => simp
  | skip _ _ ih => exact ih
  | take hword _ _ ih =>
    intro other hother
    rcases List.mem_cons.mp hother with rfl | hother
    · exact hword
    · exact ih other hother

/-- A pattern that no empty word is in matches a text in one way. -/
theorem FindAll.unique (hempty : [] ∉ pattern) (h : FindAll pattern text found)
    (hother : FindAll pattern text other) : found = other := by
  induction h generalizing other with
  | nil =>
    generalize htext : [] = text at hother
    cases hother with
    | nil => rfl
    | skip => cases htext
    | take hword =>
      rw [(List.append_eq_nil_iff.mp htext.symm).1] at hword
      exact absurd hword hempty
  | @skip first rest found hnone _ ih =>
    generalize htext : first :: rest = text at hother
    cases hother with
    | nil => cases htext
    | skip _ hrest =>
      cases htext
      exact ih hrest
    | take hword => exact absurd (htext ▸ List.prefix_append _ _) (hnone _ hword)
  | @take word rest found hword hlongest _ ih =>
    generalize htext : word ++ rest = text at hother
    cases hother with
    | nil =>
      rw [(List.append_eq_nil_iff.mp htext).1] at hword
      exact absurd hword hempty
    | skip hnone => exact absurd (htext ▸ List.prefix_append word rest) (hnone word hword)
    | @take same after _ hsame hmax hrest =>
      have hle := hlongest same hsame (htext ▸ List.prefix_append same after)
      have hge := hmax word hword (htext ▸ List.prefix_append word rest)
      obtain ⟨rfl, rfl⟩ := List.append_inj htext (le_antisymm hge hle)
      rw [ih hrest]

end Matching
