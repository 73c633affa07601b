import Mathlib.Data.Set.Basic

/-!
# Families of members with an owner map

`Inverts members owner` says that a partial map from items to owners is the inverse of a relation from owners to
items, so every item has at most one owner. Replacing one owner's items, and dropping an owner, keep it when the
owner map is updated item by item.
-/

namespace InverseIndex

variable {κ ι : Type*}

/-- The owner map is the inverse of the membership relation. -/
def Inverts (members : κ → ι → Prop) (owner : ι → Option κ) : Prop :=
  ∀ item key, owner item = some key ↔ members key item

variable {members members' : κ → ι → Prop} {owner owner' : ι → Option κ} {key : κ}

section

variable (h : Inverts members owner)

include h

/-- An item has at most one owner. -/
theorem Inverts.unique {item : ι} {left right : κ} (hleft : members left item) (hright : members right item) :
    left = right :=
  Option.some.inj (((h item left).mpr hleft).symm.trans ((h item right).mpr hright))

/-- Only the lookups matter. -/
theorem Inverts.congr (hmembers : ∀ k item, members' k item ↔ members k item)
    (howner : ∀ item, owner' item = owner item) : Inverts members' owner' := by
  intro item k
  rw [howner, hmembers]
  exact h item k

/-- Dropping an owner: its items lose their owner, the others keep theirs. -/
theorem Inverts.remove (hmembers : ∀ k item, members' k item ↔ k ≠ key ∧ members k item)
    (howned : ∀ item, members key item → owner' item = none)
    (hother : ∀ item, ¬ members key item → owner' item = owner item) : Inverts members' owner' := by
  intro item k
  rw [hmembers]
  by_cases hitem : members key item
  · rw [howned item hitem]
    constructor
    · exact fun hnone => absurd hnone (by simp)
    · rintro ⟨hne, hk⟩
      exact absurd (h.unique hk hitem) hne
  · rw [hother item hitem, h item k]
    constructor
    · intro hk
      exact ⟨fun heq => hitem (heq ▸ hk), hk⟩
    · exact fun hk => hk.2

/-- Giving an owner new items, none of which another owner has: its other old items lose their owner. -/
theorem Inverts.replace (new : ι → Prop) (hfree : ∀ item k, new item → members k item → k = key)
    (hmembers : ∀ k item, members' k item ↔ (k = key ∧ new item) ∨ (k ≠ key ∧ members k item))
    (hnew : ∀ item, new item → owner' item = some key)
    (hdrop : ∀ item, ¬ new item → members key item → owner' item = none)
    (hkept : ∀ item, ¬ new item → ¬ members key item → owner' item = owner item) : Inverts members' owner' := by
  intro item k
  rw [hmembers]
  by_cases hitem : new item
  · rw [hnew item hitem, Option.some_inj]
    constructor
    · exact fun heq => .inl ⟨heq.symm, hitem⟩
    · rintro (⟨heq, -⟩ | ⟨hne, hk⟩)
      · exact heq.symm
      · exact absurd (hfree item k hitem hk) hne
  · by_cases hold : members key item
    · rw [hdrop item hitem hold]
      constructor
      · exact fun hnone => absurd hnone (by simp)
      · rintro (⟨-, habsurd⟩ | ⟨hne, hk⟩)
        · exact absurd habsurd hitem
        · exact absurd (h.unique hk hold) hne
    · rw [hkept item hitem hold, h item k]
      constructor
      · exact fun hk => .inr ⟨fun heq => hold (heq ▸ hk), hk⟩
      · rintro (⟨-, habsurd⟩ | ⟨-, hk⟩)
        · exact absurd habsurd hitem
        · exact hk

end

end InverseIndex
