import Mathlib.Data.Finset.Card
import Mathlib.Data.List.Nodup
import Std.Data.ExtTreeMap

/-!
# Ordered maps read through their lookups

Lookups of the standard library's extensional tree maps, with key equality in place of a
comparison, and the batch updates an engine makes: erasing a list of keys and writing a list of
entries, the last entry of a key winning.
-/

namespace TreeMapRules

open Std (ExtTreeMap)

variable {κ V : Type*} {cmp : κ → κ → Ordering} [Std.TransCmp cmp]

variable {W : Type*} {key : κ} {rename : κ → κ}

variable {f : V → W} {image : ExtTreeMap κ W cmp} (map : ExtTreeMap κ V cmp)

/-- A key is present exactly when its lookup succeeds. -/
theorem contains_iff (key : κ) :
    map.contains key = true ↔ ∃ value, map[key]? = some value := by
  rw [ExtTreeMap.contains_eq_isSome_getElem?, Option.isSome_iff_exists]

/-- Remove a list of keys. -/
def eraseAll (keys : List κ) : ExtTreeMap κ V cmp :=
  keys.foldl (fun map key => map.erase key) map

theorem eraseAll_append (left right : List κ) :
    eraseAll map (left ++ right) = eraseAll (eraseAll map left) right := List.foldl_append

/-- Write a list of entries. -/
def writeAll (entries : List (κ × V)) : ExtTreeMap κ V cmp :=
  entries.foldl (fun map entry => map.insert entry.1 entry.2) map

theorem writeAll_cons (entry : κ × V) (entries : List (κ × V)) :
    writeAll map (entry :: entries) = writeAll (map.insert entry.1 entry.2) entries := rfl

variable [Std.LawfulEqCmp cmp]

/-- The keys of a map are distinct. -/
theorem keys_nodup : map.keys.Nodup := by
  refine map.distinct_keys.imp ?_
  intro left right hne heq
  exact hne (Std.LawfulEqCmp.compare_eq_iff_eq.mpr heq)

theorem toList_nodup : map.toList.Nodup := by
  have hnodup := keys_nodup map
  rw [← ExtTreeMap.map_fst_toList_eq_keys] at hnodup
  exact hnodup.of_map _

/-- What a partial function makes of a map's entries, each under its key, has distinct keys. -/
theorem nodup_map_filterMap_toList {f : κ × V → Option W} {key : W → κ}
    (hkey : ∀ entry made, f entry = some made → key made = entry.1) : ((map.toList.filterMap f).map key).Nodup := by
  have hkeys := keys_nodup map
  rw [← ExtTreeMap.map_fst_toList_eq_keys, List.Nodup, List.pairwise_map] at hkeys
  rw [List.Nodup, List.pairwise_map, List.pairwise_filterMap]
  refine hkeys.imp ?_
  intro left right hne madeLeft hleft madeRight hright
  rw [hkey left madeLeft hleft, hkey right madeRight hright]
  exact hne

variable [DecidableEq κ]

/-- A lookup after one write. -/
theorem getElem?_insert (key other : κ) (value : V) :
    (map.insert key value)[other]? = if key = other then some value else map[other]? := by
  simp only [ExtTreeMap.getElem?_insert, Std.LawfulEqCmp.compare_eq_iff_eq]

/-- A lookup after one removal. -/
theorem getElem?_erase (key other : κ) :
    (map.erase key)[other]? = if key = other then none else map[other]? := by
  simp only [ExtTreeMap.getElem?_erase, Std.LawfulEqCmp.compare_eq_iff_eq]

/-- The entries after one write: the new one, and the others of the map. -/
theorem toList_insert_perm (key : κ) (value : V) :
    (map.insert key value).toList.Perm ((key, value) :: map.toList.filter fun entry => entry.1 ≠ key) := by
  refine (List.perm_ext_iff_of_nodup (toList_nodup _) ?_).mpr fun entry => ?_
  · exact List.nodup_cons.mpr ⟨by simp, (toList_nodup map).filter _⟩
  · rw [ExtTreeMap.mem_toList_iff_getElem?_eq_some, getElem?_insert, List.mem_cons, List.mem_filter,
      ExtTreeMap.mem_toList_iff_getElem?_eq_some, decide_eq_true_eq]
    by_cases hkey : key = entry.1
    · rw [if_pos hkey, Option.some_inj]
      constructor
      · intro hvalue
        exact .inl (Prod.ext hkey.symm hvalue.symm)
      · rintro (rfl | ⟨-, hne⟩)
        · rfl
        · exact absurd hkey.symm hne
    · rw [if_neg hkey]
      constructor
      · exact fun hfound => .inr ⟨hfound, Ne.symm hkey⟩
      · rintro (rfl | ⟨hfound, -⟩)
        · exact absurd rfl hkey
        · exact hfound

variable {map}

/-- What a map holds after a write was written or was there before. -/
theorem of_getElem?_insert {value : V} {other : κ} {found : V} (h : (map.insert key value)[other]? = some found) :
    (key = other ∧ value = found) ∨ map[other]? = some found := by
  rw [getElem?_insert] at h
  split at h
  · exact .inl ⟨‹_›, Option.some.inj h⟩
  · exact .inr h

/-- What a map holds after a removal was there before, under another key. -/
theorem of_getElem?_erase {other : κ} {found : V} (h : (map.erase key)[other]? = some found) :
    key ≠ other ∧ map[other]? = some found := by
  rw [getElem?_erase] at h
  split at h
  · cases h
  · exact ⟨‹_›, h⟩

/-- A map that holds an image of each value of another, after the same write to both. -/
theorem getElem?_insert_map (h : ∀ key : κ, image[key]? = map[key]?.map f) (key : κ) (value : V) (other : κ) :
    (image.insert key (f value))[other]? = (map.insert key value)[other]?.map f := by
  rw [getElem?_insert, getElem?_insert, h]
  split
  · rfl
  · rfl

/-- A map that holds an image of each value of another, after the same removal from both. -/
theorem getElem?_erase_map (h : ∀ key : κ, image[key]? = map[key]?.map f) (key other : κ) :
    (image.erase key)[other]? = (map.erase key)[other]?.map f := by
  rw [getElem?_erase, getElem?_erase, h]
  split
  · rfl
  · rfl

variable (map)

/-- Removing a key that is not there. -/
theorem erase_eq_self (hnone : map[key]? = none) : map.erase key = map := by
  apply ExtTreeMap.ext_getElem?
  intro other
  rw [getElem?_erase]
  split
  · rename_i heq
    rw [← heq, hnone]
  · rfl

/-- The keys of a map. -/
def keySet : Finset κ := map.keys.toFinset

variable {map} in
@[simp] theorem mem_keySet : key ∈ keySet map ↔ ∃ value, map[key]? = some value := by
  rw [keySet, List.mem_toFinset, ExtTreeMap.mem_keys, ExtTreeMap.mem_iff_isSome_getElem?,
    Option.isSome_iff_exists]

@[simp] theorem keySet_empty : keySet (∅ : ExtTreeMap κ V cmp) = ∅ := by
  ext key
  simp

theorem keySet_insert (key : κ) (value : V) :
    keySet (map.insert key value) = insert key (keySet map) := by
  ext other
  simp only [mem_keySet, getElem?_insert, Finset.mem_insert]
  by_cases hkey : key = other
  · simp [hkey]
  · simp [hkey, Ne.symm hkey]

theorem keySet_erase (key : κ) : keySet (map.erase key) = (keySet map).erase key := by
  ext other
  simp only [mem_keySet, getElem?_erase, Finset.mem_erase]
  by_cases hkey : key = other
  · simp [hkey]
  · simp [hkey, Ne.symm hkey]

/-- A map without keys is empty. -/
theorem eq_empty_of_keySet (hkeys : keySet map = ∅) : map = ∅ := by
  apply ExtTreeMap.ext_getElem?
  intro key
  have hnot : key ∉ keySet map := by simp [hkeys]
  rw [mem_keySet, ← Option.isSome_iff_exists, Bool.not_eq_true, Option.isSome_eq_false_iff,
    Option.isNone_iff_eq_none] at hnot
  rw [hnot, ExtTreeMap.getElem?_empty]

/-- The number of entries is the number of keys. -/
theorem size_eq_card : map.size = (keySet map).card := by
  rw [keySet, List.toFinset_card_of_nodup (keys_nodup map), ExtTreeMap.length_keys]

theorem getElem?_eraseAll (keys : List κ) (other : κ) :
    (eraseAll map keys)[other]? = if other ∈ keys then none else map[other]? := by
  induction keys generalizing map with
  | nil => simp [eraseAll]
  | cons key keys ih =>
    have hstep : eraseAll map (key :: keys) = eraseAll (map.erase key) keys := rfl
    rw [hstep, ih, getElem?_erase]
    by_cases hmem : other ∈ keys
    · simp [hmem]
    · simp [hmem, eq_comm]

variable {map} in
theorem of_getElem?_eraseAll {keys : List κ} {value : V} (h : (eraseAll map keys)[key]? = some value) :
    key ∉ keys ∧ map[key]? = some value := by
  rw [getElem?_eraseAll] at h
  split at h
  · cases h
  · exact ⟨‹_›, h⟩

theorem keySet_eraseAll (keys : List κ) :
    keySet (eraseAll map keys) = keySet map \ keys.toFinset := by
  ext other
  simp only [mem_keySet, getElem?_eraseAll, Finset.mem_sdiff, List.mem_toFinset]
  by_cases hmem : other ∈ keys <;> simp [hmem]

theorem getElem?_writeAll_of_notMem (entries : List (κ × V)) (other : κ)
    (hother : other ∉ entries.map Prod.fst) : (writeAll map entries)[other]? = map[other]? := by
  induction entries generalizing map with
  | nil => rfl
  | cons entry entries ih =>
    rw [List.map_cons, List.mem_cons, not_or] at hother
    rw [writeAll_cons, ih _ hother.2, getElem?_insert, if_neg (Ne.symm hother.1)]

variable {entries : List (κ × V)} {value : V}

/-- A key that is written is found with one of the values written to it. -/
theorem exists_mem_of_getElem?_writeAll (hkey : key ∈ entries.map Prod.fst) :
    ∃ value, (writeAll map entries)[key]? = some value ∧ (key, value) ∈ entries := by
  induction entries generalizing map with
  | nil => cases hkey
  | cons entry entries ih =>
    rw [writeAll_cons]
    by_cases hlater : key ∈ entries.map Prod.fst
    · obtain ⟨value, hfound, hmem⟩ := ih (map.insert entry.1 entry.2) hlater
      exact ⟨value, hfound, List.mem_cons_of_mem _ hmem⟩
    · rw [List.map_cons, List.mem_cons, or_iff_left hlater] at hkey
      refine ⟨entry.2, ?_, by simp [hkey]⟩
      rw [getElem?_writeAll_of_notMem _ _ _ hlater, getElem?_insert, if_pos hkey.symm]

theorem getElem?_writeAll_of_mem (entries : List (κ × V))
    (hnodup : (entries.map Prod.fst).Nodup) {entry : κ × V} (hentry : entry ∈ entries) :
    (writeAll map entries)[entry.1]? = some entry.2 := by
  obtain ⟨value, hfound, hmem⟩ := exists_mem_of_getElem?_writeAll map (List.mem_map_of_mem hentry)
  rw [hfound, ← List.inj_on_of_nodup_map hnodup hmem hentry rfl]

variable {map} in
/-- What a map holds after a write was written or was there before. -/
theorem mem_or_of_getElem?_writeAll (h : (writeAll map entries)[key]? = some value) :
    (key, value) ∈ entries ∨ map[key]? = some value := by
  by_cases hkey : key ∈ entries.map Prod.fst
  · obtain ⟨found, hfound, hmem⟩ := exists_mem_of_getElem?_writeAll map hkey
    exact .inl (Option.some.inj (hfound.symm.trans h) ▸ hmem)
  · rw [getElem?_writeAll_of_notMem _ _ _ hkey] at h
    exact .inr h

/-- Writing one value under a list of keys. -/
theorem getElem?_writeAll_const (keys : List κ) (value : V) (other : κ) :
    (writeAll map (keys.map fun key => (key, value)))[other]? = if other ∈ keys then some value else map[other]? := by
  split
  · rename_i hkey
    have hwr : other ∈ (keys.map fun key => (key, value)).map Prod.fst := by simpa using hkey
    obtain ⟨found, hfound, hmem⟩ := exists_mem_of_getElem?_writeAll map hwr
    simp_all
  · rename_i hkey
    exact getElem?_writeAll_of_notMem _ _ _ (by simpa using hkey)

theorem keySet_writeAll (entries : List (κ × V)) :
    keySet (writeAll map entries) = keySet map ∪ (entries.map Prod.fst).toFinset := by
  induction entries generalizing map with
  | nil => simp [writeAll]
  | cons entry entries ih =>
    rw [writeAll_cons, ih, keySet_insert]
    ext other
    simp only [Finset.mem_union, Finset.mem_insert, List.map_cons, List.toFinset_cons]
    tauto

variable {map}

/-- A delta that erases only what goes or is rewritten, writes what the target has, and names every key that differs,
turns a map into the target. -/
theorem writeAll_eraseAll_eq {target : ExtTreeMap κ V cmp} {erased : List κ}
    (hents : ∀ entry ∈ entries, target[entry.1]? = some entry.2)
    (herased : ∀ key ∈ erased, key ∈ entries.map Prod.fst ∨ target[key]? = none)
    (hcover : ∀ key, map[key]? ≠ target[key]? → key ∈ entries.map Prod.fst ∨ key ∈ erased) :
    writeAll (eraseAll map erased) entries = target := by
  apply ExtTreeMap.ext_getElem?
  intro key
  by_cases hwr : key ∈ entries.map Prod.fst
  · obtain ⟨value, hfound, hmem⟩ := exists_mem_of_getElem?_writeAll (eraseAll map erased) hwr
    rw [hfound, hents _ hmem]
  · rw [getElem?_writeAll_of_notMem _ _ _ hwr, getElem?_eraseAll]
    split
    · rename_i hmem
      exact ((herased key hmem).resolve_left hwr).symm
    · rename_i hkept
      by_contra hdiffers
      exact (hcover key hdiffers).elim hwr hkept

/-- Entries written under new names are found there. -/
theorem getElem?_writeAll_rename {source : ExtTreeMap κ V cmp} (hinj : Function.Injective rename)
    (hnone : map[rename key]? = none) :
    (writeAll map (source.toList.map fun entry => (rename entry.1, entry.2)))[rename key]? = source[key]? := by
  cases hsource : source[key]? with
  | none =>
    rw [← hnone]
    refine getElem?_writeAll_of_notMem _ _ _ ?_
    simp only [List.map_map, List.mem_map, Function.comp_apply, not_exists, not_and]
    intro entry hentry hrename
    have hfound := ExtTreeMap.mem_toList_iff_getElem?_eq_some.mp hentry
    rw [hinj hrename, hsource] at hfound
    cases hfound
  | some value =>
    have hkeys := keys_nodup source
    rw [← ExtTreeMap.map_fst_toList_eq_keys] at hkeys
    have hnodup : ((source.toList.map fun entry => (rename entry.1, entry.2)).map Prod.fst).Nodup := by
      have hmapped := hkeys.map hinj
      rwa [List.map_map] at hmapped ⊢
    have hentry : (key, value) ∈ source.toList := ExtTreeMap.mem_toList_iff_getElem?_eq_some.mpr hsource
    exact getElem?_writeAll_of_mem map _ hnodup (List.mem_map_of_mem hentry)

/-- The entries of a map under new keys. -/
def renameKeys (rename : κ → κ) (map : ExtTreeMap κ V cmp) : ExtTreeMap κ V cmp :=
  writeAll ∅ (map.toList.map fun entry => (rename entry.1, entry.2))

theorem getElem?_renameKeys (hinj : Function.Injective rename) (map : ExtTreeMap κ V cmp) (key : κ) :
    (renameKeys rename map)[rename key]? = map[key]? :=
  getElem?_writeAll_rename hinj (by simp)

/-- Every key of a renamed map is the new name of an old key. -/
theorem exists_of_getElem?_renameKeys (h : (renameKeys rename map)[key]? = some value) :
    ∃ old, rename old = key ∧ map[old]? = some value := by
  rcases mem_or_of_getElem?_writeAll h with hmem | hempty
  · obtain ⟨entry, hentry, heq⟩ := List.mem_map.mp hmem
    obtain ⟨rfl, rfl⟩ := Prod.mk.inj heq
    exact ⟨entry.1, rfl, ExtTreeMap.mem_toList_iff_getElem?_eq_some.mp hentry⟩
  · simp at hempty

theorem getElem?_renameKeys_of_ne (map : ExtTreeMap κ V cmp) (hkey : ∀ old, rename old ≠ key) :
    (renameKeys rename map)[key]? = none := by
  rcases Option.eq_none_or_eq_some (renameKeys rename map)[key]? with hnone | ⟨value, hvalue⟩
  · exact hnone
  · obtain ⟨old, hold, -⟩ := exists_of_getElem?_renameKeys hvalue
    exact absurd hold (hkey old)

/-- A map with an image of each value of another, after renaming the keys of both. -/
theorem getElem?_renameKeys_map (h : ∀ key : κ, image[key]? = map[key]?.map f)
    (hinj : Function.Injective rename) (key : κ) :
    (renameKeys rename image)[key]? = (renameKeys rename map)[key]?.map f := by
  by_cases hkey : ∃ old, rename old = key
  · obtain ⟨old, rfl⟩ := hkey
    rw [getElem?_renameKeys hinj, getElem?_renameKeys hinj, h]
  · have hne : ∀ old, rename old ≠ key := fun old hold => hkey ⟨old, hold⟩
    rw [getElem?_renameKeys_of_ne image hne, getElem?_renameKeys_of_ne map hne]
    rfl

theorem keySet_renameKeys (rename : κ → κ) (map : ExtTreeMap κ V cmp) :
    keySet (renameKeys rename map) = (keySet map).image rename := by
  rw [renameKeys, keySet_writeAll, keySet_empty, Finset.empty_union, List.map_map]
  ext key
  simp only [List.mem_toFinset, List.mem_map, Function.comp_apply, Finset.mem_image, mem_keySet]
  constructor
  · rintro ⟨entry, hentry, rfl⟩
    exact ⟨entry.1, ⟨entry.2, ExtTreeMap.mem_toList_iff_getElem?_eq_some.mp hentry⟩, rfl⟩
  · rintro ⟨old, ⟨value, hvalue⟩, rfl⟩
    exact ⟨(old, value), ExtTreeMap.mem_toList_iff_getElem?_eq_some.mpr hvalue, rfl⟩

theorem size_renameKeys (hinj : Function.Injective rename) (map : ExtTreeMap κ V cmp) :
    (renameKeys rename map).size = map.size := by
  rw [size_eq_card, size_eq_card, keySet_renameKeys, Finset.card_image_of_injective _ hinj]

/-- The entries of a renamed map are the renamed entries, in some order. -/
theorem toList_renameKeys_perm (hinj : Function.Injective rename) (map : ExtTreeMap κ V cmp) :
    (renameKeys rename map).toList.Perm (map.toList.map fun entry => (rename entry.1, entry.2)) := by
  have hrenamed : (map.toList.map fun entry => (rename entry.1, entry.2)).Nodup := by
    refine (toList_nodup map).map fun left right heq => ?_
    obtain ⟨hkey, hvalue⟩ := Prod.mk.inj heq
    exact Prod.ext (hinj hkey) hvalue
  rw [List.perm_ext_iff_of_nodup (toList_nodup _) hrenamed]
  rintro ⟨key, value⟩
  rw [ExtTreeMap.mem_toList_iff_getElem?_eq_some, List.mem_map]
  constructor
  · intro h
    obtain ⟨old, rfl, hold⟩ := exists_of_getElem?_renameKeys h
    exact ⟨(old, value), ExtTreeMap.mem_toList_iff_getElem?_eq_some.mpr hold, rfl⟩
  · rintro ⟨entry, hentry, heq⟩
    obtain ⟨rfl, rfl⟩ := Prod.mk.inj heq
    rw [getElem?_renameKeys hinj]
    exact ExtTreeMap.mem_toList_iff_getElem?_eq_some.mp hentry

section Updates

variable (map) (updates : List (κ × (Option V → V)))

/-- Update the values of a list of keys, each from what the map holds for it so far. -/
def updateAll : ExtTreeMap κ V cmp :=
  updates.foldl (fun map update => map.insert update.1 (update.2 map[update.1]?)) map

omit [Std.LawfulEqCmp cmp] [DecidableEq κ] in
theorem updateAll_cons (update : κ × (Option V → V)) :
    updateAll map (update :: updates) = updateAll (map.insert update.1 (update.2 map[update.1]?)) updates := rfl

theorem getElem?_updateAll_of_notMem (other : κ) (hother : other ∉ updates.map Prod.fst) :
    (updateAll map updates)[other]? = map[other]? := by
  induction updates generalizing map with
  | nil => rfl
  | cons update updates ih =>
    rw [List.map_cons, List.mem_cons, not_or] at hother
    rw [updateAll_cons, ih _ hother.2, getElem?_insert, if_neg (Ne.symm hother.1)]

/-- A key updated once holds its update of the old value. -/
theorem getElem?_updateAll_of_mem (hnodup : (updates.map Prod.fst).Nodup) {update : κ × (Option V → V)}
    (hupd : update ∈ updates) :
    (updateAll map updates)[update.1]? = some (update.2 map[update.1]?) := by
  induction updates generalizing map with
  | nil => cases hupd
  | cons first updates ih =>
    rw [List.map_cons, List.nodup_cons] at hnodup
    rw [updateAll_cons]
    rcases List.mem_cons.mp hupd with rfl | hupd
    · rw [getElem?_updateAll_of_notMem _ _ _ hnodup.1, getElem?_insert, if_pos rfl]
    · have hne : first.1 ≠ update.1 := fun heq => hnodup.1 (heq ▸ List.mem_map_of_mem hupd)
      rw [ih _ hnodup.2 hupd, getElem?_insert, if_neg hne]

end Updates

/-- The values a partial function gives to the entries of a map. -/
def collect {W : Type*} (choose : κ → V → Option W) (map : ExtTreeMap κ V cmp) : ExtTreeMap κ W cmp :=
  writeAll ∅ (map.toList.filterMap fun entry => (choose entry.1 entry.2).map fun value => (entry.1, value))

theorem getElem?_collect (choose : κ → V → Option W) (map : ExtTreeMap κ V cmp) (key : κ) :
    (collect choose map)[key]? = map[key]?.bind (choose key) := by
  have hread : ∀ value, (collect choose map)[key]? = some value ↔ map[key]?.bind (choose key) = some value := by
    intro value
    constructor
    · intro hfound
      rcases mem_or_of_getElem?_writeAll hfound with hmem | hempty
      · obtain ⟨⟨entryKey, stored⟩, hentry, hchosen⟩ := List.mem_filterMap.mp hmem
        obtain ⟨chosen, hchoose, heq⟩ := Option.map_eq_some_iff.mp hchosen
        cases heq
        rw [ExtTreeMap.mem_toList_iff_getElem?_eq_some.mp hentry]
        exact hchoose
      · simp at hempty
    · intro hbound
      obtain ⟨stored, hsto, hchoose⟩ := Option.bind_eq_some_iff.mp hbound
      have hentry : (key, value) ∈ map.toList.filterMap fun entry =>
          (choose entry.1 entry.2).map fun value => (entry.1, value) :=
        List.mem_filterMap.mpr ⟨(key, stored), ExtTreeMap.mem_toList_iff_getElem?_eq_some.mpr hsto,
          by rw [hchoose]; rfl⟩
      refine getElem?_writeAll_of_mem ∅ _ (nodup_map_filterMap_toList map ?_) hentry
      intro entry made hmade
      obtain ⟨_, -, rfl⟩ := Option.map_eq_some_iff.mp hmade
      rfl
  exact Option.ext hread

end TreeMapRules
