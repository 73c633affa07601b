import LodeDB.Lexical.Renumber

/-!
# A mutated index is a rebuilt one

The surviving units of a sequence of mutations are a map from unit ids to tokens and groups. After
any sequence, the index equals one built from scratch over the surviving units in any order, up to
renumbering its positions, so every ranking is the same.
-/

namespace LodeDB.Lexical

open SortedSet TreeMapRules Nested

variable {unitId : String} {pos : ℕ} {unit : LexicalUnit}

/-- Units by id: their tokens and their group. -/
abbrev Units := Std.ExtTreeMap String (List String × String) compare

/-- A mutation of the index. -/
inductive Mutation
  | addUnit (unitId : String) (tokens : List String) (groupId : Option String)
  | removeUnit (unitId : String)
  | removeGroup (groupId : String)
  | replaceGroup (groupId : String) (units : List (String × List String))

/-- Carry out a mutation on the index. -/
def Bm25Index.mutate (index : Bm25Index) : Mutation → Bm25Index
  | .addUnit unitId tokens groupId => index.addUnit unitId tokens groupId
  | .removeUnit unitId => index.removeUnit unitId
  | .removeGroup groupId => index.removeGroup groupId
  | .replaceGroup groupId units => index.replaceGroup groupId units

/-- The units outside a group. -/
def Units.withoutGroup (units : Units) (groupId : String) : Units :=
  units.filter fun _ unit => unit.2 ≠ groupId

/-- What a mutation does to the units. -/
def Units.mutate (units : Units) : Mutation → Units
  | .addUnit unitId tokens groupId => units.insert unitId (tokens, groupId.getD unitId)
  | .removeUnit unitId => units.erase unitId
  | .removeGroup groupId => units.withoutGroup groupId
  | .replaceGroup groupId added =>
    writeAll (units.withoutGroup groupId) (added.map fun unit => (unit.1, unit.2, groupId))

/-- The units that survive a sequence of mutations of an empty index. -/
def survivors (mutations : List Mutation) : Units := mutations.foldl Units.mutate ∅

/-- The live units of an index are the given units. -/
def Stands (live : Live) (units : Units) : Prop :=
  ∀ (unitId : String) (tokens : List String) (groupId : String),
    units[unitId]? = some (tokens, groupId) ↔ ∃ pos : ℕ, live[pos]? = some ⟨unitId, tokens, groupId⟩

/-- An index over the given units. -/
def Tracks (index : Bm25Index) (units : Units) : Prop := ∃ live, Indexes index live ∧ Stands live units

variable {index : Bm25Index} {live : Live} {units : Units}

/-- A unit that is not indexed is not among the units. -/
theorem getElem?_of_posByUnitId_none (h : Indexes index live) (hstands : Stands live units)
    (hnone : index.posByUnitId[unitId]? = none) : units[unitId]? = none := by
  rcases Option.eq_none_or_eq_some units[unitId]? with h' | ⟨⟨tokens, groupId⟩, hunit⟩
  · exact h'
  · obtain ⟨pos, hpos⟩ := (hstands unitId tokens groupId).mp hunit
    have hfound := (h.posByUnitId unitId pos).mpr ⟨_, hpos, rfl⟩
    rw [hnone] at hfound
    cases hfound

/-- Removing the position of a unit removes the unit. -/
theorem Stands.erase (h : Indexes index live) (hstands : Stands live units) (hunit : live[pos]? = some unit) :
    Stands (live.erase pos) (units.erase unit.unitId) := by
  intro unitId tokens groupId
  rw [getElem?_erase]
  by_cases hid : unit.unitId = unitId
  · subst hid
    rw [if_pos rfl]
    constructor
    · intro hnone
      cases hnone
    · rintro ⟨other, hother⟩
      obtain ⟨hne, hother⟩ := of_getElem?_erase hother
      exact absurd (h.pos_unique hunit hother rfl) hne
  · rw [if_neg hid, hstands]
    refine exists_congr fun other => ?_
    rw [getElem?_erase]
    by_cases hpos : pos = other
    · subst hpos
      rw [if_pos rfl, hunit, Option.some_inj]
      constructor
      · intro heq
        exact absurd (by rw [heq]) hid
      · intro hnone
        cases hnone
    · rw [if_neg hpos]

/-- Appending a unit under a new id adds the unit. -/
theorem Stands.insert (hstands : Stands live units) (hfree : live[pos]? = none) (hnew : units[unit.unitId]? = none) :
    Stands (live.insert pos unit) (units.insert unit.unitId (unit.tokens, unit.groupId)) := by
  intro unitId tokens groupId
  rw [getElem?_insert]
  by_cases hid : unit.unitId = unitId
  · subst hid
    rw [if_pos rfl, Option.some_inj]
    constructor
    · intro heq
      obtain ⟨rfl, rfl⟩ := Prod.mk.inj heq
      exact ⟨pos, by rw [getElem?_insert, if_pos rfl]⟩
    · rintro ⟨other, hother⟩
      rcases of_getElem?_insert hother with ⟨_, hsame⟩ | hother
      · rw [hsame]
      · have hfound := (hstands unit.unitId tokens groupId).mpr ⟨other, hother⟩
        rw [hnew] at hfound
        cases hfound
  · rw [if_neg hid, hstands]
    refine exists_congr fun other => ?_
    rw [getElem?_insert]
    by_cases hpos : pos = other
    · subst hpos
      rw [if_pos rfl, hfree, Option.some_inj]
      constructor
      · intro hnone
        cases hnone
      · intro heq
        exact absurd (by rw [heq]) hid
    · rw [if_neg hpos]

theorem Tracks.removeUnit (h : Tracks index units) (unitId : String) :
    Tracks (index.removeUnit unitId) (units.erase unitId) := by
  obtain ⟨live, hidx, hstands⟩ := h
  rw [Bm25Index.removeUnit]
  rcases Option.eq_none_or_eq_some index.posByUnitId[unitId]? with hnone | ⟨pos, hpos⟩
  · rw [hnone, erase_eq_self units (getElem?_of_posByUnitId_none hidx hstands hnone)]
    exact ⟨live, hidx, hstands⟩
  · rw [hpos]
    obtain ⟨unit, hunit, rfl⟩ := (hidx.posByUnitId unitId pos).mp hpos
    exact ⟨_, hidx.removeAt hunit, hstands.erase hidx hunit⟩

/-- Appending a unit under a free id. -/
theorem Tracks.addAt (h : Tracks index units) (hnew : units[unitId]? = none) (tokens : List String) (groupId : String) :
    Tracks (index.addAt unitId tokens groupId) (units.insert unitId (tokens, groupId)) := by
  obtain ⟨live, hidx, hstands⟩ := h
  have hnone : index.posByUnitId[unitId]? = none := by
    rcases Option.eq_none_or_eq_some index.posByUnitId[unitId]? with hnone | ⟨pos, hpos⟩
    · exact hnone
    · obtain ⟨unit, hunit, rfl⟩ := (hidx.posByUnitId unitId pos).mp hpos
      have hfound := (hstands unit.unitId unit.tokens unit.groupId).mpr ⟨pos, hunit⟩
      rw [hnew] at hfound
      cases hfound
  have hunits : Stands (live.insert index.nextPos ⟨unitId, tokens, groupId⟩)
      (units.insert unitId (tokens, groupId)) := hstands.insert (hidx.fresh _ le_rfl) hnew
  exact ⟨_, hidx.addAt ⟨unitId, tokens, groupId⟩ hnone, hunits⟩

/-- Adding or replacing a unit. -/
theorem Tracks.addUnit (h : Tracks index units) (unitId : String) (tokens : List String) (groupId : Option String) :
    Tracks (index.addUnit unitId tokens groupId) (units.insert unitId (tokens, groupId.getD unitId)) := by
  have herased : (units.erase unitId)[unitId]? = none := by rw [getElem?_erase, if_pos rfl]
  have hsame : (units.erase unitId).insert unitId (tokens, groupId.getD unitId) =
      units.insert unitId (tokens, groupId.getD unitId) := by
    refine Std.ExtTreeMap.ext_getElem? fun other => ?_
    rw [getElem?_insert, getElem?_insert, getElem?_erase]
    split
    · rfl
    · rfl
  rw [Bm25Index.addUnit]
  split
  · rw [← hsame]
    exact (h.removeUnit unitId).addAt herased tokens _
  · rename_i habsent
    obtain ⟨live, hidx, hstands⟩ := h
    refine Tracks.addAt ⟨live, hidx, hstands⟩ ?_ tokens _
    refine getElem?_of_posByUnitId_none hidx hstands ?_
    rwa [← Option.not_isSome_iff_eq_none, Option.isSome_iff_exists, ← contains_iff]

/-- Removing live positions one after another. -/
theorem Indexes.foldl_removeAt (h : Indexes index live) {positions : List ℕ} (hnodup : positions.Nodup)
    (hlive : ∀ pos ∈ positions, ∃ unit, live[pos]? = some unit) :
    Indexes (positions.foldl Bm25Index.removeAt index) (eraseAll live positions) := by
  induction positions generalizing index live with
  | nil => exact h
  | cons pos rest ih =>
    obtain ⟨hpos, hrest⟩ := List.nodup_cons.mp hnodup
    obtain ⟨unit, hunit⟩ := hlive pos List.mem_cons_self
    refine ih (h.removeAt hunit) hrest fun other hother => ?_
    obtain ⟨found, hfound⟩ := hlive other (List.mem_cons_of_mem _ hother)
    refine ⟨found, ?_⟩
    have hne : pos ≠ other := fun heq => hpos (heq ▸ hother)
    rw [getElem?_erase, if_neg hne]
    exact hfound

theorem Tracks.removeGroup (h : Tracks index units) (groupId : String) :
    Tracks (index.removeGroup groupId) (units.withoutGroup groupId) := by
  obtain ⟨live, hidx, hstands⟩ := h
  have hgroup := hidx.positionsByGroup.member groupId
  have hfold : index.removeGroup groupId =
      (ascending (part index.positionsByGroup groupId)).foldl Bm25Index.removeAt index := by
    rw [Bm25Index.removeGroup, part]
    cases index.positionsByGroup[groupId]? <;> rfl
  refine ⟨eraseAll live (ascending (part index.positionsByGroup groupId)), ?_, ?_⟩
  · rw [hfold]
    refine hidx.foldl_removeAt (ascending_nodup _) fun pos hpos => ?_
    obtain ⟨unit, hunit, -⟩ := (hgroup pos).mp (mem_ascending.mp hpos)
    exact ⟨unit, hunit⟩
  · intro unitId tokens other
    have hfilter : (units.withoutGroup groupId)[unitId]? = some (tokens, other) ↔
        units[unitId]? = some (tokens, other) ∧ other ≠ groupId := by
      rw [Units.withoutGroup, Std.ExtTreeMap.getElem?_filter', Option.filter_eq_some_iff]
      simp
    rw [hfilter, hstands]
    constructor
    · rintro ⟨⟨pos, hpos⟩, hne⟩
      refine ⟨pos, ?_⟩
      rw [getElem?_eraseAll, if_neg, hpos]
      rw [mem_ascending, hgroup, hpos]
      rintro ⟨unit, heq, hsame⟩
      rw [← Option.some.inj heq] at hsame
      exact hne hsame
    · rintro ⟨pos, hpos⟩
      obtain ⟨hkept, hpos⟩ := of_getElem?_eraseAll hpos
      refine ⟨⟨pos, hpos⟩, fun hsame => hkept ?_⟩
      rw [mem_ascending, hgroup]
      exact ⟨_, hpos, hsame⟩

theorem Tracks.replaceGroup (h : Tracks index units) (groupId : String) (added : List (String × List String)) :
    Tracks (index.replaceGroup groupId added)
      (writeAll (units.withoutGroup groupId) (added.map fun unit => (unit.1, unit.2, groupId))) := by
  rw [Bm25Index.replaceGroup]
  have hstart := h.removeGroup groupId
  revert hstart
  generalize index.removeGroup groupId = start
  generalize units.withoutGroup groupId = kept
  intro hstart
  induction added generalizing start kept with
  | nil => exact hstart
  | cons unit rest ih => exact ih _ _ (hstart.addUnit unit.1 unit.2 (some groupId))

/-- A mutation keeps the index over the units it leaves. -/
theorem Tracks.mutate (h : Tracks index units) (mutation : Mutation) :
    Tracks (index.mutate mutation) (units.mutate mutation) := by
  cases mutation with
  | addUnit unitId tokens groupId => exact h.addUnit unitId tokens groupId
  | removeUnit unitId => exact h.removeUnit unitId
  | removeGroup groupId => exact h.removeGroup groupId
  | replaceGroup groupId added => exact h.replaceGroup groupId added

theorem Tracks.empty : Tracks Bm25Index.empty ∅ := ⟨∅, Indexes.empty, by simp [Stands]⟩

/-- After any sequence of mutations the index is over the surviving units. -/
theorem tracks_survivors (mutations : List Mutation) :
    Tracks (mutations.foldl Bm25Index.mutate Bm25Index.empty) (survivors mutations) := by
  have hrun : ∀ (index : Bm25Index) (units : Units), Tracks index units →
      Tracks (mutations.foldl Bm25Index.mutate index) (mutations.foldl Units.mutate units) := by
    induction mutations with
    | nil => exact fun _ _ h => h
    | cons mutation rest ih => exact fun _ _ h => ih _ _ (h.mutate mutation)
  exact hrun _ _ Tracks.empty

/-- Building from listed units appends them one after another. -/
theorem fromTokenLists_eq (listing : List (String × List String × String)) :
    Bm25Index.fromTokenLists (listing.map (·.1)) (listing.map (·.2.1)) (some (listing.map (·.2.2))) =
      .ok (listing.foldl (fun index unit => index.addAt unit.1 unit.2.1 unit.2.2) Bm25Index.empty) := by
  have hzip : ((listing.map (·.1)).zip (listing.map (·.2.1))).zipIdx =
      listing.zipIdx.map fun unit => ((unit.1.1, unit.1.2.1), unit.2) := by
    rw [List.zip_map', List.zipIdx_map]
    rfl
  have hfold : listing.zipIdx.foldl (fun index unit => Bm25Index.addAt index unit.1.1 unit.1.2.1
        ((listing.map (·.2.2))[unit.2]?.getD unit.1.1)) Bm25Index.empty =
      listing.foldl (fun index unit => index.addAt unit.1 unit.2.1 unit.2.2) Bm25Index.empty := by
    conv_rhs => rw [← List.zipIdx_map_fst 0 listing, List.foldl_map]
    refine List.foldl_ext _ _ _ fun index unit hunit => ?_
    have hgroup : (listing.map (·.2.2))[unit.2]? = some unit.1.2.2 := by
      rw [List.getElem?_map, List.mk_mem_zipIdx_iff_getElem?.mp hunit]
      rfl
    rw [hgroup, Option.getD_some]
  rw [Bm25Index.fromTokenLists, if_neg (by simp), if_neg (by simp), hzip, List.foldl_map]
  exact congrArg Except.ok hfold

/-- An index built from listed units with distinct ids is over those units. -/
theorem tracks_listing {listing : List (String × List String × String)} (hlisting : listing.Perm units.toList) :
    Tracks (listing.foldl (fun index unit => index.addAt unit.1 unit.2.1 unit.2.2) Bm25Index.empty) units := by
  have hnodup : (listing.map Prod.fst).Nodup := by
    rw [(hlisting.map Prod.fst).nodup_iff, Std.ExtTreeMap.map_fst_toList_eq_keys]
    exact keys_nodup units
  have hrun : ∀ (index : Bm25Index) (start : Units), Tracks index start → (∀ unit ∈ listing, start[unit.1]? = none) →
      Tracks (listing.foldl (fun index unit => index.addAt unit.1 unit.2.1 unit.2.2) index)
        (writeAll start listing) := by
    clear hlisting
    induction listing with
    | nil => exact fun _ _ h _ => h
    | cons unit rest ih =>
      intro index start h hnew
      rw [List.map_cons, List.nodup_cons] at hnodup
      refine ih hnodup.2 _ _ (h.addAt (hnew unit List.mem_cons_self) unit.2.1 unit.2.2) fun other hother => ?_
      have hne : unit.1 ≠ other.1 := fun heq => hnodup.1 (heq ▸ List.mem_map_of_mem hother)
      rw [getElem?_insert, if_neg hne]
      exact hnew other (List.mem_cons_of_mem _ hother)
  have hwr : writeAll ∅ listing = units := by
    refine Std.ExtTreeMap.ext_getElem? fun unitId => Option.ext fun unit => ?_
    have hmem : (unitId, unit) ∈ listing ↔ units[unitId]? = some unit := by
      rw [hlisting.mem_iff, Std.ExtTreeMap.mem_toList_iff_getElem?_eq_some]
    constructor
    · intro hfound
      rcases mem_or_of_getElem?_writeAll hfound with hlist | hempty
      · exact hmem.mp hlist
      · simp at hempty
    · intro hunit
      exact getElem?_writeAll_of_mem ∅ listing hnodup (hmem.mpr hunit)
  rw [← hwr]
  exact hrun _ _ Tracks.empty (by simp)

/-- Two indexes over the same units are equal up to renumbering. -/
theorem Tracks.renumbered {other : Bm25Index} (h : Tracks index units) (hother : Tracks other units) :
    ∃ rename : ℕ → ℕ, Function.Injective rename ∧
      other = { index.renumber rename with nextPos := other.nextPos } := by
  obtain ⟨live, hidx, hstands⟩ := h
  obtain ⟨live', hindexes', hstands'⟩ := hother
  let rename : ℕ → ℕ := fun pos =>
    match live[pos]? with
    | some unit => other.posByUnitId[unit.unitId]?.getD 0
    | none => other.nextPos + pos
  have hrename : ∀ pos unit, live[pos]? = some unit → live'[rename pos]? = some unit := by
    intro pos unit hunit
    obtain ⟨pos', hpos'⟩ := (hstands' unit.unitId unit.tokens unit.groupId).mp
      ((hstands unit.unitId unit.tokens unit.groupId).mpr ⟨pos, hunit⟩)
    have hfound := (hindexes'.posByUnitId unit.unitId pos').mpr ⟨unit, hpos', rfl⟩
    have heq : rename pos = pos' := by
      simp only [rename, hunit, hfound, Option.getD_some]
    rw [heq]
    exact hpos'
  have hbelow : ∀ pos unit, live[pos]? = some unit → rename pos < other.nextPos := by
    intro pos unit hunit
    by_contra hpast
    have hnone := hindexes'.fresh (rename pos) (not_lt.mp hpast)
    rw [hrename pos unit hunit] at hnone
    cases hnone
  have hdead : ∀ pos, live[pos]? = none → rename pos = other.nextPos + pos := by
    intro pos hpos
    simp only [rename, hpos]
  have hinj : Function.Injective rename := by
    intro left right heq
    rcases Option.eq_none_or_eq_some live[left]? with hleft | ⟨leftUnit, hleft⟩
    · rcases Option.eq_none_or_eq_some live[right]? with hright | ⟨rightUnit, hright⟩
      · rw [hdead left hleft, hdead right hright] at heq
        omega
      · have hlt := hbelow right rightUnit hright
        rw [← heq, hdead left hleft] at hlt
        omega
    · rcases Option.eq_none_or_eq_some live[right]? with hright | ⟨rightUnit, hright⟩
      · have hlt := hbelow left leftUnit hleft
        rw [heq, hdead right hright] at hlt
        omega
      · have hsame := hrename left leftUnit hleft
        rw [heq, hrename right rightUnit hright, Option.some_inj] at hsame
        exact hidx.pos_unique hleft hright (by rw [hsame])
  have hlive : renameKeys rename live = live' := by
    refine Std.ExtTreeMap.ext_getElem? fun pos => Option.ext fun unit => ?_
    constructor
    · intro hfound
      obtain ⟨old, rfl, hold⟩ := exists_of_getElem?_renameKeys hfound
      exact hrename old unit hold
    · intro hfound
      obtain ⟨old, hold⟩ := (hstands unit.unitId unit.tokens unit.groupId).mp
        ((hstands' unit.unitId unit.tokens unit.groupId).mpr ⟨pos, hfound⟩)
      have heq : rename old = pos := hindexes'.pos_unique (hrename old unit hold) hfound rfl
      rw [← heq, getElem?_renameKeys hinj]
      exact hold
  have hrenumbered := hidx.renumber hinj hbelow
  rw [hlive] at hrenumbered
  exact ⟨rename, hinj, hrenumbered.unique hindexes'⟩

/-- Rankings do not read the next position. -/
theorem rank_with_nextPos {S : Type*} [AddCommMonoid S] [LinearOrder S] (scoring : Scoring S) (next : ℕ)
    (P : Primitives) (query : String) (limit : Option ℕ) (allowed : Option (Finset ℕ)) :
    ({ index with nextPos := next } : Bm25Index).rank scoring P query limit allowed =
      index.rank scoring P query limit allowed := by
  match limit with
  | none => rfl
  | some 0 => rfl
  | some (k + 1) => rfl

/-- After any sequence of mutations, an index built from scratch over the surviving units, listed in
any order, is the mutated index up to renumbering its positions, and every ranking is the same. -/
theorem mutated_eq_rebuilt (mutations : List Mutation) (listing : List (String × List String × String))
    (hlisting : listing.Perm (survivors mutations).toList) :
    let index := mutations.foldl Bm25Index.mutate Bm25Index.empty
    ∃ scratch rename,
      Bm25Index.fromTokenLists (listing.map (·.1)) (listing.map (·.2.1)) (some (listing.map (·.2.2))) = .ok scratch ∧
        Function.Injective rename ∧
        scratch = { index.renumber rename with nextPos := scratch.nextPos } ∧
        ∀ {S : Type} [AddCommMonoid S] [LinearOrder S] [IsOrderedAddMonoid S] (scoring : Scoring S)
          (P : Primitives) (query : String) (limit : Option ℕ) (allowed : Option (Finset ℕ)),
          scratch.rank scoring P query limit (allowed.map fun positions => positions.image rename) =
            index.rank scoring P query limit allowed := by
  intro index
  obtain ⟨rename, hinjective, hscratch⟩ := (tracks_survivors mutations).renumbered (tracks_listing hlisting)
  refine ⟨_, rename, fromTokenLists_eq listing, hinjective, hscratch, ?_⟩
  intro S _ _ _ scoring P query limit allowed
  rw [hscratch]
  exact (rank_with_nextPos scoring _ P query limit _).trans
    (Bm25Index.rank_renumber scoring hinjective P query limit allowed)

/-- A replaced group, a unit moved to another group and a removed unit. -/
theorem mutated_eq_rebuilt_three :
    let mutations := [Mutation.replaceGroup "d" [("d:0", ["x", "y", "x"]), ("d:1", ["y"])],
      .addUnit "d:0" ["z"] (some "e"), .removeUnit "d:1"]
    let index := mutations.foldl Bm25Index.mutate Bm25Index.empty
    ∃ scratch rename, Bm25Index.fromTokenLists ["d:0"] [["z"]] (some ["e"]) = .ok scratch ∧
        Function.Injective rename ∧
        scratch = { index.renumber rename with nextPos := scratch.nextPos } := by
  intro mutations index
  obtain ⟨scratch, rename, hscratch, hinjective, heq, -⟩ :=
    mutated_eq_rebuilt mutations [("d:0", ["z"], "e")] (by decide +kernel)
  exact ⟨scratch, rename, hscratch, hinjective, heq⟩

end LodeDB.Lexical
