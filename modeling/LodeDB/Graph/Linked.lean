import LodeDB.Graph.Topology

/-!
# The tables stay linked

The link table repeats the episode lists of the facts, and the version table repeats the snapshots of
the entities; different statements keep each of them. `Linked` says that they agree. Every transaction
keeps it, and opening a linked store changes nothing.
-/

namespace LodeDB.Graph

open TreeMapRules ExceptRules

variable {closed committed inserted topology : Topology} {versions : List EntityPropertyVersion}
  {sources : Table String} {expiredAt recordedAt : TimeMs} {entity : Entity} {vector : Option Embedding}
  {fact newFact : Fact} {id : String} {state : Topology × List String} {rest : List Fact}
  {invalidAt : Option TimeMs} {priors : List Prior} {records : List FactIndexRecord}

namespace Topology

/-- The value a property has in the snapshot of its entity. -/
def snapshotValue (topology : Topology) (entityId key : String) : Option Value :=
  topology.entities[entityId]?.bind fun entity => (propertyObject entity.properties)[key]?

/-- The values of the versions of a property that are not expired. -/
def currentValues (versions : List EntityPropertyVersion) (entityId key : String) : List Value :=
  (versions.filter (isCurrent entityId key)).map EntityPropertyVersion.value

/-- Rows stored under their ids, as the primary keys have it. -/
structure Keyed (topology : Topology) : Prop where
  entityIds : ∀ {id : String} {entity : Entity}, topology.entities[id]? = some entity → entity.id = id
  factIds : ∀ {id : String} {fact : Fact}, topology.facts[id]? = some fact → fact.id = id

/-- The tables agree with one another. -/
structure Linked (topology : Topology) : Prop where
  entityIds : ∀ {id : String} {entity : Entity}, topology.entities[id]? = some entity → entity.id = id
  factIds : ∀ {id : String} {fact : Fact}, topology.facts[id]? = some fact → fact.id = id
  endpoints : ∀ {id : String} {fact : Fact}, topology.facts[id]? = some fact →
    fact.src ∈ keySet topology.entities ∧ fact.dst ∈ keySet topology.entities
  links : ∀ id episode, (id, episode) ∈ topology.factEpisodes ↔
    ∃ fact, topology.facts[id]? = some fact ∧ episode ∈ fact.episodes
  listed : ∀ {id : String} {fact : Fact}, topology.facts[id]? = some fact → ∀ episode ∈ fact.episodes,
    episode ∈ keySet topology.episodes
  versions : ∀ entityId key,
    currentValues topology.propertyVersions entityId key = (topology.snapshotValue entityId key).toList

theorem Linked.keyed (h : Linked topology) : Keyed topology := ⟨h.entityIds, h.factIds⟩

theorem linked_empty : Linked Topology.empty := by
  constructor <;> simp [Topology.empty, currentValues, snapshotValue]

/-! ### Episodes and entities -/

theorem Linked.upsertEpisodeWithMentions (h : Linked topology) {episode : Episode} {entityIds : List String}
    (hcmt : topology.upsertEpisodeWithMentions episode entityIds = .ok committed) : Linked committed := by
  simp only [Topology.upsertEpisodeWithMentions, bind_eq_ok, Except.ok.injEq] at hcmt
  obtain ⟨_, _, rfl⟩ := hcmt
  refine ⟨h.entityIds, h.factIds, h.endpoints, h.links, ?_, h.versions⟩
  intro id fact hfact listed hlist
  rw [keySet_insert]
  exact Finset.mem_insert_of_mem (h.listed hfact listed hlist)

theorem currentValues_append (left right : List EntityPropertyVersion) (entityId key : String) :
    currentValues (left ++ right) entityId key = currentValues left entityId key ++ currentValues right entityId key := by
  simp [currentValues]

/-- Closing the current version of a property leaves it without one, and the others alone. -/
theorem currentValues_closeVersions (entityId key : String) (newValidAt : Option TimeMs) (recordedAt : TimeMs)
    (versions : List EntityPropertyVersion) (otherEntity otherKey : String) :
    currentValues (closeVersions entityId key newValidAt recordedAt versions) otherEntity otherKey =
      if entityId = otherEntity ∧ key = otherKey then [] else currentValues versions otherEntity otherKey := by
  induction versions with
  | nil => simp [currentValues, closeVersions]
  | cons version versions ih =>
    unfold currentValues closeVersions at ih ⊢
    rw [List.map_cons]
    by_cases hclosed : isCurrent entityId key version = true
    · rw [if_pos hclosed, List.filter_cons_of_neg (by simp [isCurrent]), ih]
      split
      · rfl
      · rename_i hother
        have hnot : ¬ isCurrent otherEntity otherKey version = true := by
          simp only [isCurrent, Bool.and_eq_true, beq_iff_eq] at hclosed ⊢
          rintro ⟨⟨rfl, rfl⟩, _⟩
          exact hother ⟨hclosed.1.1.symm, hclosed.1.2.symm⟩
        rw [List.filter_cons_of_neg hnot]
    · rw [if_neg hclosed]
      by_cases hother : isCurrent otherEntity otherKey version = true
      · have hapart : ¬ (entityId = otherEntity ∧ key = otherKey) := by
          rintro ⟨rfl, rfl⟩
          exact hclosed hother
        rw [if_neg hapart] at ih ⊢
        rw [List.filter_cons_of_pos hother, List.filter_cons_of_pos hother, List.map_cons, List.map_cons, ih]
      · rw [List.filter_cons_of_neg hother, List.filter_cons_of_neg hother, ih]

/-- Versioning one changed property gives it the new value, and leaves the others alone. -/
theorem currentValues_syncProperty (entityId : String) (old new : Table Value) (sources : Table String)
    (newValidAt : Option TimeMs) (recordedAt : TimeMs) (versions : List EntityPropertyVersion) (key : String)
    (otherEntity otherKey : String) :
    currentValues (syncProperty entityId old new sources newValidAt recordedAt versions key) otherEntity otherKey =
      if entityId = otherEntity ∧ key = otherKey ∧ old[key]? ≠ new[key]? then new[key]?.toList
      else currentValues versions otherEntity otherKey := by
  unfold syncProperty
  split
  · rename_i hsame
    simp [hsame]
  · rename_i hchg
    rw [currentValues_append, currentValues_closeVersions]
    have hnew : currentValues (new[key]?.map fun value =>
        newVersion entityId key value sources newValidAt recordedAt).toList otherEntity otherKey =
        if entityId = otherEntity ∧ key = otherKey then new[key]?.toList else [] := by
      cases new[key]? with
      | none => simp [currentValues]
      | some value =>
        by_cases hthis : entityId = otherEntity ∧ key = otherKey
        · simp [currentValues, isCurrent, newVersion, hthis]
        · have hnot : isCurrent otherEntity otherKey (newVersion entityId key value sources newValidAt recordedAt) = false := by
            simpa [isCurrent, newVersion] using hthis
          simp [currentValues, hnot, hthis]
    rw [hnew]
    by_cases hthis : entityId = otherEntity ∧ key = otherKey
    · rw [if_pos hthis, if_pos hthis, List.nil_append, if_pos ⟨hthis.1, hthis.2, hchg⟩]
    · rw [if_neg hthis, if_neg hthis, List.append_nil, if_neg fun h => hthis ⟨h.1, h.2.1⟩]

/-- Versioning a list of properties gives those that change their new value. -/
theorem currentValues_syncAll (entityId : String) (old new : Table Value) (sources : Table String)
    (newValidAt : Option TimeMs) (recordedAt : TimeMs) (keys : List String) (versions : List EntityPropertyVersion)
    (otherEntity otherKey : String) :
    currentValues (keys.foldl (syncProperty entityId old new sources newValidAt recordedAt) versions)
        otherEntity otherKey =
      if entityId = otherEntity ∧ otherKey ∈ keys ∧ old[otherKey]? ≠ new[otherKey]? then new[otherKey]?.toList
      else currentValues versions otherEntity otherKey := by
  induction keys generalizing versions with
  | nil => simp
  | cons key keys ih =>
    rw [List.foldl_cons, ih, currentValues_syncProperty]
    by_cases hlater : entityId = otherEntity ∧ otherKey ∈ keys ∧ old[otherKey]? ≠ new[otherKey]?
    · rw [if_pos hlater, if_pos ⟨hlater.1, List.mem_cons_of_mem _ hlater.2.1, hlater.2.2⟩]
    · rw [if_neg hlater]
      by_cases hthis : entityId = otherEntity ∧ key = otherKey ∧ old[key]? ≠ new[key]?
      · obtain ⟨rfl, rfl, hchg⟩ := hthis
        rw [if_pos ⟨rfl, rfl, hchg⟩, if_pos ⟨rfl, List.mem_cons_self, hchg⟩]
      · rw [if_neg hthis, if_neg]
        rintro ⟨hent, hmem, hchg⟩
        rcases List.mem_cons.mp hmem with rfl | hmem
        · exact hthis ⟨hent, rfl, hchg⟩
        · exact hlater ⟨hent, hmem, hchg⟩

@[simp] theorem propertyObject_canonicalProperties (properties : Value) :
    propertyObject (canonicalProperties properties) = propertyObject properties := by
  cases properties <;> rfl

/-- Versioning the properties of an entity turns its old values into the new ones. -/
theorem currentValues_syncPropertyVersions {synced : List EntityPropertyVersion} {entityId : String}
    {existing : Option Value} {properties : Value} {newValidAt : Option TimeMs}
    (hsync : syncPropertyVersions versions entityId existing properties sources newValidAt recordedAt = .ok synced)
    (hold : ∀ key, currentValues versions entityId key = (propertyObject (existing.getD .null))[key]?.toList)
    (otherEntity key : String) :
    currentValues synced otherEntity key =
      if entityId = otherEntity then (propertyObject properties)[key]?.toList
      else currentValues versions otherEntity key := by
  simp only [syncPropertyVersions, bind_eq_ok, Except.ok.injEq] at hsync
  obtain ⟨_, _, rfl⟩ := hsync
  rw [currentValues_syncAll]
  by_cases hent : entityId = otherEntity
  · subst hent
    rw [if_pos rfl, hold]
    by_cases hchg : (propertyObject (existing.getD .null))[key]? = (propertyObject properties)[key]?
    · simp [hchg]
    · have hkey : key ∈ keySet (writeAll (propertyObject (existing.getD .null)) (propertyObject properties).toList) := by
        rw [keySet_writeAll, Std.ExtTreeMap.map_fst_toList_eq_keys, Finset.mem_union]
        cases hnew : (propertyObject properties)[key]? with
        | some value => exact .inr (mem_keySet.mpr ⟨value, hnew⟩)
        | none =>
          rw [hnew] at hchg
          exact .inl (mem_keySet.mpr (Option.ne_none_iff_exists'.mp hchg))
      rw [keySet, List.mem_toFinset] at hkey
      rw [if_pos ⟨rfl, hkey, hchg⟩]
  · rw [if_neg hent, if_neg fun h => hent h.1]

theorem Linked.upsertEntityWithLineage (h : Linked topology)
    (hcmt : topology.upsertEntityWithLineage entity vector sources recordedAt = .ok committed) :
    Linked committed := by
  simp only [Topology.upsertEntityWithLineage, bind_eq_ok, Except.ok.injEq] at hcmt
  obtain ⟨_, _, versions, hvers, rfl⟩ := hcmt
  refine ⟨?_, h.factIds, ?_, h.links, h.listed, ?_⟩
  · intro id stored hsto
    rcases of_getElem?_insert hsto with ⟨hid, rfl⟩ | hsto
    · exact hid
    · exact h.entityIds hsto
  · intro id fact hfact
    obtain ⟨hsrc, hdst⟩ := h.endpoints hfact
    simp only [keySet_insert, Finset.mem_insert]
    exact ⟨.inr hsrc, .inr hdst⟩
  · intro entityId key
    have hold : ∀ key, currentValues topology.propertyVersions entity.id key =
        (propertyObject ((topology.entities[entity.id]?.map Entity.properties).getD .null))[key]?.toList := by
      intro key
      rw [h.versions, snapshotValue]
      cases topology.entities[entity.id]? with
      | none => simp [propertyObject, writeAll, Value.asObject]
      | some stored => rfl
    rw [currentValues_syncPropertyVersions hvers hold, h.versions]
    simp only [snapshotValue, getElem?_insert]
    split
    · simp
    · rfl

/-! ### Removals -/

/-- The versions of a deleted entity are gone, those of the others stay. -/
theorem currentValues_deleted (versions : List EntityPropertyVersion) (id entityId key : String) :
    currentValues (versions.filter fun version => version.entityId ≠ id) entityId key =
      if id = entityId then [] else currentValues versions entityId key := by
  unfold currentValues
  rw [List.filter_filter]
  split
  · rename_i hid
    subst hid
    rw [List.map_eq_nil_iff, List.filter_eq_nil_iff]
    intro version _ hcur
    simp only [isCurrent, Bool.and_eq_true, beq_iff_eq, decide_eq_true_eq] at hcur
    exact hcur.2 hcur.1.1.1
  · rename_i hid
    refine congrArg (List.map _) (List.filter_congr fun version _ => ?_)
    by_cases hthis : version.entityId = entityId
    · simp [hthis, Ne.symm hid]
    · simp [isCurrent, hthis]

/-- Deleting facts erases them, with their links. -/
theorem foldl_deleteFact (ids : List String) (topology : Topology) :
    ids.foldl deleteFact topology = { topology with
      facts := eraseAll topology.facts ids
      factEpisodes := topology.factEpisodes.filter fun link => link.1 ∉ ids
      factVectors := eraseAll topology.factVectors ids } := by
  induction ids generalizing topology with
  | nil => simp [eraseAll]
  | cons id ids ih =>
    rw [List.foldl_cons, ih]
    simp only [deleteFact, eraseAll, List.foldl_cons, Finset.filter_filter, List.mem_cons, not_or]

section

variable (h : Linked topology)

include h

/-- Tables whose facts are from before, with the same ends, perhaps with fewer episodes. -/
theorem Linked.ofFacts {facts : Table Fact} {links : Finset (String × String)} (vectors : Table Embedding)
    (hrow : ∀ {id : String} {fact : Fact}, facts[id]? = some fact → ∃ before, topology.facts[id]? = some before ∧
      before.id = fact.id ∧ before.src = fact.src ∧ before.dst = fact.dst ∧ fact.episodes ⊆ before.episodes)
    (hlinks : ∀ id episode, (id, episode) ∈ links ↔ ∃ fact, facts[id]? = some fact ∧ episode ∈ fact.episodes) :
    Linked { topology with facts := facts, factEpisodes := links, factVectors := vectors } where
  entityIds := h.entityIds
  factIds hfact := by
    obtain ⟨before, hbefore, hid, _⟩ := hrow hfact
    exact hid ▸ h.factIds hbefore
  endpoints hfact := by
    obtain ⟨before, hbefore, _, hsrc, hdst, _⟩ := hrow hfact
    exact hsrc ▸ hdst ▸ h.endpoints hbefore
  links := hlinks
  listed hfact episode hep := by
    obtain ⟨before, hbefore, _, _, _, heps⟩ := hrow hfact
    exact h.listed hbefore episode (heps hep)
  versions := h.versions

/-- Deleting facts keeps the tables linked. -/
theorem Linked.deleteFacts (ids : List String) : Linked (ids.foldl deleteFact topology) := by
  rw [foldl_deleteFact]
  refine h.ofFacts _ ?_ ?_
  · intro id fact hfact
    exact ⟨fact, (of_getElem?_eraseAll hfact).2, rfl, rfl, rfl, List.Subset.refl _⟩
  · intro id episode
    simp only [Finset.mem_filter, h.links, getElem?_eraseAll]
    by_cases hid : id ∈ ids
    · simp [hid]
    · simp [hid]

theorem Linked.removeEntity (id : String) : Linked (topology.removeEntity id).1 := by
  unfold Topology.removeEntity
  generalize hrem : (topology.facts.toList.filter fun entry => touches id entry.2).map Prod.fst = removed
  have hdel : Linked (removed.foldl deleteFact topology) := h.deleteFacts removed
  have huntouched {other : String} {fact : Fact}
      (hfact : (removed.foldl deleteFact topology).facts[other]? = some fact) : touches id fact = false := by
    rw [foldl_deleteFact] at hfact
    obtain ⟨hkept, hfact⟩ := of_getElem?_eraseAll hfact
    by_contra htouches
    refine hkept ?_
    rw [← hrem]
    exact List.mem_map.mpr ⟨(other, fact), List.mem_filter.mpr
      ⟨Std.ExtTreeMap.mem_toList_iff_getElem?_eq_some.mpr hfact, by simpa using htouches⟩, rfl⟩
  refine ⟨?_, hdel.factIds, ?_, hdel.links, hdel.listed, ?_⟩
  · intro other entity hent
    exact hdel.entityIds (of_getElem?_erase hent).2
  · intro other fact hfact
    have hfree := huntouched hfact
    simp only [touches, Bool.or_eq_false_iff, beq_eq_false_iff_ne] at hfree
    obtain ⟨hsrc, hdst⟩ := hdel.endpoints hfact
    simp only [deleteEntity, keySet_erase, Finset.mem_erase]
    exact ⟨⟨hfree.1, hsrc⟩, hfree.2, hdst⟩
  · intro entityId key
    have hvers := hdel.versions entityId key
    rw [snapshotValue] at hvers ⊢
    simp only [deleteEntity, currentValues_deleted, getElem?_erase]
    split
    · rfl
    · exact hvers

theorem Linked.removeFact (id : String) :
    Linked (topology.removeFact id).1 := h.deleteFacts [id]

/-- A fact that loses an episode loses the link to it. -/
theorem Linked.unlink (hfact : topology.facts[fact.id]? = some fact) (id : String) :
    Linked (topology.unlink fact id) := by
  refine h.ofFacts _ ?_ ?_
  · intro other stored hsto
    rw [getElem?_amend] at hsto
    split at hsto
    · rename_i hid
      subst hid
      rw [hfact] at hsto
      obtain rfl := Option.some.inj hsto
      exact ⟨fact, hfact, rfl, rfl, rfl, List.filter_subset_self _⟩
    · exact ⟨stored, hsto, rfl, rfl, rfl, List.Subset.refl _⟩
  · intro other episode
    simp only [Finset.mem_erase, h.links, getElem?_amend, ne_eq, Prod.mk.injEq, not_and]
    by_cases hid : fact.id = other
    · subst hid
      simp [hfact]
      tauto
    · simp [hid, Ne.symm hid]

end

/-- An episode being removed: the facts to roll back are stored as read, and no other fact lists it. -/
structure RollingBack (id : String) (topology : Topology) (rest : List Fact) : Prop where
  linked : Linked topology
  distinct : (rest.map Fact.id).Nodup
  stored : ∀ fact ∈ rest, topology.facts[fact.id]? = some fact
  listing : ∀ (other : String) (fact : Fact), topology.facts[other]? = some fact → id ∈ fact.episodes → fact ∈ rest

theorem rollingBack_linkedFacts (h : Linked topology) (id : String) :
    RollingBack id topology (topology.linkedFacts id) := by
  have hmem {fact : Fact} (hfact : fact ∈ topology.linkedFacts id) : topology.facts[fact.id]? = some fact := by
    simp only [linkedFacts, List.mem_map, List.mem_filter] at hfact
    obtain ⟨entry, ⟨hentry, _⟩, rfl⟩ := hfact
    have hsto := Std.ExtTreeMap.mem_toList_iff_getElem?_eq_some.mp hentry
    rwa [h.factIds hsto]
  refine ⟨h, ?_, fun fact hfact => hmem hfact, ?_⟩
  · have hids : (topology.linkedFacts id).map Fact.id =
        (topology.facts.toList.filter fun entry => (entry.1, id) ∈ topology.factEpisodes).map Prod.fst := by
      rw [linkedFacts, List.map_map]
      refine List.map_congr_left fun entry hentry => ?_
      exact h.factIds (Std.ExtTreeMap.mem_toList_iff_getElem?_eq_some.mp (List.mem_of_mem_filter hentry))
    have hkeys := keys_nodup topology.facts
    rw [← Std.ExtTreeMap.map_fst_toList_eq_keys] at hkeys
    rw [hids]
    exact hkeys.sublist (List.filter_sublist.map Prod.fst)
  · intro other fact hfact hlists
    refine List.mem_map.mpr ⟨(other, fact), List.mem_filter.mpr ⟨?_, ?_⟩, rfl⟩
    · exact Std.ExtTreeMap.mem_toList_iff_getElem?_eq_some.mpr hfact
    · simpa using (h.links other id).mpr ⟨fact, hfact, hlists⟩

/-- What rolling back one fact leaves of the others. -/
theorem getElem?_rollBack {other : String} (hother : fact.id ≠ other) :
    (rollBack id state fact).1.facts[other]? = state.1.facts[other]? := by
  unfold rollBack
  split
  · simp [deleteFact, getElem?_erase, hother]
  · simp [unlink, getElem?_amend, hother]

/-- A fact that was rolled back does not list the episode. -/
theorem not_lists_rollBack {stored : Fact} (hfact : state.1.facts[fact.id]? = some fact)
    (hsto : (rollBack id state fact).1.facts[fact.id]? = some stored) : id ∉ stored.episodes := by
  unfold rollBack at hsto
  split at hsto
  · simp [deleteFact] at hsto
  · simp only [unlink, getElem?_amend, if_true, hfact, Option.map_some, Option.some.injEq] at hsto
    rw [← hsto]
    simp

theorem RollingBack.step (h : RollingBack id state.1 (fact :: rest)) :
    RollingBack id (rollBack id state fact).1 rest := by
  have hfact := h.stored fact List.mem_cons_self
  obtain ⟨hfresh, hdist⟩ := List.nodup_cons.mp h.distinct
  have hapart {other : Fact} (hother : other ∈ rest) : fact.id ≠ other.id := by
    intro hid
    exact hfresh (hid ▸ List.mem_map_of_mem hother)
  refine ⟨?_, hdist, ?_, ?_⟩
  · unfold rollBack
    split
    · exact h.linked.deleteFacts [fact.id]
    · exact h.linked.unlink hfact id
  · intro other hother
    rw [getElem?_rollBack (hapart hother)]
    exact h.stored other (List.mem_cons_of_mem _ hother)
  · intro other stored hsto hlists
    by_cases hid : fact.id = other
    · subst hid
      exact absurd hlists (not_lists_rollBack hfact hsto)
    · rw [getElem?_rollBack hid] at hsto
      rcases List.mem_cons.mp (h.listing other stored hsto hlists) with rfl | hrest
      · exact absurd (h.linked.factIds hsto) hid
      · exact hrest

theorem RollingBack.run (h : RollingBack id state.1 rest) : RollingBack id (rest.foldl (rollBack id) state).1 [] := by
  induction rest generalizing state with
  | nil => exact h
  | cons fact rest ih => exact ih h.step

/-- Clearing the episode of versions changes no value. -/
theorem currentValues_cleared (versions : List EntityPropertyVersion) (id entityId key : String) :
    currentValues (versions.map fun version =>
      if version.episodeId = some id then { version with episodeId := none } else version) entityId key =
      currentValues versions entityId key := by
  induction versions with
  | nil => rfl
  | cons version versions ih =>
    have hcur : isCurrent entityId key
        (if version.episodeId = some id then { version with episodeId := none } else version) =
        isCurrent entityId key version := by
      split <;> rfl
    unfold currentValues at ih ⊢
    rw [List.map_cons, List.filter_cons, List.filter_cons, hcur]
    split
    · rw [List.map_cons, List.map_cons, ih]
      split <;> rfl
    · exact ih

theorem Linked.removeEpisode (h : Linked topology) (id : String) : Linked (topology.removeEpisode id).1 := by
  unfold Topology.removeEpisode
  split
  · have hrolled : RollingBack id ((topology.linkedFacts id).foldl (rollBack id) (topology, [])).1 [] :=
      (rollingBack_linkedFacts h id).run
    dsimp only
    generalize ((topology.linkedFacts id).foldl (rollBack id) (topology, [])).1 = rolledBack at hrolled
    have hfree {other : String} {fact : Fact} (hfact : rolledBack.facts[other]? = some fact) : id ∉ fact.episodes := by
      intro hlists
      cases hrolled.listing other fact hfact hlists
    obtain ⟨hlinked, _, _, _⟩ := hrolled
    refine ⟨hlinked.entityIds, hlinked.factIds, hlinked.endpoints, ?_, ?_, ?_⟩
    · intro other episode
      simp only [deleteEpisode, Finset.mem_filter, hlinked.links]
      refine ⟨fun hlink => hlink.1, ?_⟩
      rintro ⟨fact, hfact, hep⟩
      refine ⟨⟨fact, hfact, hep⟩, ?_⟩
      rintro rfl
      exact hfree hfact hep
    · intro other fact hfact episode hep
      simp only [deleteEpisode, keySet_erase, Finset.mem_erase]
      refine ⟨?_, hlinked.listed hfact episode hep⟩
      rintro rfl
      exact hfree hfact hep
    · intro entityId key
      simp only [deleteEpisode, currentValues_cleared]
      exact hlinked.versions entityId key
  · exact h

/-! ### Facts -/

/-- What closing a fact does to the tables. -/
theorem closeLive_eq_some :
    topology.closeLive id invalidAt expiredAt = some closed ↔
      ∃ fact, topology.facts[id]? = some fact ∧ fact.expiredAt = none ∧ closed = { topology with
          facts := topology.facts.insert id { fact with invalidAt := invalidAt, expiredAt := some expiredAt } } := by
  unfold closeLive
  cases topology.facts[id]? with
  | none => simp
  | some fact =>
    by_cases hlive : fact.expiredAt = none
    · simp [hlive, eq_comm]
    · simp [hlive]

theorem Linked.closeLive (h : Linked topology)
    (hclosed : topology.closeLive id invalidAt expiredAt = some closed) : Linked closed := by
  obtain ⟨fact, hfact, _, rfl⟩ := closeLive_eq_some.mp hclosed
  refine h.ofFacts _ ?_ ?_
  · intro other stored hsto
    rcases of_getElem?_insert hsto with ⟨rfl, rfl⟩ | hsto
    · exact ⟨fact, hfact, rfl, rfl, rfl, List.Subset.refl _⟩
    · exact ⟨stored, hsto, rfl, rfl, rfl, List.Subset.refl _⟩
  · intro other episode
    rw [h.links, getElem?_insert]
    split
    · rename_i hid
      subst hid
      simp [hfact]
    · rfl

theorem Linked.closeFact (h : Linked topology) (id : String) (invalidAt : Option TimeMs) (expiredAt : TimeMs) :
    Linked (topology.closeFact id invalidAt expiredAt).1 := by
  unfold Topology.closeFact
  split
  · exact h.closeLive ‹_›
  · exact h

/-- Closing facts one after another, each of which was live. -/
theorem closePrior_eq_ok {prior : Prior} :
    topology.closePrior prior = .ok closed ↔
      topology.closeLive prior.id prior.invalidAt prior.expiredAt = some closed := by
  unfold closePrior
  cases topology.closeLive prior.id prior.invalidAt prior.expiredAt <;> simp

/-- What each closing keeps, closing the facts a new fact replaces keeps. -/
theorem closePriors_induction {P : Topology → Prop} (hclosed : priors.foldlM closePrior topology = .ok closed)
    (hstart : P topology) (hstep : ∀ prior ∈ priors, ∀ before after : Topology, P before →
      before.closeLive prior.id prior.invalidAt prior.expiredAt = some after → P after) : P closed := by
  induction priors generalizing topology with
  | nil =>
    obtain rfl := Except.ok.inj hclosed
    exact hstart
  | cons prior priors ih =>
    simp only [List.foldlM_cons, bind_eq_ok] at hclosed
    obtain ⟨next, hnext, hrest⟩ := hclosed
    refine ih hrest (hstep prior List.mem_cons_self topology next hstart (closePrior_eq_ok.mp hnext)) ?_
    exact fun other hother => hstep other (List.mem_cons_of_mem _ hother)

/-- A fact that was closed was live, and has its ends: it is closed once. -/
theorem closePriors_row (hclosed : priors.foldlM closePrior topology = .ok closed) {prior : Prior}
    (hprior : prior ∈ priors) : ∃ fact, topology.facts[prior.id]? = some fact ∧ fact.expiredAt = none ∧
      closed.facts[prior.id]? = some { fact with invalidAt := prior.invalidAt, expiredAt := some prior.expiredAt } := by
  induction priors generalizing topology with
  | nil => cases hprior
  | cons first rest ih =>
    simp only [List.foldlM_cons, bind_eq_ok] at hclosed
    obtain ⟨next, hnext, hrest⟩ := hclosed
    obtain ⟨fact, hfact, hlive, rfl⟩ := closeLive_eq_some.mp (closePrior_eq_ok.mp hnext)
    rcases List.mem_cons.mp hprior with rfl | hprior
    · refine ⟨fact, hfact, hlive, closePriors_induction (P := fun t => t.facts[prior.id]? =
        some { fact with invalidAt := prior.invalidAt, expiredAt := some prior.expiredAt }) hrest (by simp) ?_⟩
      intro other _ before after hbefore hafter
      obtain ⟨stored, hsto, hopen, rfl⟩ := closeLive_eq_some.mp hafter
      simp only [getElem?_insert]
      split
      · rename_i hid
        rw [hid, hbefore] at hsto
        obtain rfl := Option.some.inj hsto
        cases hopen
      · exact hbefore
    · obtain ⟨stored, hsto, hopen, hrow⟩ := ih hrest hprior
      rcases of_getElem?_insert hsto with ⟨_, rfl⟩ | hsto
      · cases hopen
      · exact ⟨stored, hsto, hopen, hrow⟩

/-- A new fact is inserted under an id without a row. -/
theorem insertFact_eq_ok (h : topology.insertFact fact vector = .ok inserted) :
    topology.facts[fact.id]? = none ∧ inserted = { topology with
      facts := topology.facts.insert fact.id { fact with properties := canonicalProperties fact.properties }
      factEpisodes := topology.factEpisodes ∪ (fact.episodes.map fun episode => (fact.id, episode)).toFinset
      factVectors := storeVector topology.factVectors fact.id vector } := by
  simp only [insertFact, bind_eq_ok, ensure_eq_ok, exists_const, Except.ok.injEq] at h
  refine ⟨?_, h.2.symm⟩
  rw [← Option.not_isSome_iff_eq_none, ← Std.ExtTreeMap.contains_eq_isSome_getElem?, h.1]
  simp

/-- What a transaction that closes facts and inserts one does: the endpoints and episodes exist, the facts
it names were live, and the new id was free. -/
theorem supersedeAndInsert_eq_ok (h : topology.supersedeAndInsert priors newFact vector = .ok (committed, records)) :
    (newFact.src ∈ keySet topology.entities ∧ newFact.dst ∈ keySet topology.entities) ∧
    (∀ episode ∈ newFact.episodes, episode ∈ keySet topology.episodes) ∧
    ∃ closed, priors.foldlM closePrior topology = .ok closed ∧ closed.insertFact newFact vector = .ok committed ∧
      priors.mapM (fun prior => committed.closedRecord prior.id) = .ok records := by
  simp only [supersedeAndInsert, bind_eq_ok, requireIds_eq_ok, exists_const, Except.ok.injEq, Prod.mk.injEq] at h
  obtain ⟨hends, heps, closed, hclosed, inserted, hins, _, hrecs, rfl, rfl⟩ := h
  refine ⟨?_, heps, closed, hclosed, hins, hrecs⟩
  simpa using hends

/-- The tables beside those of the facts. -/
def frame (topology : Topology) : Table Episode × Table Entity × Finset (String × String) :=
  (topology.episodes, topology.entities, topology.episodeMentions)

/-- Closing facts leaves the other tables alone. -/
theorem closePriors_frame (hclosed : priors.foldlM closePrior topology = .ok closed) :
    closed.frame = topology.frame := by
  refine closePriors_induction (P := fun t => t.frame = topology.frame) hclosed rfl ?_
  intro prior _ before after hbefore hafter
  obtain ⟨fact, _, _, rfl⟩ := closeLive_eq_some.mp hafter
  exact hbefore

theorem Linked.insertFact (h : Linked topology) (hins : topology.insertFact fact vector = .ok inserted)
    (hends : fact.src ∈ keySet topology.entities ∧ fact.dst ∈ keySet topology.entities)
    (heps : ∀ episode ∈ fact.episodes, episode ∈ keySet topology.episodes) : Linked inserted := by
  obtain ⟨hfree, rfl⟩ := insertFact_eq_ok hins
  refine ⟨h.entityIds, ?_, ?_, ?_, ?_, h.versions⟩
  · intro id stored hsto
    rcases of_getElem?_insert hsto with ⟨hid, rfl⟩ | hsto
    · exact hid
    · exact h.factIds hsto
  · intro id stored hsto
    rcases of_getElem?_insert hsto with ⟨_, rfl⟩ | hsto
    · exact hends
    · exact h.endpoints hsto
  · intro id episode
    simp only [Finset.mem_union, List.mem_toFinset, List.mem_map, Prod.mk.injEq, h.links, getElem?_insert]
    by_cases hid : fact.id = id
    · subst hid
      simp [hfree]
    · simp [hid]
  · intro id stored hsto
    rcases of_getElem?_insert hsto with ⟨_, rfl⟩ | hsto
    · exact heps
    · exact h.listed hsto

theorem Linked.supersedeAndInsert (h : Linked topology)
    (hcmt : topology.supersedeAndInsert priors newFact vector = .ok (committed, records)) : Linked committed := by
  obtain ⟨hends, heps, closed, hclosed, hins, _⟩ := supersedeAndInsert_eq_ok hcmt
  have hframe := closePriors_frame hclosed
  simp only [frame, Prod.mk.injEq] at hframe
  have hlink : Linked closed :=
    closePriors_induction (P := Linked) hclosed h fun _ _ _ _ hbefore hafter => hbefore.closeLive hafter
  refine hlink.insertFact hins ?_ ?_
  · rwa [hframe.2.1]
  · rwa [hframe.1]

/-! ### Opening -/

/-- A property with a current version needs no seed. -/
theorem backfillProperty_eq_self {property : String × Value} (h : currentValues versions entity.id property.1 ≠ []) :
    backfillProperty entity versions property = versions := by
  unfold backfillProperty
  rw [if_pos]
  rw [currentValues, Ne, List.map_eq_nil_iff] at h
  obtain ⟨version, hfound⟩ := List.exists_mem_of_ne_nil _ h
  obtain ⟨hver, hcur⟩ := List.mem_filter.mp hfound
  simp only [isCurrent, Bool.and_eq_true] at hcur
  exact List.any_eq_true.mpr ⟨version, hver, by simpa using hcur.1⟩

/-- A fold whose every step leaves the state alone leaves it alone. -/
theorem foldl_eq_self {α β : Type} {step : β → α → β} {state : β} {items : List α}
    (h : ∀ item ∈ items, step state item = state) : items.foldl step state = state := by
  induction items with
  | nil => rfl
  | cons item items ih =>
    rw [List.foldl_cons, h item List.mem_cons_self]
    exact ih fun other hother => h other (List.mem_cons_of_mem _ hother)

/-- Opening a store whose tables are linked seeds nothing. -/
theorem Linked.backfillPropertyVersions_eq (h : Linked topology) : topology.backfillPropertyVersions = topology := by
  unfold backfillPropertyVersions
  rw [foldl_eq_self]
  intro entity hent
  obtain ⟨⟨id, stored⟩, hentry, rfl⟩ := List.mem_map.mp hent
  have hsto := Std.ExtTreeMap.mem_toList_iff_getElem?_eq_some.mp hentry
  refine foldl_eq_self fun property hproperty => backfillProperty_eq_self ?_
  have hvalue := Std.ExtTreeMap.mem_toList_iff_getElem?_eq_some.mp hproperty
  rw [h.versions, snapshotValue, h.entityIds hsto, hsto, Option.bind_some, hvalue]
  simp

end Topology

end LodeDB.Graph
