import LodeDB.Core.Primitives
import LodeDB.Graph.Records
import Mathlib.Data.Finset.Image

/-!
# The topology store

The SQL tables that are the truth of the graph, and the transactions that change them: each fails and leaves the
tables as they were, or returns the tables it commits. Rows that refer to a deleted row go with it, as the schema's
foreign keys say; only the episode of a property version is cleared instead.
-/

namespace LodeDB.Graph

open TreeMapRules ExceptRules

/-- A table by primary key. -/
abbrev Table (α : Type) := Std.ExtTreeMap String α compare

/-- One version of a property of an entity. -/
structure EntityPropertyVersion where
  entityId : String
  key : String
  value : Value
  episodeId : Option String
  validAt : Option TimeMs
  invalidAt : Option TimeMs
  createdAt : TimeMs
  expiredAt : Option TimeMs
  deriving DecidableEq

/-- The tables. Links of facts to episodes and of episodes to entities are pairs. -/
structure Topology where
  episodes : Table Episode
  entities : Table Entity
  facts : Table Fact
  factEpisodes : Finset (String × String)
  episodeMentions : Finset (String × String)
  propertyVersions : List EntityPropertyVersion
  entityVectors : Table Embedding
  factVectors : Table Embedding

/-- The tables of a new store. -/
def Topology.empty : Topology := ⟨∅, ∅, ∅, ∅, ∅, [], ∅, ∅⟩

/-- The ids without a row, each once and in order. -/
def missingIds {α : Type} (table : Table α) (ids : List String) : List String :=
  (ids.dedup.filter fun id => !table.contains id).mergeSort fun left right => decide (left ≤ right)

/-- Reject ids without a row. -/
def requireIds {α : Type} (table : Table α) (ids : List String) (message : String) : Except GraphError Unit :=
  ensure (missingIds table ids = []) (.notFound (message ++ ", ".intercalate (missingIds table ids)))

/-- Change a row, if it is there. -/
def amend {α : Type} (table : Table α) (id : String) (change : α → α) : Table α :=
  match table[id]? with
  | some row => table.insert id (change row)
  | none => table

theorem getElem?_amend {α : Type} (table : Table α) (id other : String) (change : α → α) :
    (amend table id change)[other]? = if id = other then table[other]?.map change else table[other]? := by
  unfold amend
  split
  · rename_i row hrow
    rw [getElem?_insert]
    split
    · rename_i heq
      rw [← heq, hrow]
      rfl
    · rfl
  · rename_i hnone
    split
    · rename_i heq
      rw [← heq, hnone]
      rfl
    · rfl

/-- Keep a caller's vector for a row, or drop the one that is kept. -/
def storeVector (vectors : Table Embedding) (id : String) (vector : Option Embedding) : Table Embedding :=
  match vector with
  | some vector => vectors.insert id vector
  | none => vectors.erase id

/-- A check of ids passes when every id has a row. -/
theorem requireIds_eq_ok {α : Type} {table : Table α} {ids : List String} {message : String} {result : Unit} :
    requireIds table ids message = .ok result ↔ ∀ id ∈ ids, id ∈ keySet table := by
  rw [requireIds, ensure_eq_ok]
  have hempty : missingIds table ids = [] ↔ (ids.dedup.filter fun id => !table.contains id) = [] := by
    rw [← List.length_eq_zero_iff, missingIds, List.length_mergeSort, List.length_eq_zero_iff]
  rw [hempty, List.filter_eq_nil_iff]
  simp only [List.mem_dedup, Bool.not_eq_true', Bool.not_eq_false, contains_iff, mem_keySet]

namespace Topology

/-! ### Episodes -/

variable (topology : Topology)

/-- The entities an episode mentions. -/
def mentions (id : String) : Finset String :=
  (topology.episodeMentions.filter fun link => link.1 = id).image Prod.snd

/-- Insert an episode with its mentions. -/
def upsertEpisodeWithMentions (episode : Episode) (entityIds : List String) : Except GraphError Topology := do
  requireIds topology.entities entityIds "mentioned entities do not exist: "
  .ok { topology with
    episodes := topology.episodes.insert episode.id
      { episode with properties := canonicalProperties episode.properties }
    episodeMentions := topology.episodeMentions ∪ (entityIds.map fun id => (episode.id, id)).toFinset }

/-! ### Entities -/

variable (entityId key : String)

/-- A version of a property that is not expired. -/
def isCurrent (version : EntityPropertyVersion) : Bool :=
  version.entityId == entityId && version.key == key && version.expiredAt.isNone

/-- Close the current version of a property. -/
def closeVersions (newValidAt : Option TimeMs) (recordedAt : TimeMs) (versions : List EntityPropertyVersion)
    : List EntityPropertyVersion :=
  versions.map fun version =>
    if isCurrent entityId key version then
      { version with invalidAt := some (newValidAt.getD recordedAt), expiredAt := some recordedAt }
    else version

/-- A new current version of a property. -/
def newVersion (value : Value) (sources : Table String) (newValidAt : Option TimeMs) (recordedAt : TimeMs)
    : EntityPropertyVersion where
  entityId := entityId
  key := key
  value := value
  episodeId := sources[key]?
  validAt := newValidAt
  invalidAt := none
  createdAt := recordedAt
  expiredAt := none

/-- Version one property: nothing if its value stays, else the current version is closed and the new
value, if there is one, gets a version of its own. -/
def syncProperty (entityId : String) (old new : Table Value) (sources : Table String)
    (newValidAt : Option TimeMs) (recordedAt : TimeMs) (versions : List EntityPropertyVersion) (key : String) :
    List EntityPropertyVersion :=
  if old[key]? = new[key]? then versions
  else closeVersions entityId key newValidAt recordedAt versions ++
    (new[key]?.map fun value => newVersion entityId key value sources newValidAt recordedAt).toList

/-- Version every property that changes. -/
def syncPropertyVersions (versions : List EntityPropertyVersion) (entityId : String) (existing : Option Value)
    (properties : Value) (sources : Table String) (newValidAt : Option TimeMs) (recordedAt : TimeMs) :
    Except GraphError (List EntityPropertyVersion) := do
  let old := propertyObject (existing.getD .null)
  let new := propertyObject properties
  sources.keys.forM fun key => ensure (new.contains key = true)
    (.invalidArgument ("property source was supplied for missing property " ++ key.quote))
  .ok ((writeAll old new.toList).keys.foldl
    (syncProperty entityId old new sources newValidAt recordedAt) versions)

/-- Insert or replace the snapshot of an entity and version its properties. -/
def upsertEntityWithLineage (entity : Entity) (vector : Option Embedding) (sources : Table String)
    (recordedAt : TimeMs) : Except GraphError Topology := do
  requireIds topology.episodes (sources.toList.map Prod.snd) "property source episodes do not exist: "
  let versions ← syncPropertyVersions topology.propertyVersions entity.id
    (topology.entities[entity.id]?.map Entity.properties) entity.properties sources entity.validAt recordedAt
  .ok { topology with
    entities := topology.entities.insert entity.id
      { entity with properties := canonicalProperties entity.properties }
    propertyVersions := versions
    entityVectors := storeVector topology.entityVectors entity.id vector }

/-- The entities of a type, or all of them, in a frame. -/
def listEntities (entityType : Option String) (asOf : AsOf) : List Entity :=
  (topology.entities.toList.map Prod.snd).filter fun entity =>
    (entityType.all fun wanted => entity.entityType == wanted) &&
      (entityFrameSql asOf).all fun clause => Sql.selects clause entity.stamps

/-! ### Facts -/

/-- Delete a fact with its links and its vector. -/
def deleteFact (id : String) : Topology :=
  { topology with
    facts := topology.facts.erase id
    factEpisodes := topology.factEpisodes.filter fun link => link.1 ≠ id
    factVectors := topology.factVectors.erase id }

/-- Delete an entity with its mentions, its versions and its vector. -/
def deleteEntity (id : String) : Topology :=
  { topology with
    entities := topology.entities.erase id
    episodeMentions := topology.episodeMentions.filter fun link => link.2 ≠ id
    propertyVersions := topology.propertyVersions.filter fun version => version.entityId ≠ id
    entityVectors := topology.entityVectors.erase id }

/-- Delete an episode with its links and mentions; versions it supplied stay without it. -/
def deleteEpisode (id : String) : Topology :=
  { topology with
    episodes := topology.episodes.erase id
    factEpisodes := topology.factEpisodes.filter fun link => link.2 ≠ id
    episodeMentions := topology.episodeMentions.filter fun link => link.1 ≠ id
    propertyVersions := topology.propertyVersions.map fun version =>
      if version.episodeId = some id then { version with episodeId := none } else version }

/-- Whether a fact touches an entity. -/
def touches (id : String) (fact : Fact) : Bool := fact.src == id || fact.dst == id

/-- Remove an entity and the facts that touch it: whether it was there, and the facts. -/
def removeEntity (id : String) : Topology × Bool × List String :=
  let removed := (topology.facts.toList.filter fun entry => touches id entry.2).map Prod.fst
  ((removed.foldl deleteFact topology).deleteEntity id, topology.entities.contains id, removed)

/-- Remove a fact: whether it was there. -/
def removeFact (id : String) : Topology × Bool :=
  (topology.deleteFact id, topology.facts.contains id)

/-- The facts linked to an episode. -/
def linkedFacts (id : String) : List Fact :=
  (topology.facts.toList.filter fun entry => (entry.1, id) ∈ topology.factEpisodes).map Prod.snd

/-- Take an episode from a fact. -/
def unlink (fact : Fact) (id : String) : Topology :=
  { topology with
    facts := amend topology.facts fact.id fun stored =>
      { stored with episodes := fact.episodes.filter fun episode => episode ≠ id }
    factEpisodes := topology.factEpisodes.erase (fact.id, id) }

/-- Roll back a linked fact: one the episode started is deleted, another loses the link. -/
def rollBack (id : String) (state : Topology × List String) (fact : Fact) : Topology × List String :=
  if fact.episodes.head? = some id then (state.1.deleteFact fact.id, state.2 ++ [fact.id])
  else (state.1.unlink fact id, state.2)

/-- Remove an episode and the facts it started: whether it was there, and the facts. -/
def removeEpisode (id : String) : Topology × Bool × List String :=
  if topology.episodes.contains id then
    let rolledBack := (topology.linkedFacts id).foldl (rollBack id) (topology, [])
    (rolledBack.1.deleteEpisode id, true, rolledBack.2)
  else (topology, false, [])

/-- A fact as the index reads it: with the caller's vector, if one is kept. -/
structure FactIndexRecord where
  fact : Fact
  vector : Option Embedding

/-- Close a fact that is still live. -/
def closeLive (id : String) (invalidAt : Option TimeMs) (expiredAt : TimeMs) : Option Topology :=
  match topology.facts[id]? with
  | none => none
  | some fact =>
    if fact.expiredAt = none then
      let closed := { fact with invalidAt := invalidAt, expiredAt := some expiredAt }
      some { topology with facts := topology.facts.insert id closed }
    else none

/-- The index record of a fact. -/
def factIndexRecord (id : String) : Option FactIndexRecord :=
  topology.facts[id]?.map fun fact => ⟨fact, topology.factVectors[id]?⟩

/-- Close a fact's validity, if it is live. -/
def closeFact (id : String) (invalidAt : Option TimeMs) (expiredAt : TimeMs) : Topology × Option FactIndexRecord :=
  match topology.closeLive id invalidAt expiredAt with
  | some closed => (closed, closed.factIndexRecord id)
  | none => (topology, none)

/-- A fact to close: its id and the ends it gets. -/
structure Prior where
  id : String
  invalidAt : Option TimeMs
  expiredAt : TimeMs

/-- Close one of the facts a new fact replaces. -/
def closePrior (prior : Prior) : Except GraphError Topology :=
  match topology.closeLive prior.id prior.invalidAt prior.expiredAt with
  | some closed => .ok closed
  | none => .error (.notFound ("fact to invalidate does not exist or is already expired: " ++ prior.id))

/-- Insert a fact under a new id with its links and its vector. -/
def insertFact (fact : Fact) (vector : Option Embedding) : Except GraphError Topology := do
  ensure (topology.facts.contains fact.id = false) (.topology "UNIQUE constraint failed: facts.id")
  .ok { topology with
    facts := topology.facts.insert fact.id { fact with properties := canonicalProperties fact.properties }
    factEpisodes := topology.factEpisodes ∪ (fact.episodes.map fun episode => (fact.id, episode)).toFinset
    factVectors := storeVector topology.factVectors fact.id vector }

/-- The record of a fact that was just closed. -/
def closedRecord (id : String) : Except GraphError FactIndexRecord :=
  match topology.factIndexRecord id with
  | some record => .ok record
  | none => .error (.internal ("closed fact disappeared in transaction: " ++ id))

/-- Close the facts a new fact replaces and insert it; returns the closed facts. -/
def supersedeAndInsert (priors : List Prior) (newFact : Fact) (vector : Option Embedding) :
    Except GraphError (Topology × List FactIndexRecord) := do
  requireIds topology.entities [newFact.src, newFact.dst] "fact endpoints do not exist as entities: "
  requireIds topology.episodes newFact.episodes "fact provenance episodes do not exist: "
  let closed ← priors.foldlM closePrior topology
  let inserted ← closed.insertFact newFact vector
  let records ← priors.mapM fun prior => inserted.closedRecord prior.id
  .ok (inserted, records)

/-- Which endpoint of a fact a traversal follows. -/
inductive Direction
  | out
  | in
  | both
  deriving DecidableEq

/-- Whether a fact touches one of the nodes in a direction. -/
def Direction.incident (nodeIds : List String) (fact : Fact) : Direction → Bool
  | .out => nodeIds.contains fact.src
  | .in => nodeIds.contains fact.dst
  | .both => nodeIds.contains fact.src || nodeIds.contains fact.dst

/-- The facts that touch some nodes, optionally of one relation, in a frame; by id. -/
def factsFor (nodeIds : List String) (direction : Direction) (relation : Option String) (asOf : AsOf) : List Fact :=
  (topology.facts.toList.map Prod.snd).filter fun fact =>
    direction.incident nodeIds fact && (relation.all fun wanted => fact.relation == wanted) &&
      Sql.selects (asOfSql asOf) fact.stamps

/-! ### Opening -/

/-- A version for a property that has none yet, with the stamps of its entity. -/
def backfillProperty (entity : Entity) (versions : List EntityPropertyVersion) (property : String × Value) :
    List EntityPropertyVersion :=
  if versions.any fun version => version.entityId == entity.id && version.key == property.1 then versions
  else versions ++ [⟨entity.id, property.1, property.2, none, entity.validAt, entity.invalidAt,
    entity.createdAt, entity.expiredAt⟩]

/-- Seed the versions of a store that was written before versions were kept. -/
def backfillPropertyVersions : Topology :=
  { topology with
    propertyVersions := (topology.entities.toList.map Prod.snd).foldl
      (fun versions entity => (propertyObject entity.properties).toList.foldl (backfillProperty entity) versions)
      topology.propertyVersions }

end Topology

end LodeDB.Graph
