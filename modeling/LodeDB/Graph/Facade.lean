import LodeDB.Graph.Index

/-!
# The operations of a temporal graph

A mutation marks the index dirty, runs one SQL transaction that writes the index just before it commits, and clears
the marker. After a failure the transaction is rolled back and the index is rebuilt from the tables; the marker is
cleared only if that works. Opening a graph whose marker is set rebuilds too.

Every operation is a program of atomic steps, so a process that dies leaves a prefix of them. The clock and the
generated ids are arguments.
-/

namespace LodeDB.Graph

open TreeMapRules ExceptRules Traced Traced.Program

/-! ### The marker and the transaction -/

/-- Set or clear the durable marker. -/
def setIndexDirty (dirty : Bool) : GraphProgram Unit :=
  faulty .mark (fun graph => { graph with indexDirty := dirty }) fun _ graph => graph

def markIndexDirty : GraphProgram Unit := setIndexDirty true

def markIndexClean : GraphProgram Unit := setIndexDirty false

/-- Read the rows of the tables. -/
def readRows : GraphProgram Unit := faulty .read id fun _ graph => graph

/-- Commit the tables of a transaction. -/
def commit (committed : Topology) : GraphProgram Unit :=
  faulty .commit (fun graph => { graph with topology := committed }) fun _ graph => graph

/-! ### Rebuilding the index -/

/-- What a rebuild did. -/
structure ReindexStats where
  reindexedEntities : ℕ
  reindexedFacts : ℕ
  removedOrphans : ℕ
  deriving DecidableEq

def indexBatchSize : ℕ := 256

/-- Cut a list into batches, at most as many as the fuel. -/
def batchesFrom {α : Type} (size : ℕ) : ℕ → List α → List (List α)
  | 0, _ => []
  | _, [] => []
  | fuel + 1, items => items.take size :: batchesFrom size fuel (items.drop size)

variable {α : Type}

/-- Cut a list into batches. -/
def batches (items : List α) : List (List α) := batchesFrom indexBatchSize items.length items

variable (topology : Topology)

/-- The entities with the vectors kept for them. -/
def entityIndexRecords : List (Entity × Option Embedding) :=
  topology.entities.toList.map fun entry => (entry.2, topology.entityVectors[entry.2.id]?)

/-- The facts with the vectors kept for them. -/
def factIndexRecords : List (Fact × Option Embedding) :=
  topology.facts.toList.map fun entry => (entry.2, topology.factVectors[entry.2.id]?)

/-- Text without a vector cannot be rebuilt without an embedder. -/
def isRebuildable (embedder : Bool) (vector : Option Embedding) (text : String) : Bool :=
  vector.isSome || embedder || isBlank text

/-- Reject records that cannot be rebuilt. -/
def checkRebuildable (graph : TemporalGraph) : Except GraphError Unit := do
  (entityIndexRecords graph.topology).forM fun record =>
    ensure (isRebuildable graph.embedder.isSome record.2 record.1.label = true) (.invalidArgument
      ("entity " ++ record.1.id.quote ++ " has no retained vector and the graph has no embedder"))
  (factIndexRecords graph.topology).forM fun record =>
    ensure (graph.config.indexFacts = true → isRebuildable graph.embedder.isSome record.2 record.1.fact = true)
      (.invalidArgument ("fact " ++ record.1.id.quote ++ " has no retained vector and the graph has no embedder"))

/-- Rebuild the index from the tables. -/
def reindexInternal : GraphProgram ReindexStats := do
  readRows
  let graph ← look
  let entities := entityIndexRecords graph.topology
  let facts := factIndexRecords graph.topology
  lift (checkRebuildable graph)
  let removedOrphans ← dropOrphans (entities.map fun record => record.1.id) (facts.map fun record => record.1.id)
  forEach (batches entities) fun batch => indexEntities batch graph.embedder.isSome
  forEach (batches facts) fun batch => indexFacts batch graph.embedder.isSome
  pure ⟨entities.length, facts.length, removedOrphans⟩

/-- Rebuild the index on request. -/
def reindex : GraphProgram ReindexStats := do
  markIndexDirty
  let stats ← reindexInternal
  persistIndex
  markIndexClean
  pure stats

/-- Rebuild the index if the marker is set. -/
def repairIndexIfDirty : GraphProgram Unit := do
  let graph ← look
  if graph.indexDirty then
    let _ ← reindexInternal
    persistIndex
    markIndexClean
  else pure ()

/-- Complete a mutation: clear the marker, or rebuild after an error and return it. -/
def finishIndexedMutation (result : Except GraphError α) : GraphProgram α :=
  match result with
  | .ok value => do
    markIndexClean
    pure value
  | .error error => do
    match ← attempt reindexInternal with
    | .error repairError =>
      fail (.internal (error.text ++ "; semantic-index repair also failed: " ++ repairError.text))
    | .ok _ =>
      match ← attempt persistIndex with
      | .error repairError =>
        fail (.internal (error.text ++ "; repaired semantic index could not be persisted: " ++ repairError.text))
      | .ok _ =>
        match ← attempt markIndexClean with
        | .error markerError =>
          fail (.internal (error.text ++
            "; repaired semantic index was persisted but its clean marker failed: " ++ markerError.text))
        | .ok _ => fail error

variable (transaction : Topology → Except GraphError (Topology × α)) (beforeCommit : α → GraphProgram Unit)

/-- A transaction that writes the index before it commits. -/
def transact : GraphProgram α := do
  let graph ← look
  let outcome ← lift (transaction graph.topology)
  beforeCommit outcome.2
  commit outcome.1
  pure outcome.2

/-- A mutation of the tables and the index. -/
def indexedMutation : GraphProgram α := do
  markIndexDirty
  let result ← attempt (transact transaction beforeCommit)
  finishIndexedMutation result

/-! ### Episodes -/

/-- Whether a stored episode is the one stored again. -/
def sameEpisode (existing episode : Episode) (mentions : List String) : Prop :=
  existing.source = episode.source ∧ existing.body = episode.body ∧ existing.occurredAt = episode.occurredAt ∧
    canonicalProperties existing.properties = canonicalProperties episode.properties ∧
    topology.mentions episode.id = mentions.toFinset

instance (topology : Topology) (existing episode : Episode) (mentions : List String) :
    Decidable (sameEpisode topology existing episode mentions) := by unfold sameEpisode; infer_instance

variable (now : TimeMs)

/-- Store an observation under a caller's or a generated id. A repeated id needs the same content. -/
def addEpisodeWithId (generated : String) (callerId : Option String) (source body : String) (occurredAt : TimeMs)
    (properties : Value) (mentions : List String) : GraphProgram String := do
  lift (ensure (callerId.all (fun id => !isBlank id) = true) (.invalidArgument "episode id must not be blank"))
  let id := callerId.getD generated
  let episode : Episode := ⟨id, source, body, occurredAt, now, properties⟩
  let graph ← look
  match graph.topology.episodes[id]? with
  | some existing =>
    if sameEpisode graph.topology existing episode mentions then pure id
    else fail (.invalidArgument ("episode id " ++ id.quote ++ " already exists with a different payload"))
  | none =>
    let committed ← lift (graph.topology.upsertEpisodeWithMentions episode mentions)
    commit committed
    pure id

/-! ### Entities -/

/-- The snapshot an upsert writes: an entity keeps the time it was first recorded. -/
def entitySnapshot (now : TimeMs) (id entityType label : String) (properties : Value)
    (validAt invalidAt : Option TimeMs) : Entity where
  id := id
  entityType := entityType
  label := label
  properties := properties
  validAt := validAt
  invalidAt := invalidAt
  createdAt := (topology.entities[id]?.map Entity.createdAt).getD now
  expiredAt := none

/-- Write a snapshot and its document. -/
def writeEntity (entity : Entity) (vector : Option Embedding) (sources : Table String) (embedder : Bool)
    : GraphProgram Unit :=
  indexedMutation (fun topology => (topology.upsertEntityWithLineage entity vector sources now).map fun t => (t, ()))
    fun _ => indexEntities [(entity, vector)] embedder

/-- Create or replace an entity found by its label. -/
def upsertEntityWithSources (id entityType label : String) (properties : Value) (validAt invalidAt : Option TimeMs)
    (sources : Table String) : GraphProgram String := do
  lift (ensure (isBlank id = false) (.invalidArgument "entity id is required"))
  let graph ← look
  let entity := entitySnapshot graph.topology now id entityType label properties validAt invalidAt
  lift (ensure (graph.embedder.isSome = true ∨ isBlank label = true) (.invalidArgument
    "upsert_entity needs the graph's embedder; use upsert_entity_vec on a vector-in graph"))
  writeEntity now entity none sources graph.embedder.isSome
  pure id

/-- Create or replace an entity found by a caller's vector. -/
def upsertEntityVecWithSources (id entityType label : String) (properties : Value) (embedding : Embedding)
    (validAt invalidAt : Option TimeMs) (sources : Table String) : GraphProgram String := do
  lift (ensure (isBlank id = false) (.invalidArgument "entity id is required"))
  let graph ← look
  lift (validateVector graph.config embedding)
  let entity := entitySnapshot graph.topology now id entityType label properties validAt invalidAt
  writeEntity now entity (some embedding) sources false
  pure id

/-! ### Facts -/

/-- The earliest time of the episodes that exist. -/
def referenceTimeFor (episodes : List String) : Option TimeMs :=
  episodes.foldl (fun earliest id =>
    match topology.episodes[id]? with
    | none => earliest
    | some episode => some (earliest.elim episode.occurredAt fun time => min time episode.occurredAt)) none

/-- Assert a fact. -/
structure NewFact where
  src : String
  relation : String
  dst : String
  factText : String
  properties : Value
  episodes : List String
  validAt : Option TimeMs
  invalidates : List String
  embedding : Option Embedding

/-- Check the arguments of a new fact. -/
def checkNewFact (graph : TemporalGraph) (callerId : Option String) (new : NewFact) : Except GraphError Unit := do
  ensure (callerId.all (fun id => !isBlank id) = true) (.invalidArgument "fact id must not be blank")
  [("src", new.src), ("relation", new.relation), ("dst", new.dst)].forM fun entry =>
    ensure (isBlank entry.2 = false) (.invalidArgument ("fact " ++ entry.1 ++ " is required"))
  match new.embedding with
  | some embedding => validateVector graph.config embedding
  | none =>
    ensure (graph.embedder.isSome = true ∨ graph.config.indexFacts = false ∨ isBlank new.factText = true)
      (.invalidArgument "add_fact needs the graph's embedder; use add_fact_vec on a vector-in graph")

/-- When a new fact starts: one that replaces others and has no start begins when that is observed. -/
def effectiveValidAt (new : NewFact) (effective : TimeMs) : Option TimeMs :=
  if new.validAt = none ∧ new.invalidates ≠ [] then some effective else new.validAt

/-- The row of a new fact. -/
def factRow (now : TimeMs) (id : String) (new : NewFact) : Fact :=
  let referenceTime := referenceTimeFor topology new.episodes
  { id := id
    src := new.src
    relation := new.relation
    dst := new.dst
    fact := new.factText
    properties := new.properties
    episodes := new.episodes
    validAt := effectiveValidAt new (referenceTime.getD now)
    invalidAt := none
    createdAt := now
    expiredAt := none
    referenceTime := referenceTime }

/-- The facts a new fact closes, each once, with the ends they get. -/
def priorsOf (now : TimeMs) (new : NewFact) : List Topology.Prior :=
  let effective := (referenceTimeFor topology new.episodes).getD now
  let ends := supersedeTimestamps (effectiveValidAt new effective) effective now
  new.invalidates.reverse.dedup.reverse.map fun id => ⟨id, ends.1, ends.2⟩

/-- Whether a stored fact is the one asserted again. -/
def sameFact (existing fact : Fact) : Prop :=
  existing.src = fact.src ∧ existing.relation = fact.relation ∧ existing.dst = fact.dst ∧ existing.fact = fact.fact ∧
    canonicalProperties existing.properties = canonicalProperties fact.properties ∧
    existing.episodes = fact.episodes ∧ existing.validAt = fact.validAt ∧
    existing.referenceTime = fact.referenceTime

instance (existing fact : Fact) : Decidable (sameFact existing fact) := by unfold sameFact; infer_instance

/-- Index the facts a new fact closed, and the new fact. -/
def indexSuperseding (closed : List Topology.FactIndexRecord) (fact : Fact) (vector : Option Embedding)
    (embedder : Bool) : GraphProgram Unit :=
  forEach (batches ((closed.map fun record => (record.fact, record.vector)) ++ [(fact, vector)])) fun batch =>
    indexFacts batch embedder

/-- Assert a fact under a caller's or a generated id, closing the facts it replaces. -/
def addFactInner (generated : String) (callerId : Option String) (new : NewFact) : GraphProgram String := do
  let graph ← look
  lift (checkNewFact graph callerId new)
  let id := callerId.getD generated
  let fact := factRow graph.topology now id new
  match graph.topology.facts[id]? with
  | some existing =>
    if sameFact existing fact then pure id
    else fail (.invalidArgument ("fact id " ++ id.quote ++ " already exists with a different payload"))
  | none =>
    let _ ← indexedMutation
      (fun topology => topology.supersedeAndInsert (priorsOf graph.topology now new) fact new.embedding)
      fun closed => indexSuperseding closed fact new.embedding graph.embedder.isSome
    pure id

/-- Index the fact that was closed, if there is one. -/
def indexClosed (embedder : Bool) : Option Topology.FactIndexRecord → GraphProgram Unit
  | some record => indexFacts [(record.fact, record.vector)] (record.vector.isNone && embedder)
  | none => pure ()

/-- Close a fact without a replacement: whether it was live. -/
def invalidateFact (id : String) (invalidAt : Option TimeMs) : GraphProgram Bool := do
  let graph ← look
  let closed ← indexedMutation (fun topology => .ok (topology.closeFact id invalidAt now))
    (indexClosed graph.embedder.isSome)
  pure closed.isSome

/-! ### Removals -/

/-- Remove an entity with its facts: whether it was there. -/
def removeEntity (id : String) : GraphProgram Bool := do
  let removed ← indexedMutation (fun topology => .ok (topology.removeEntity id)) fun removed => do
    removeEntityDocument id
    removeFactDocuments removed.2
  pure removed.1

/-- Remove a fact: whether it was there. -/
def removeFact (id : String) : GraphProgram Bool :=
  indexedMutation (fun topology => .ok (topology.removeFact id)) fun _ => removeFactDocuments [id]

/-- Remove an episode and the facts it started: whether it was there. -/
def removeEpisode (id : String) : GraphProgram Bool := do
  let removed ← indexedMutation (fun topology => .ok (topology.removeEpisode id)) fun removed =>
    removeFactDocuments removed.2
  pure removed.1

/-! ### Checkpoint and open -/

/-- Checkpoint the index. -/
def persist : GraphProgram Unit := do
  persistIndex
  markIndexClean

variable (config : GraphConfig) (embedder : Option ℕ)

/-- Check the arguments of an open. -/
def validateOpenConfig : Except GraphError Unit := do
  ensure (config.vectorDim ≠ 0) (.invalidArgument "vector_dim must be greater than zero")
  match embedder with
  | some dimension => ensure (dimension = config.vectorDim) (.invalidArgument
      ("embedder dimension " ++ toString dimension ++ " does not match vector_dim " ++ toString config.vectorDim))
  | none => .ok ()

/-- A stored setting, by key. -/
def expectedConfiguration : List (String × String) :=
  let boolText (flag : Bool) := if flag then "1" else "0"
  [("vector_dim", toString config.vectorDim), ("index_text", boolText config.indexText),
    ("index_facts", boolText config.indexFacts)]

/-- Reject a configuration that would reinterpret the index. -/
def validateConfiguration (stored : Option GraphConfig) (config : GraphConfig) : Except GraphError Unit :=
  match stored with
  | none => .ok ()
  | some stored =>
    ((expectedConfiguration stored).zip (expectedConfiguration config)).forM fun entry =>
      ensure (entry.1.2 = entry.2.2) (.invalidArgument ("graph configuration mismatch for " ++ entry.1.1 ++
        ": stored " ++ entry.1.2 ++ ", requested " ++ entry.2.2))

/-- Open the tables: seed missing versions. -/
def openTopology : GraphProgram Unit :=
  faulty .commit (fun graph => { graph with topology := graph.topology.backfillPropertyVersions }) fun _ graph => graph

/-- Open the engine on what it reads from disk. -/
def openIndex : GraphProgram Unit :=
  faulty .openIndex (fun graph => { graph with memory := graph.durable.getD ∅ }) fun _ graph => graph

/-- Store the configuration of a new graph, and mark its index. -/
def configure : GraphProgram Unit :=
  faulty .configure (fun graph =>
    { graph with
      configuration := some (graph.configuration.getD config)
      indexDirty := graph.indexDirty || graph.configuration.isNone }) fun _ graph => graph

/-- Give the handle its embedder. -/
def attachEmbedder : GraphProgram Unit :=
  perform .opened fun graph => { graph with embedder := embedder }

/-- Hand the graph to the caller. -/
def goLive : GraphProgram Unit := perform .opened fun graph => { graph with live := true }

/-- An index that was just created is missing its documents. -/
def markIfCreated (created : Bool) : GraphProgram Unit := if created then markIndexDirty else pure ()

/-- Open a graph. -/
def openGraph : GraphProgram Unit := do
  lift (validateOpenConfig config embedder)
  openTopology
  let graph ← look
  lift (validateConfiguration graph.configuration config)
  openIndex
  configure config
  attachEmbedder embedder
  markIfCreated graph.durable.isNone
  repairIndexIfDirty
  goLive

end LodeDB.Graph
