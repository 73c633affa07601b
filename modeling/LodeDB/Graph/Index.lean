import LodeDB.Graph.Linked
import LodeDB.Graph.Mirror
import LodeDB.Lib.Traced

/-!
# The semantic index of a graph

The index holds one document for every record that has a vector of its own or text to embed. Its engine is two sets
of documents: what it answers from, and what it would read once reopened. A write that succeeds reaches both; one
that fails may have reached some of its documents in either. What fails is given with the run.

`mirror` is the set of documents the tables call for.
-/

namespace LodeDB.Graph

open TreeMapRules ExceptRules Traced Traced.Program
open LodeDB.Filter (Metadata)

/-- What shapes the index. -/
structure GraphConfig where
  vectorDim : ℕ
  indexText : Bool
  indexFacts : Bool
  deriving DecidableEq

def GraphConfig.standard : GraphConfig := ⟨384, true, true⟩

/-- What a document is found by: a caller's vector with its text, or its embedded text. -/
inductive Content
  | vector (embedding : Embedding) (text : Option String)
  | text (text : String)
  deriving DecidableEq

/-- A document of the index. -/
structure IndexDocument where
  metadata : Metadata
  content : Content

abbrev Documents := Table IndexDocument

/-- A write of the engine. -/
inductive IndexWrite
  | upsert (documents : List (String × IndexDocument))
  | delete (documentIds : List String)

/-- The documents after a write. -/
def IndexWrite.apply (documents : Documents) : IndexWrite → Documents
  | .upsert written => writeAll documents written
  | .delete documentIds => eraseAll documents documentIds

/-- The part of a write that reaches some documents. -/
def IndexWrite.reaching (documentIds : List String) : IndexWrite → IndexWrite
  | .upsert written => .upsert (written.filter fun entry => entry.1 ∈ documentIds)
  | .delete ids => .delete (ids.filter fun id => id ∈ documentIds)

/-- A step that fails: its error, the documents it reached, and whether a checkpoint still took effect. -/
structure Fault where
  error : GraphError
  memory : List String
  durable : List String
  committed : Bool

/-- A graph on disk and, while it is open, in a process: the tables, the configuration and the marker
stored beside them, the documents the running engine holds and those a reopened one would read, the
dimension of the embedder, and the faults of the steps to come. -/
structure TemporalGraph where
  topology : Topology
  configuration : Option GraphConfig
  indexDirty : Bool
  memory : Documents
  durable : Option Documents
  embedder : Option ℕ
  live : Bool
  faults : List (Option Fault)

/-- The configuration in force. -/
def TemporalGraph.config (graph : TemporalGraph) : GraphConfig := graph.configuration.getD .standard

/-- What a step does. -/
inductive GraphEvent
  | mark
  | read
  | embed
  | write
  | checkpoint
  | commit
  | configure
  | openIndex
  | opened
  deriving DecidableEq

abbrev GraphProgram (α : Type) := Program TemporalGraph GraphEvent GraphError α

/-- A step that may fail. -/
def faulty (event : GraphEvent) (effect : TemporalGraph → TemporalGraph)
    (broken : Fault → TemporalGraph → TemporalGraph) : GraphProgram Unit := fun graph =>
  let rest := { graph with faults := graph.faults.tail }
  match graph.faults.head?.join with
  | some fault => ([(event, broken fault rest)], .error fault.error)
  | none => ([(event, effect rest)], .ok ())

/-! ### The engine -/

/-- Write to the engine. -/
def engineWrite (write : IndexWrite) : GraphProgram Unit :=
  faulty .write
    (fun graph => { graph with
      memory := write.apply graph.memory
      durable := graph.durable.map fun documents => write.apply documents })
    (fun fault graph => { graph with
      memory := (write.reaching fault.memory).apply graph.memory
      durable := graph.durable.map fun documents => (write.reaching fault.durable).apply documents })

/-- Embed the texts of documents. -/
def embedDocuments : GraphProgram Unit := faulty .embed id fun _ graph => graph

/-- Checkpoint the engine to disk. -/
def persistIndex : GraphProgram Unit :=
  faulty .checkpoint (fun graph => { graph with durable := some graph.memory })
    fun fault graph => if fault.committed then { graph with durable := some graph.memory } else graph

/-! ### Documents of records -/

/-- A record on its way into the index. -/
structure PendingDocument where
  docId : String
  metadata : Metadata
  text : String
  vector : Option Embedding

variable (config : GraphConfig)

/-- The document of a record; a record with neither a vector nor text has none. -/
def PendingDocument.document (pending : PendingDocument) : Option IndexDocument :=
  match pending.vector with
  | some vector => some ⟨pending.metadata, .vector vector (if config.indexText then some pending.text else none)⟩
  | none => if isBlank pending.text then none else some ⟨pending.metadata, .text pending.text⟩

def entityDocId (id : String) : String := "n:" ++ id

def factDocId (id : String) : String := "e:" ++ id

def pendingEntity (entity : Entity) (vector : Option Embedding) : PendingDocument :=
  ⟨entityDocId entity.id, entityMetadata entity, entity.label, vector⟩

def pendingFact (fact : Fact) (vector : Option Embedding) : PendingDocument :=
  ⟨factDocId fact.id, factMetadata fact, fact.fact, vector⟩

/-- The documents of the entities, by entity. -/
def entityDocuments (topology : Topology) : Documents :=
  collect (fun id entity => (pendingEntity entity topology.entityVectors[id]?).document config) topology.entities

/-- The documents of the facts, by fact, if facts are indexed. -/
def factDocuments (topology : Topology) : Documents :=
  collect (fun id fact =>
    if config.indexFacts then (pendingFact fact topology.factVectors[id]?).document config else none) topology.facts

/-- The documents the tables call for. -/
def mirror (topology : Topology) : Documents :=
  writeAll
    (writeAll ∅ ((entityDocuments config topology).toList.map fun entry => (entityDocId entry.1, entry.2)))
    ((factDocuments config topology).toList.map fun entry => (factDocId entry.1, entry.2))

/-! ### Writing records -/

/-- Whether a number of a vector is finite. -/
def isFinite (bits : UInt32) : Bool := (bits >>> 23) &&& 0xff != 0xff

/-- Check a caller's vector. -/
def validateVector (vector : Embedding) : Except GraphError Unit := do
  ensure (vector.length = config.vectorDim) (.invalidArgument ("vector has dimension " ++ toString vector.length ++
    " but the index is " ++ toString config.vectorDim))
  ensure (vector.all isFinite = true) (.invalidArgument "vector contains a non-finite value")

/-- How a record is ingested. -/
inductive Ingest
  | vector
  | text
  | clear
  deriving DecidableEq

/-- A record with a vector is written with it; text needs an embedder; the rest is cleared. -/
def PendingDocument.ingest (embedder : Bool) (pending : PendingDocument) : Ingest :=
  if pending.vector.isSome then .vector
  else if embedder = true ∧ isBlank pending.text = false then .text
  else .clear

/-- The upsert of the records ingested in one way. -/
def upsertOf (embedder : Bool) (mode : Ingest) (documents : List PendingDocument) : List (String × IndexDocument) :=
  documents.filterMap fun pending =>
    if pending.ingest embedder = mode then (pending.document config).map fun document => (pending.docId, document)
    else none

/-- The ids of the records to clear. -/
def clearedIds (embedder : Bool) (documents : List PendingDocument) : List String :=
  (documents.filter fun pending => pending.ingest embedder = .clear).map PendingDocument.docId

/-- Run a program unless there is nothing to do. -/
def unlessEmpty {ι : Type} (items : List ι) (program : GraphProgram Unit) : GraphProgram Unit :=
  if items.isEmpty then pure () else program

/-- Write a batch of records: vectors, then text, then the records to clear. -/
def writeDocuments (documents : List PendingDocument) (embedder : Bool) : GraphProgram Unit := do
  let graph ← look
  lift (documents.forM fun pending =>
    match pending.vector with
    | some vector => validateVector graph.config vector
    | none => .ok ())
  let vectors := upsertOf graph.config embedder .vector documents
  unlessEmpty vectors (engineWrite (.upsert vectors))
  let texts := upsertOf graph.config embedder .text documents
  unlessEmpty texts do
    embedDocuments
    engineWrite (.upsert texts)
  let cleared := clearedIds embedder documents
  unlessEmpty cleared (engineWrite (.delete cleared))

/-- Index a batch of entities. -/
def indexEntities (entities : List (Entity × Option Embedding)) (embedder : Bool) : GraphProgram Unit :=
  writeDocuments (entities.map fun entry => pendingEntity entry.1 entry.2) embedder

/-- Index a batch of facts, or clear them if facts are not indexed. -/
def indexFacts (facts : List (Fact × Option Embedding)) (embedder : Bool) : GraphProgram Unit := do
  let graph ← look
  if graph.config.indexFacts then writeDocuments (facts.map fun entry => pendingFact entry.1 entry.2) embedder
  else
    let docIds := facts.map fun entry => factDocId entry.1.id
    unlessEmpty docIds (engineWrite (.delete docIds))

/-- Remove the document of an entity. -/
def removeEntityDocument (id : String) : GraphProgram Unit := engineWrite (.delete [entityDocId id])

/-- Remove the documents of facts. -/
def removeFactDocuments (ids : List String) : GraphProgram Unit :=
  unlessEmpty ids (engineWrite (.delete (ids.map factDocId)))

/-! ### Orphans -/

/-- A text without a given start; a text that does not start so is left as it is. -/
def stripStart (start text : String) : String :=
  if start.toList <+: text.toList then String.ofList (text.toList.drop start.toList.length) else text

/-- The documents of a kind whose record is gone. -/
def orphanDocIds (documents : Documents) (kind start : String) (live : List String) : List String :=
  (documents.toList.filter fun entry =>
    entry.2.metadata["kind"]? == some kind && !(live.contains (stripStart start entry.1))).map Prod.fst

/-- Drop the documents whose records are gone. -/
def dropOrphans (liveEntityIds liveFactIds : List String) : GraphProgram ℕ := do
  let graph ← look
  let entityOrphans := orphanDocIds graph.memory "entity" "n:" liveEntityIds
  let factOrphans := orphanDocIds graph.memory "fact" "e:" liveFactIds
  unlessEmpty entityOrphans (engineWrite (.delete entityOrphans))
  unlessEmpty factOrphans (engineWrite (.delete factOrphans))
  pure (entityOrphans.length + factOrphans.length)

end LodeDB.Graph
