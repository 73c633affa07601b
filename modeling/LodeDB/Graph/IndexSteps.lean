import LodeDB.Graph.Facade

/-!
# What the steps of the index do

An engine write touches nothing beside the documents, and leaves every document under an id of its kind.
A program of the index that succeeds has one effect on what the engine holds and on what a reopened one
would read.
-/

namespace LodeDB.Graph

open TreeMapRules ExceptRules Traced Traced.Program
open LodeDB.Filter (Metadata)

variable {write : IndexWrite} {graph other : TemporalGraph} {ι : Type} {pending : List PendingDocument}
  {mode : Ingest}

/-! ### Kinds -/

/-- A document whose id says its kind. -/
inductive KindedEntry : String → IndexDocument → Prop
  | entity (id : String) (document : IndexDocument) (hkind : document.metadata["kind"]? = some "entity") :
    KindedEntry (entityDocId id) document
  | fact (id : String) (document : IndexDocument) (hkind : document.metadata["kind"]? = some "fact") :
    KindedEntry (factDocId id) document

/-- Documents under ids of their kinds. -/
def Kinded (documents : Documents) : Prop :=
  ∀ (key : String) (document : IndexDocument), documents[key]? = some document → KindedEntry key document

/-- A write of documents under ids of their kinds. -/
def IndexWrite.Kinded : IndexWrite → Prop
  | .upsert written => ∀ entry ∈ written, KindedEntry entry.1 entry.2
  | .delete _ => True

/-- An empty index is under ids of its kinds. -/
theorem kinded_empty : Kinded ∅ := by
  intro key document h
  simp at h

/-- A write under ids of their kinds keeps them so. -/
theorem Kinded.apply {documents : Documents} (h : Kinded documents) (hwrite : write.Kinded) :
    Kinded (write.apply documents) := by
  intro key document hfound
  cases write with
  | upsert written =>
    rcases mem_or_of_getElem?_writeAll hfound with hwr | hbefore
    · exact hwrite _ hwr
    · exact h key document hbefore
  | delete documentIds =>
    exact h key document (of_getElem?_eraseAll hfound).2

/-- So does a write that reaches some of its documents. -/
theorem IndexWrite.Kinded.reaching (h : write.Kinded) (documentIds : List String) :
    (write.reaching documentIds).Kinded := by
  cases write with
  | upsert written => exact fun entry hentry => h entry (List.mem_of_mem_filter hentry)
  | delete ids => trivial

/-! ### Steps -/

/-- Two graphs that differ in nothing but the documents and the faults to come. -/
def Beside (graph other : TemporalGraph) : Prop :=
  other = { graph with memory := other.memory, durable := other.durable, faults := other.faults }

/-- Being beside is transitive. -/
theorem Beside.trans {first second third : TemporalGraph} (h : Beside first second) (hnext : Beside second third) :
    Beside first third := by
  rw [Beside] at h hnext ⊢
  rw [hnext, h]

section

variable (h : Beside graph other)

include h

/-- Graphs beside each other have the same tables. -/
theorem Beside.topology : other.topology = graph.topology := by
  rw [h]

/-- They have the same stored configuration. -/
theorem Beside.configuration : other.configuration = graph.configuration := by
  rw [h]

/-- They run under the same configuration. -/
theorem Beside.config : other.config = graph.config := by
  rw [TemporalGraph.config, h.configuration, TemporalGraph.config]

/-- They have the same marker. -/
theorem Beside.indexDirty : other.indexDirty = graph.indexDirty := by
  rw [h]

/-- They have the same embedder. -/
theorem Beside.embedder : other.embedder = graph.embedder := by
  rw [h]

/-- They are open alike. -/
theorem Beside.live : other.live = graph.live := by
  rw [h]

end

/-- All the documents of a graph are under ids of their kinds. -/
def KindedIndex (graph : TemporalGraph) : Prop :=
  Kinded graph.memory ∧ ∀ documents ∈ graph.durable, Kinded documents

/-- A step of the index. -/
def IndexStep (graph : TemporalGraph) (_ : GraphEvent) (next : TemporalGraph) : Prop :=
  Beside graph next ∧ (KindedIndex graph → KindedIndex next) ∧ (graph.durable.isSome = true → next.durable.isSome = true)

/-- The rule of a step that may fail. -/
theorem triple_faulty {event : GraphEvent} {effect : TemporalGraph → TemporalGraph}
    {broken : Fault → TemporalGraph → TemporalGraph} {pre : TemporalGraph → Prop}
    {during : TemporalGraph → GraphEvent → TemporalGraph → Prop} {post : Unit → TemporalGraph → Prop}
    {failed : GraphError → TemporalGraph → Prop}
    (heffect : ∀ graph, pre graph → during graph event (effect { graph with faults := graph.faults.tail }) ∧
      post () (effect { graph with faults := graph.faults.tail }))
    (hbroken : ∀ graph fault, pre graph → during graph event (broken fault { graph with faults := graph.faults.tail }) ∧
      failed fault.error (broken fault { graph with faults := graph.faults.tail })) :
    Triple pre (faulty event effect broken) during post failed := by
  have hall : ∀ graph, pre graph → Steps during graph (faulty event effect broken graph).1 ∧
      (∀ value, (faulty event effect broken graph).2 = .ok value →
        post value (after graph (faulty event effect broken graph).1)) ∧
      ∀ error, (faulty event effect broken graph).2 = .error error →
        failed error (after graph (faulty event effect broken graph).1) := by
    intro graph hgraph
    unfold faulty
    cases graph.faults.head?.join with
    | none =>
      refine ⟨⟨(heffect graph hgraph).1, trivial⟩, fun _ _ => (heffect graph hgraph).2, ?_⟩
      intro error herror
      cases herror
    | some fault =>
      refine ⟨⟨(hbroken graph fault hgraph).1, trivial⟩, ?_, ?_⟩
      · intro value hok
        cases hok
      · intro error herror
        cases herror
        exact (hbroken graph fault hgraph).2
  exact ⟨fun graph hgraph => (hall graph hgraph).1, fun graph value hgraph => (hall graph hgraph).2.1 value,
    fun graph error hgraph => (hall graph hgraph).2.2 error⟩

/-- What an effect on the documents made of a graph. -/
structure Written (start : TemporalGraph) (effect : Documents → Documents) (graph : TemporalGraph) : Prop where
  beside : Beside start graph
  memory : graph.memory = effect start.memory
  durable : graph.durable = start.durable.map effect

/-- Nothing is written at first. -/
theorem Written.refl (start : TemporalGraph) : Written start id start := ⟨rfl, rfl, by simp⟩

/-- A program of the index with one effect on the documents, after those before it. -/
abbrev Rewrites {α : Type} (start : TemporalGraph) (effect : Documents → Documents) (program : GraphProgram α)
    (round : Documents → Documents) : Prop :=
  Triple (Written start effect) program IndexStep (fun _ => Written start fun documents => round (effect documents))
    fun _ => Beside start

variable {start : TemporalGraph} {effect : Documents → Documents}

/-- An engine write has the effect of its documents. -/
theorem triple_engineWrite (hwrite : write.Kinded) : Rewrites start effect (engineWrite write) write.apply := by
  refine triple_faulty ?_ ?_
  · intro graph h
    refine ⟨⟨rfl, ?_, by simp⟩, ⟨h.beside.trans rfl, by simp only [h.memory], ?_⟩⟩
    · rintro ⟨hmemory, hdur⟩
      refine ⟨hmemory.apply hwrite, ?_⟩
      intro documents hdocs
      obtain ⟨before, hbefore, rfl⟩ := Option.map_eq_some_iff.mp hdocs
      exact (hdur before hbefore).apply hwrite
    · simp [h.durable, Function.comp_def]
  · intro graph fault h
    refine ⟨⟨rfl, ?_, by simp⟩, h.beside.trans rfl⟩
    rintro ⟨hmemory, hdur⟩
    refine ⟨hmemory.apply (hwrite.reaching _), ?_⟩
    intro documents hdocs
    obtain ⟨before, hbefore, rfl⟩ := Option.map_eq_some_iff.mp hdocs
    exact (hdur before hbefore).apply (hwrite.reaching _)

/-- A step that may fail and changes nothing. -/
theorem triple_idle (event : GraphEvent) :
    Triple (Written start effect) (faulty event id fun _ graph => graph) IndexStep (fun _ => Written start effect)
      fun _ => Beside start := by
  refine triple_faulty ?_ ?_
  · intro graph h
    exact ⟨⟨rfl, fun hkinded => hkinded, fun hsome => hsome⟩, ⟨h.beside.trans rfl, h.memory, h.durable⟩⟩
  · intro graph fault h
    exact ⟨⟨rfl, fun hkinded => hkinded, fun hsome => hsome⟩, h.beside.trans rfl⟩

/-- A write that is made only if there is something to write. -/
theorem triple_unlessEmpty {items : List ι} {program : GraphProgram Unit} {next : Documents → Documents}
    (hempty : items = [] → next = effect)
    (h : Triple (Written start effect) program IndexStep (fun _ => Written start next) fun _ => Beside start) :
    Triple (Written start effect) (unlessEmpty items program) IndexStep (fun _ => Written start next)
      fun _ => Beside start := by
  unfold unlessEmpty
  split
  · rename_i hitems
    rw [List.isEmpty_iff] at hitems
    rw [hempty hitems]
    exact Triple.pure fun _ h => h
  · exact h

/-! ### Writing records -/

/-- The effect of writing a batch of records. -/
def writeEffect (config : GraphConfig) (embedder : Bool) (pending : List PendingDocument) (documents : Documents) :
    Documents :=
  eraseAll (writeAll (writeAll documents (upsertOf config embedder .vector pending))
    (upsertOf config embedder .text pending)) (clearedIds embedder pending)

/-- A pending document under an id of its kind. -/
def PendingDocument.Kinded (pending : PendingDocument) : Prop :=
  ∀ content, KindedEntry pending.docId ⟨pending.metadata, content⟩

/-- An entity's document is under an entity id. -/
theorem pendingEntity_kinded (entity : Entity) (vector : Option Embedding) : (pendingEntity entity vector).Kinded :=
  fun _ => .entity entity.id _ ((IndexedRecord.entity entity).getElem?_metadata (IndexedRecord.entity entity).kind_mem_fields)

/-- A fact's document is under a fact id. -/
theorem pendingFact_kinded (fact : Fact) (vector : Option Embedding) : (pendingFact fact vector).Kinded :=
  fun _ => .fact fact.id _ ((IndexedRecord.fact fact).getElem?_metadata (IndexedRecord.fact fact).kind_mem_fields)

/-- The document of a record has the record's metadata. -/
theorem PendingDocument.document_metadata {config : GraphConfig} {pending : PendingDocument} {document : IndexDocument}
    (h : pending.document config = some document) : ∃ content, document = ⟨pending.metadata, content⟩ := by
  unfold PendingDocument.document at h
  split at h
  · exact ⟨_, (Option.some.inj h).symm⟩
  · split at h
    · cases h
    · exact ⟨_, (Option.some.inj h).symm⟩

/-- What is upserted in a mode: the documents that are ingested so. -/
theorem mem_upsertOf {config : GraphConfig} {embedder : Bool} {entry : String × IndexDocument} :
    entry ∈ upsertOf config embedder mode pending ↔ ∃ document ∈ pending, document.ingest embedder = mode ∧
      document.docId = entry.1 ∧ document.document config = some entry.2 := by
  simp only [upsertOf, List.mem_filterMap]
  refine exists_congr fun document => and_congr_right fun _ => ?_
  split
  · rename_i hmode
    rw [Option.map_eq_some_iff]
    constructor
    · rintro ⟨value, hvalue, rfl⟩
      exact ⟨hmode, rfl, hvalue⟩
    · rintro ⟨_, hid, hvalue⟩
      exact ⟨entry.2, hvalue, by rw [hid]⟩
  · rename_i hmode
    simp [hmode]

/-- An upsert of documents of their kinds is of their kinds. -/
theorem upsertOf_kinded {config : GraphConfig} {embedder : Bool} (h : ∀ document ∈ pending, document.Kinded) :
    (IndexWrite.upsert (upsertOf config embedder mode pending)).Kinded := by
  intro entry hentry
  obtain ⟨document, hdoc, _, hid, hvalue⟩ := mem_upsertOf.mp hentry
  obtain ⟨content, hcont⟩ := PendingDocument.document_metadata hvalue
  rw [← hid, hcont]
  exact h document hdoc content

/-- Writing documents has the effect of a round of writes. -/
theorem triple_writeDocuments (embedder : Bool) (h : ∀ document ∈ pending, document.Kinded) :
    Rewrites start effect (writeDocuments pending embedder) (writeEffect start.config embedder pending) := by
  unfold writeDocuments
  refine Triple.inspect fun graph hgraph => ?_
  rw [hgraph.beside.config]
  refine Triple.via (fun _ => Written start effect) (Triple.lift (fun s _ hs _ => hs) fun s _ hs _ => hs.beside) ?_
  intro _
  refine Triple.via _ (triple_unlessEmpty ?_ (triple_engineWrite (upsertOf_kinded h))) ?_
  · intro hempty
    simp [hempty, IndexWrite.apply, writeAll]
  intro _
  refine Triple.via _ (triple_unlessEmpty ?_ (Triple.via _ (triple_idle .embed) fun _ =>
    triple_engineWrite (upsertOf_kinded h))) ?_
  · intro hempty
    simp [hempty, IndexWrite.apply, writeAll]
  intro _
  refine triple_unlessEmpty ?_ (triple_engineWrite trivial)
  intro hempty
  simp [hempty, IndexWrite.apply, writeEffect, eraseAll]

/-- Indexing entities writes their documents. -/
theorem triple_indexEntities (entities : List (Entity × Option Embedding)) (embedder : Bool) :
    Rewrites start effect (indexEntities entities embedder)
      (writeEffect start.config embedder (entities.map fun entry => pendingEntity entry.1 entry.2)) := by
  refine triple_writeDocuments embedder ?_
  intro document hdoc
  obtain ⟨entry, _, rfl⟩ := List.mem_map.mp hdoc
  exact pendingEntity_kinded entry.1 entry.2

/-- The effect of indexing a batch of facts. -/
def factEffect (config : GraphConfig) (embedder : Bool) (facts : List (Fact × Option Embedding))
    (documents : Documents) : Documents :=
  if config.indexFacts then writeEffect config embedder (facts.map fun entry => pendingFact entry.1 entry.2) documents
  else eraseAll documents (facts.map fun entry => factDocId entry.1.id)

/-- Indexing facts writes their documents, if facts are indexed. -/
theorem triple_indexFacts (facts : List (Fact × Option Embedding)) (embedder : Bool) :
    Rewrites start effect (indexFacts facts embedder) (factEffect start.config embedder facts) := by
  unfold indexFacts factEffect
  refine Triple.inspect fun graph hgraph => ?_
  rw [hgraph.beside.config]
  split
  · refine triple_writeDocuments embedder ?_
    intro document hdoc
    obtain ⟨entry, _, rfl⟩ := List.mem_map.mp hdoc
    exact pendingFact_kinded entry.1 entry.2
  · refine triple_unlessEmpty ?_ (triple_engineWrite trivial)
    intro hempty
    simp [hempty, eraseAll]

/-- Removing an entity's document erases it. -/
theorem triple_removeEntityDocument (id : String) :
    Rewrites start effect (removeEntityDocument id) (·.erase (entityDocId id)) :=
  triple_engineWrite trivial

/-- Removing facts' documents erases them. -/
theorem triple_removeFactDocuments (ids : List String) :
    Rewrites start effect (removeFactDocuments ids) (eraseAll · (ids.map factDocId)) := by
  refine triple_unlessEmpty ?_ (triple_engineWrite trivial)
  rintro rfl
  rfl

/-- A loop of writes has the effects of its rounds one after another. -/
theorem triple_forEach {body : ι → GraphProgram Unit} {round : ι → Documents → Documents} (items : List ι)
    (hbody : ∀ item effect, Rewrites start effect (body item) (round item)) (effect : Documents → Documents) :
    Rewrites start effect (forEach items body) (items.foldl (fun documents item => round item documents) ·) := by
  induction items generalizing effect with
  | nil => exact Triple.pure fun _ h => h
  | cons item rest ih => exact Triple.bind (hbody item effect) fun _ => ih _

/-! ### Rebuilding -/

/-- The effect of dropping orphans, found in what the running engine holds. -/
def orphanEffect (memory : Documents) (liveEntityIds liveFactIds : List String) (documents : Documents) : Documents :=
  eraseAll (eraseAll documents (orphanDocIds memory "entity" "n:" liveEntityIds))
    (orphanDocIds memory "fact" "e:" liveFactIds)

/-- Dropping orphans erases the documents without a row. -/
theorem triple_dropOrphans (liveEntityIds liveFactIds : List String) :
    Rewrites start effect (dropOrphans liveEntityIds liveFactIds)
      (orphanEffect (effect start.memory) liveEntityIds liveFactIds) := by
  unfold dropOrphans
  refine Triple.inspect fun graph hgraph => ?_
  rw [hgraph.memory]
  refine Triple.via _ (triple_unlessEmpty ?_ (triple_engineWrite trivial)) ?_
  · intro hempty
    simp [hempty, IndexWrite.apply, eraseAll]
  intro _
  refine Triple.via _ (triple_unlessEmpty ?_ (triple_engineWrite trivial)) fun _ => Triple.pure fun _ h => h
  intro hempty
  simp [hempty, IndexWrite.apply, eraseAll]

/-- The effect of a rebuild. -/
def reindexEffect (graph : TemporalGraph) (documents : Documents) : Documents :=
  let entities := entityIndexRecords graph.topology
  let facts := factIndexRecords graph.topology
  (batches facts).foldl (fun documents batch => factEffect graph.config graph.embedder.isSome batch documents)
    ((batches entities).foldl (fun documents batch => writeEffect graph.config graph.embedder.isSome
        (batch.map fun entry => pendingEntity entry.1 entry.2) documents)
      (orphanEffect graph.memory (entities.map fun record => record.1.id) (facts.map fun record => record.1.id)
        documents))

/-- A rebuild that succeeds could rebuild every record, and has the effect of a rebuild. -/
theorem triple_reindexInternal (start : TemporalGraph) :
    Triple (Written start id) reindexInternal IndexStep
      (fun _ graph => checkRebuildable start = .ok () ∧ Written start (reindexEffect start) graph)
      fun _ => Beside start := by
  unfold reindexInternal
  refine Triple.via _ (triple_idle .read) ?_
  intro _
  refine Triple.inspect fun graph hread => ?_
  have hcheck : checkRebuildable graph = checkRebuildable start := by
    simp only [checkRebuildable, hread.beside.topology, hread.beside.embedder, hread.beside.config]
  rw [hread.beside.topology, hread.beside.embedder, hcheck]
  refine Triple.liftThen (fun s _ hs _ => hs.beside) fun _ hreb => ?_
  refine Triple.via _ (triple_dropOrphans _ _) ?_
  intro removed
  refine Triple.via _ (triple_forEach _ (fun batch effect => triple_indexEntities batch _) _) ?_
  intro _
  refine Triple.via _ (triple_forEach _ (fun batch effect => triple_indexFacts batch _) _) ?_
  intro _
  exact Triple.pure fun s hs => ⟨hreb, hs⟩

end LodeDB.Graph
