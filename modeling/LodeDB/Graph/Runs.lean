import LodeDB.Graph.IndexSteps

/-!
# Runs of a temporal graph

A run starts from a new store and makes one call after another: it opens the graph, changes it, closes it or dies
inside a call and opens it again. Each call comes with its time, the id it may generate and the faults of its steps.
A step leaves the tables as they are, or it commits the transaction of its call.
-/

namespace LodeDB.Graph

open TreeMapRules ExceptRules Traced Traced.Program

variable {graph : TemporalGraph} {event : GraphEvent} {effect : TemporalGraph → TemporalGraph}

variable {pre : TemporalGraph → Prop} {first : GraphProgram α} {next : α → GraphProgram β} {committed : Topology}
  {transaction : Topology → Except GraphError (Topology × α)} {beforeCommit : α → GraphProgram Unit}

/-- An operation with its arguments. -/
inductive Operation
  | addEpisode (callerId : Option String) (source body : String) (occurredAt : TimeMs) (properties : Value)
    (mentions : List String)
  | upsertEntity (id entityType label : String) (properties : Value) (validAt invalidAt : Option TimeMs)
    (sources : Table String)
  | upsertEntityVec (id entityType label : String) (properties : Value) (embedding : Embedding)
    (validAt invalidAt : Option TimeMs) (sources : Table String)
  | addFact (callerId : Option String) (new : NewFact)
  | invalidateFact (id : String) (invalidAt : Option TimeMs)
  | removeEntity (id : String)
  | removeFact (id : String)
  | removeEpisode (id : String)
  | reindex
  | persist
  | openGraph (config : GraphConfig) (embedder : Option ℕ)

/-- One call of an operation. -/
structure GraphCall where
  operation : Operation
  now : TimeMs
  generated : String
  faults : List (Option Fault)

/-- Run a program for its effect. -/
def ignoring {α : Type} (program : GraphProgram α) : GraphProgram Unit := do
  let _ ← program
  pure ()

/-- The steps of an operation. -/
def Operation.program (now : TimeMs) (generated : String) : Operation → GraphProgram Unit
  | addEpisode callerId source body occurredAt properties mentions =>
    ignoring (addEpisodeWithId now generated callerId source body occurredAt properties mentions)
  | upsertEntity id entityType label properties validAt invalidAt sources =>
    ignoring (upsertEntityWithSources now id entityType label properties validAt invalidAt sources)
  | upsertEntityVec id entityType label properties embedding validAt invalidAt sources =>
    ignoring (upsertEntityVecWithSources now id entityType label properties embedding validAt invalidAt sources)
  | addFact callerId new => ignoring (addFactInner now generated callerId new)
  | invalidateFact id invalidAt => ignoring (Graph.invalidateFact now id invalidAt)
  | removeEntity id => ignoring (Graph.removeEntity id)
  | removeFact id => ignoring (Graph.removeFact id)
  | removeEpisode id => ignoring (Graph.removeEpisode id)
  | reindex => ignoring Graph.reindex
  | persist => Graph.persist
  | openGraph config embedder => Graph.openGraph config embedder

variable (call : GraphCall)

namespace GraphCall

/-- The graph as a call finds it. -/
def start (graph : TemporalGraph) : TemporalGraph := { graph with faults := call.faults }

/-- The steps a call takes. -/
def trace (graph : TemporalGraph) : List (GraphEvent × TemporalGraph) :=
  (call.operation.program call.now call.generated (call.start graph)).1

/-- A graph is opened once, and used while it is open. -/
def Enabled (graph : TemporalGraph) : Prop :=
  match call.operation with
  | .openGraph _ _ => graph.live = false
  | _ => graph.live = true

instance (call : GraphCall) (graph : TemporalGraph) : Decidable (call.Enabled graph) := by
  unfold Enabled
  split <;> infer_instance

end GraphCall

/-- A directory without a graph. -/
def TemporalGraph.fresh : TemporalGraph := ⟨.empty, none, false, ∅, none, none, false, []⟩

/-- A graph whose process is gone. -/
def TemporalGraph.closed (graph : TemporalGraph) : TemporalGraph := { graph with live := false }

/-- The graphs between the calls of a run whose every call meets a condition. -/
inductive Reached (condition : TemporalGraph → GraphCall → Prop) : TemporalGraph → Prop
  | fresh : Reached condition .fresh
  | call {graph : TemporalGraph} (call : GraphCall) (hreached : Reached condition graph)
    (henabled : call.Enabled graph) (hcondition : condition graph call) :
    Reached condition (after (call.start graph) (call.trace graph))
  | crash {graph : TemporalGraph} (call : GraphCall) (count : ℕ) (hreached : Reached condition graph)
    (henabled : call.Enabled graph) (hcondition : condition graph call) :
    Reached condition (after (call.start graph) ((call.trace graph).take count)).closed
  | close {graph : TemporalGraph} (hreached : Reached condition graph) : Reached condition graph.closed

/-- The graphs between and inside the calls of such a run. -/
inductive Visited (condition : TemporalGraph → GraphCall → Prop) : TemporalGraph → Prop
  | between {graph : TemporalGraph} (hreached : Reached condition graph) : Visited condition graph
  | inside {graph : TemporalGraph} (call : GraphCall) (count : ℕ) (hreached : Reached condition graph)
    (henabled : call.Enabled graph) (hcondition : condition graph call) :
    Visited condition (after (call.start graph) ((call.trace graph).take count))

/-- The graph after calls made one after another. -/
def runCalls (graph : TemporalGraph) : List GraphCall → TemporalGraph
  | [] => graph
  | call :: rest => runCalls (after (call.start graph) (call.trace graph)) rest

/-- Whether each of some calls can be made where it is made. -/
def EnabledAll (graph : TemporalGraph) : List GraphCall → Prop
  | [] => True
  | call :: rest => call.Enabled graph ∧ EnabledAll (after (call.start graph) (call.trace graph)) rest

instance decidableEnabledAll (graph : TemporalGraph) : (calls : List GraphCall) → Decidable (EnabledAll graph calls)
  | [] => .isTrue trivial
  | call :: rest =>
    have : Decidable (EnabledAll (after (call.start graph) (call.trace graph)) rest) := decidableEnabledAll _ rest
    inferInstanceAs (Decidable (call.Enabled graph ∧ EnabledAll (after (call.start graph) (call.trace graph)) rest))

/-- Whether each of some calls meets a condition where it is made. -/
def MeetsAll (condition : TemporalGraph → GraphCall → Prop) (graph : TemporalGraph) : List GraphCall → Prop
  | [] => True
  | call :: rest => condition graph call ∧ MeetsAll condition (after (call.start graph) (call.trace graph)) rest

variable {condition : TemporalGraph → GraphCall → Prop}

theorem MeetsAll.of_forall (h : ∀ graph call, condition graph call) {calls : List GraphCall} :
    MeetsAll condition graph calls := by
  induction calls generalizing graph with
  | nil => trivial
  | cons call rest ih => exact ⟨h graph call, ih⟩

theorem Reached.runCalls (h : Reached condition graph) (calls : List GraphCall)
    (hen : EnabledAll graph calls) (hcond : MeetsAll condition graph calls) :
    Reached condition (runCalls graph calls) := by
  induction calls generalizing graph with
  | nil => exact h
  | cons call rest ih => exact ih (h.call call hen.1 hcond.1) hen.2 hcond.2

/-- What a new store has, faults and the end of a process do not touch, and every step of a call keeps, holds
everywhere. -/
theorem Visited.keeps {I : TemporalGraph → Prop} (hfresh : I .fresh)
    (hfaults : ∀ graph faults, I graph → I { graph with faults := faults })
    (hclosed : ∀ graph, I graph → I graph.closed)
    (hsteps : ∀ (graph : TemporalGraph) (call : GraphCall), I graph → call.Enabled graph → condition graph call →
      Steps (fun before _ next => I before → I next) (call.start graph) (call.trace graph))
    (h : Visited condition graph) : I graph := by
  have hstop {graph : TemporalGraph} (call : GraphCall) (count : ℕ) (hgraph : I graph) (hen : call.Enabled graph)
      (hcond : condition graph call) : I (after (call.start graph) ((call.trace graph).take count)) :=
    Steps.keeps (fun _ _ _ hbefore hstep => hstep hbefore) (hfaults graph call.faults hgraph)
      ((hsteps graph call hgraph hen hcond).take count)
  have hreach {graph : TemporalGraph} (h : Reached condition graph) : I graph := by
    induction h with
    | fresh => exact hfresh
    | @call graph call _ hen hcond ih =>
      have hall := hstop call (call.trace graph).length ih hen hcond
      rwa [List.take_length] at hall
    | crash call count _ hen hcond ih => exact hclosed _ (hstop call count ih hen hcond)
    | close _ ih => exact hclosed _ ih
  cases h with
  | between h => exact hreach h
  | inside call count h hen hcond => exact hstop call count (hreach h) hen hcond

/-! ### Mutations -/

/-- The indexed mutation of a call, if it gets that far: its transaction, and its writes. -/
inductive Mutates (now : TimeMs) (graph : TemporalGraph) : Operation → (α : Type) →
    (Topology → Except GraphError (Topology × α)) → (α → GraphProgram Unit) → Prop
  | upsertEntity {id entityType label : String} {properties : Value} {validAt invalidAt : Option TimeMs}
    {sources : Table String} {entity : Entity} (hfits : isRebuildable graph.embedder.isSome none entity.label = true)
    (hentity : entity = entitySnapshot graph.topology now id entityType label properties validAt invalidAt) :
    Mutates now graph (.upsertEntity id entityType label properties validAt invalidAt sources) Unit
      (fun topology => (topology.upsertEntityWithLineage entity none sources now).map fun t => (t, ()))
      fun _ => indexEntities [(entity, none)] graph.embedder.isSome
  | upsertEntityVec {id entityType label : String} {properties : Value} {embedding : Embedding}
    {validAt invalidAt : Option TimeMs} {sources : Table String} {entity : Entity}
    (hentity : entity = entitySnapshot graph.topology now id entityType label properties validAt invalidAt) :
    Mutates now graph (.upsertEntityVec id entityType label properties embedding validAt invalidAt sources) Unit
      (fun topology => (topology.upsertEntityWithLineage entity (some embedding) sources now).map fun t => (t, ()))
      fun _ => indexEntities [(entity, some embedding)] false
  | addFact {callerId : Option String} {new : NewFact} {id : String}
    (hchecked : checkNewFact graph callerId new = .ok ()) :
    Mutates now graph (.addFact callerId new) _
      (fun topology => topology.supersedeAndInsert (priorsOf graph.topology now new)
        (factRow graph.topology now id new) new.embedding)
      fun closed => indexSuperseding closed (factRow graph.topology now id new) new.embedding graph.embedder.isSome
  | invalidateFact {id : String} {invalidAt : Option TimeMs} :
    Mutates now graph (.invalidateFact id invalidAt) _ (fun topology => .ok (topology.closeFact id invalidAt now))
      (indexClosed graph.embedder.isSome)
  | removeEntity {id : String} :
    Mutates now graph (.removeEntity id) _ (fun topology => .ok (topology.removeEntity id)) fun removed =>
      removeEntityDocument id >>= fun _ => removeFactDocuments removed.2
  | removeFact {id : String} :
    Mutates now graph (.removeFact id) _ (fun topology => .ok (topology.removeFact id)) fun _ => removeFactDocuments [id]
  | removeEpisode {id : String} :
    Mutates now graph (.removeEpisode id) _ (fun topology => .ok (topology.removeEpisode id)) fun removed =>
      removeFactDocuments removed.2

/-- Whether an operation makes an indexed mutation. -/
def Operation.mutates : Operation → Bool
  | addEpisode _ _ _ _ _ _ | reindex | persist | openGraph _ _ => false
  | _ => true

variable {now : TimeMs} {generated : String} {operation : Operation} {start : TemporalGraph}
  {during : TemporalGraph → GraphEvent → TemporalGraph → Prop} {post : TemporalGraph → Prop}
  {failed : GraphError → TemporalGraph → Prop}

theorem triple_ignoring {α : Type} {program : GraphProgram α} (h : Triple pre program during (fun _ => post) failed) :
    Triple pre (ignoring program) during (fun _ => post) failed :=
  Triple.via _ h fun _ => Triple.pure fun _ hs => hs

/-- A mutating call stops before it does anything, or makes its indexed mutation. -/
theorem triple_mutating (hmut : operation.mutates = true) (hpost : post start) (hfailed : ∀ error, failed error start)
    (hmutation : ∀ {α : Type} {transaction : Topology → Except GraphError (Topology × α)}
      {beforeCommit : α → GraphProgram Unit}, Mutates now start operation α transaction beforeCommit →
      Triple (fun s => s = start) (indexedMutation transaction beforeCommit) during (fun _ => post) failed) :
    Triple (fun s => s = start) (operation.program now generated) during (fun _ => post) failed := by
  have hstops {α : Type} {returned : Except GraphError α} (s : TemporalGraph) (error : GraphError) (hs : s = start)
      (_ : returned = .error error) : failed error s := hs ▸ hfailed error
  have hthen {α β : Type} {transaction : Topology → Except GraphError (Topology × α)}
      {beforeCommit : α → GraphProgram Unit} (value : α → β)
      (h : Mutates now start operation α transaction beforeCommit) : Triple (fun s => s = start)
        (indexedMutation transaction beforeCommit >>= fun result => pure (value result)) during (fun _ => post) failed :=
    Triple.via _ (hmutation h) fun _ => Triple.pure fun _ hs => hs
  cases operation with
  | upsertEntity id entityType label properties validAt invalidAt sources =>
    refine triple_ignoring (Triple.liftThen hstops fun _ _ => Triple.lookThen (Triple.liftThen hstops ?_))
    intro _ hembedder
    refine hthen _ (.upsertEntity ?_ rfl)
    simpa [ensure_eq_ok, isRebuildable, entitySnapshot] using hembedder
  | upsertEntityVec id entityType label properties embedding validAt invalidAt sources =>
    refine triple_ignoring (Triple.liftThen hstops fun _ _ => Triple.lookThen (Triple.liftThen hstops ?_))
    exact fun _ _ => hthen _ (.upsertEntityVec rfl)
  | addFact callerId new =>
    refine triple_ignoring (Triple.lookThen (Triple.liftThen hstops fun _ hchk => ?_))
    dsimp only
    split
    · split
      · exact Triple.pure fun _ hs => hs ▸ hpost
      · exact Triple.fail _ fun _ hs => hs ▸ hfailed _
    · exact hthen _ (.addFact hchk)
  | invalidateFact id invalidAt => exact triple_ignoring (Triple.lookThen (hthen _ .invalidateFact))
  | removeEntity id => exact triple_ignoring (hthen _ .removeEntity)
  | removeFact id => exact triple_ignoring (hmutation .removeFact)
  | removeEpisode id => exact triple_ignoring (hthen _ .removeEpisode)
  | _ => cases hmut

/-- The repair of a failed mutation, from what its three steps do. -/
theorem triple_repair {α : Type} {rebuilt saved : TemporalGraph → Prop} {post : α → TemporalGraph → Prop}
    (error : GraphError)
    (hrebuild : Triple pre reindexInternal during (fun _ => rebuilt) fun _ s => ∀ text, failed (.internal text) s)
    (hpersist : Triple rebuilt persistIndex during (fun _ => saved) fun _ s => ∀ text, failed (.internal text) s)
    (hclean : Triple saved markIndexClean during (fun _ => failed error) fun _ s => ∀ text, failed (.internal text) s) :
    Triple pre (finishIndexedMutation (.error error)) during post failed := by
  refine Triple.via _ hrebuild.attempt fun repaired => ?_
  cases repaired with
  | error repairError => exact Triple.fail _ fun _ h => h.2 repairError rfl _
  | ok stats =>
    refine Triple.via _ (hpersist.weakenPre (fun _ h => h.1 stats rfl)).attempt ?_
    intro persisted
    cases persisted with
    | error repairError => exact Triple.fail _ fun _ h => h.2 repairError rfl _
    | ok _ =>
      refine Triple.via _ (hclean.weakenPre (fun _ h => h.1 () rfl)).attempt ?_
      intro marked
      cases marked with
      | error markerError => exact Triple.fail _ fun _ h => h.2 markerError rfl _
      | ok _ => exact Triple.fail _ fun _ h => h.1 () rfl

/-! ### What a step does to the tables -/

/-- A graph with the tables a call started from, or with those it committed. -/
def OneCommit (commits : Topology → Topology → Prop) (topology : Topology) (graph : TemporalGraph) : Prop :=
  graph.topology = topology ∨ commits topology graph.topology

/-- A program that never touches the tables. -/
abbrev Quiet {α : Type} (program : GraphProgram α) : Prop :=
  Triple (fun _ => True) program (fun before _ next => next.topology = before.topology) (fun _ _ => True) fun _ _ => True

theorem quiet_faulty {broken : Fault → TemporalGraph → TemporalGraph}
    (heffect : ∀ graph, (effect graph).topology = graph.topology)
    (hbroken : ∀ fault graph, (broken fault graph).topology = graph.topology) : Quiet (faulty event effect broken) :=
  triple_faulty (fun _ _ => ⟨heffect _, trivial⟩) fun _ _ _ => ⟨hbroken _ _, trivial⟩

theorem quiet_setIndexDirty (dirty : Bool) : Quiet (setIndexDirty dirty) := quiet_faulty (fun _ => rfl) fun _ _ => rfl

theorem quiet_persistIndex : Quiet persistIndex := by
  refine quiet_faulty (fun _ => rfl) ?_
  intro fault graph
  split <;> rfl

/-- A program of the index is quiet. -/
theorem quiet_of_index {α : Type} {program : GraphProgram α} {post : TemporalGraph → α → TemporalGraph → Prop}
    (h : ∀ start, Triple (Written start id) program IndexStep (post start) fun _ => Beside start) : Quiet program :=
  ⟨fun graph _ => ((h graph).steps graph (.refl graph)).imp fun _ _ _ hstep => hstep.1.topology,
    fun _ _ _ _ => trivial, fun _ _ _ _ => trivial⟩

theorem quiet_reindexInternal : Quiet reindexInternal := quiet_of_index triple_reindexInternal

theorem quiet_finishIndexedMutation {α : Type} (result : Except GraphError α) : Quiet (finishIndexedMutation result) := by
  cases result with
  | ok value => exact Triple.bind (quiet_setIndexDirty false) fun _ => .pure fun _ hs => hs
  | error error =>
    have hinternal : ∀ (_ : GraphError) (s : TemporalGraph), True → String → True := fun _ _ hs _ => hs
    exact triple_repair error (quiet_reindexInternal.weakenFailed hinternal)
      (quiet_persistIndex.weakenFailed hinternal)
      ((quiet_setIndexDirty false).weakenFailed hinternal)

/-- What an operation may commit. -/
def Operation.Commits (now : TimeMs) (before committed : Topology) : Operation → Prop
  | addEpisode _ _ _ _ _ _ => ∃ episode mentions, before.episodes[episode.id]? = none ∧
      before.upsertEpisodeWithMentions episode mentions = .ok committed
  | upsertEntity id entityType label properties validAt invalidAt sources =>
    before.upsertEntityWithLineage (entitySnapshot before now id entityType label properties validAt invalidAt) none
      sources now = .ok committed
  | upsertEntityVec id entityType label properties embedding validAt invalidAt sources =>
    before.upsertEntityWithLineage (entitySnapshot before now id entityType label properties validAt invalidAt)
      (some embedding) sources now = .ok committed
  | addFact _ new => ∃ id records, before.supersedeAndInsert (priorsOf before now new) (factRow before now id new)
      new.embedding = .ok (committed, records)
  | invalidateFact id invalidAt => committed = (before.closeFact id invalidAt now).1
  | removeEntity id => committed = (before.removeEntity id).1
  | removeFact id => committed = (before.removeFact id).1
  | removeEpisode id => committed = (before.removeEpisode id).1
  | reindex | persist => False
  | openGraph _ _ => committed = before.backfillPropertyVersions

/-- A program started on some tables commits at most once, from these tables. -/
abbrev CommitsFrom {α : Type} (commits : Topology → Topology → Prop) (topology : Topology) (program : GraphProgram α) :
    Prop :=
  Triple (fun graph => graph.topology = topology) program (fun _ _ next => OneCommit commits topology next)
    (fun _ => OneCommit commits topology) fun _ => OneCommit commits topology

section CommitsFrom

variable {α β : Type} {commits : Topology → Topology → Prop} {topology : Topology}

/-- A program that never touches the tables keeps what is known of them. -/
theorem Quiet.on {program : GraphProgram α} (h : Quiet program) (I : Topology → Prop) :
    Triple (fun graph => I graph.topology) program (fun _ _ next => I next.topology) (fun _ graph => I graph.topology)
      fun _ graph => I graph.topology :=
  (Triple.keeping h (I := fun graph => I graph.topology) (fun _ _ _ hs hnext => hnext ▸ hs) fun _ hs =>
    ⟨trivial, hs⟩).weaken (fun _ hs => hs) (fun _ _ hs => hs.2) fun _ _ hs => hs.2

theorem Quiet.commitsFrom {program : GraphProgram α} (h : Quiet program) : CommitsFrom commits topology program :=
  ((h.on fun tables => tables = topology).weakenSteps fun _ _ _ => .inl).weaken (fun _ hs => hs) (fun _ _ => .inl)
    fun _ _ => .inl

/-- After a program that commits, one that never touches the tables. -/
theorem CommitsFrom.thenQuiet (hfirst : CommitsFrom commits topology first) (hnext : ∀ value, Quiet (next value)) :
    CommitsFrom commits topology (first >>= next) :=
  Triple.bind hfirst fun value => (hnext value).on fun tables => tables = topology ∨ commits topology tables

/-- After a program that never touches the tables, one that commits. -/
theorem Quiet.thenCommits (hfirst : Quiet first) (hnext : ∀ value, CommitsFrom commits topology (next value)) :
    CommitsFrom commits topology (first >>= next) :=
  Triple.bind (((hfirst.on fun tables => tables = topology).weakenSteps fun _ _ _ => .inl).weakenFailed fun _ _ => .inl) hnext

theorem commitsFrom_commit (h : commits topology committed) : CommitsFrom commits topology (commit committed) := by
  refine triple_faulty ?_ ?_
  · rintro graph rfl
    exact ⟨.inr h, .inr h⟩
  · rintro graph fault rfl
    exact ⟨.inl rfl, .inl rfl⟩

/-- The only commit of a mutation is that of its transaction. -/
theorem commitsFrom_indexedMutation
    (htransaction : ∀ committed value, transaction topology = .ok (committed, value) → commits topology committed)
    (hbefore : ∀ value, Quiet (beforeCommit value)) :
    CommitsFrom commits topology (indexedMutation transaction beforeCommit) := by
  have htransact : CommitsFrom commits topology (transact transaction beforeCommit) := by
    refine Triple.inspect ?_
    rintro graph rfl
    refine Triple.liftThen (fun _ _ hs _ => .inl hs) fun outcome hout => (hbefore outcome.2).thenCommits fun _ => ?_
    exact (commitsFrom_commit (htransaction outcome.1 outcome.2 hout)).thenQuiet fun _ => .pure fun _ hs => hs
  refine (quiet_setIndexDirty true).thenCommits fun _ => CommitsFrom.thenQuiet ?_ quiet_finishIndexedMutation
  refine htransact.attempt.weakenPost ?_
  intro returned s hs
  cases returned with
  | ok value => exact hs.1 value rfl
  | error error => exact hs.2 error rfl

end CommitsFrom

theorem quiet_indexEntities (entities : List (Entity × Option Embedding)) (embedder : Bool) :
    Quiet (indexEntities entities embedder) := quiet_of_index fun _ => triple_indexEntities entities embedder

theorem quiet_indexFacts (facts : List (Fact × Option Embedding)) (embedder : Bool) :
    Quiet (indexFacts facts embedder) := quiet_of_index fun _ => triple_indexFacts facts embedder

theorem quiet_removeFactDocuments (ids : List String) : Quiet (removeFactDocuments ids) :=
  quiet_of_index fun _ => triple_removeFactDocuments ids

/-- A mutation writes nothing but the index before it commits. -/
theorem Mutates.quiet (h : Mutates now start operation α transaction beforeCommit) (value : α) :
    Quiet (beforeCommit value) := by
  cases h with
  | upsertEntity hfits hent => exact quiet_indexEntities _ _
  | upsertEntityVec hent => exact quiet_indexEntities _ _
  | addFact hchk => exact quiet_of_index fun _ => triple_forEach _ (fun batch _ => triple_indexFacts batch _) _
  | invalidateFact =>
    cases value with
    | none => exact .pure fun _ hs => hs
    | some record => exact quiet_indexFacts _ _
  | removeEntity =>
    exact Triple.bind (quiet_of_index fun _ => triple_removeEntityDocument _) fun _ => quiet_removeFactDocuments _
  | removeFact => exact quiet_removeFactDocuments _
  | removeEpisode => exact quiet_removeFactDocuments _

/-- The transaction of a mutation commits what the operation may commit. -/
theorem Mutates.commits (h : Mutates now start operation α transaction beforeCommit) {value : α}
    (hok : transaction start.topology = .ok (committed, value)) : operation.Commits now start.topology committed := by
  have hfirst {result : Topology × α} (hr : .ok result = (.ok (committed, value) : Except GraphError _)) :
      committed = result.1 := (congrArg Prod.fst (Except.ok.inj hr)).symm
  cases h with
  | upsertEntity hfits hent | upsertEntityVec hent =>
    obtain ⟨snapshot, hsnapshot, heq⟩ := map_eq_ok.mp hok
    cases heq
    subst hent
    exact hsnapshot
  | addFact hchk => exact ⟨_, value, hok⟩
  | invalidateFact | removeEntity | removeFact | removeEpisode => exact hfirst hok

theorem quiet_rebuildThen {α : Type} {next : ReindexStats → GraphProgram α} (hnext : ∀ stats, Quiet (next stats)) :
    Quiet (reindexInternal >>= fun stats => persistIndex >>= fun _ => next stats) :=
  Triple.bind quiet_reindexInternal fun stats => Triple.bind quiet_persistIndex fun _ => hnext stats

theorem quiet_repairIndexIfDirty : Quiet repairIndexIfDirty := by
  refine Triple.inspect fun graph _ => ?_
  split
  · exact quiet_rebuildThen fun _ => quiet_setIndexDirty false
  · exact .pure fun _ hs => hs

theorem quiet_perform (h : ∀ graph, (effect graph).topology = graph.topology) :
    Quiet (perform event effect : GraphProgram Unit) := .perform fun graph _ => ⟨h graph, trivial⟩

theorem quiet_markIfCreated (created : Bool) : Quiet (markIfCreated created) := by
  unfold markIfCreated
  split
  · exact quiet_setIndexDirty true
  · exact .pure fun _ hs => hs

/-- An operation leaves the tables as they are or commits its transaction, once. -/
theorem commitsFrom_program (now : TimeMs) (generated : String) (operation : Operation) (start : TemporalGraph) :
    Triple (fun s => s = start) (operation.program now generated)
      (fun _ _ next => OneCommit (fun before committed => operation.Commits now before committed) start.topology next)
      (fun _ => OneCommit (fun before committed => operation.Commits now before committed) start.topology)
      fun _ => OneCommit (fun before committed => operation.Commits now before committed) start.topology := by
  have hstart : ∀ s, s = start → s.topology = start.topology := fun _ hs => hs ▸ rfl
  by_cases hmut : operation.mutates = true
  · refine triple_mutating hmut (.inl rfl) (fun _ => .inl rfl) fun h => ?_
    exact (commitsFrom_indexedMutation (fun _ _ hok => h.commits hok) h.quiet).weakenPre hstart
  suffices h : CommitsFrom _ start.topology _ from h.weakenPre hstart
  cases operation with
  | addEpisode callerId source body occurredAt properties mentions =>
    refine triple_ignoring (Triple.liftThen (fun _ _ hs _ => .inl hs) fun _ _ => Triple.inspect fun graph hgraph => ?_)
    rw [← hgraph]
    split
    · split
      · exact Quiet.commitsFrom (.pure fun _ hs => hs)
      · exact Quiet.commitsFrom (.fail _ fun _ hs => hs)
    · rename_i hfree
      refine Triple.liftThen (fun _ _ hs _ => .inl hs) fun committed hcom => ?_
      exact CommitsFrom.thenQuiet (commitsFrom_commit ⟨_, _, hfree, hcom⟩) fun _ => .pure fun _ hs => hs
  | reindex =>
    refine Quiet.commitsFrom (triple_ignoring (Triple.bind (quiet_setIndexDirty true) fun _ => ?_))
    exact quiet_rebuildThen fun _ => Triple.bind (quiet_setIndexDirty false) fun _ => .pure fun _ hs => hs
  | persist => exact Quiet.commitsFrom (Triple.bind quiet_persistIndex fun _ => quiet_setIndexDirty false)
  | openGraph config embedder =>
    refine Triple.liftThen (fun _ _ hs _ => .inl hs) fun _ _ => CommitsFrom.thenQuiet (triple_faulty ?_ ?_) ?_
    · exact fun graph hs => ⟨.inr (hs ▸ rfl), .inr (hs ▸ rfl)⟩
    · exact fun graph fault hs => ⟨.inl hs, .inl hs⟩
    · refine fun _ => Triple.inspect fun graph _ => Triple.liftThen (fun _ _ hs _ => hs) fun _ _ => ?_
      refine Triple.bind (quiet_faulty (fun _ => rfl) fun _ _ => rfl) fun _ => ?_
      refine Triple.bind (quiet_faulty (fun _ => rfl) fun _ _ => rfl) fun _ => ?_
      refine Triple.bind (quiet_perform fun _ => rfl) fun _ => Triple.bind (quiet_markIfCreated _) fun _ => ?_
      exact Triple.bind quiet_repairIndexIfDirty fun _ => quiet_perform fun _ => rfl
  | _ => exact absurd rfl hmut

/-- Wherever a call stops, the tables are its first ones or its transaction's. -/
theorem GraphCall.commits (graph : TemporalGraph) :
    Steps (fun _ _ next => OneCommit (fun before committed => call.operation.Commits call.now before committed)
      graph.topology next) (call.start graph) (call.trace graph) :=
  (commitsFrom_program call.now call.generated call.operation (call.start graph)).steps _ rfl

/-- The tables after a call. -/
theorem GraphCall.commits_after (graph : TemporalGraph) :
    OneCommit (fun before committed => call.operation.Commits call.now before committed) graph.topology
      (after (call.start graph) (call.trace graph)) :=
  Steps.keeps (fun _ _ _ _ hnext => hnext) (.inl rfl) (call.commits graph)

end LodeDB.Graph
