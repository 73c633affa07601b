import LodeDB.Graph.History
import LodeDB.Graph.Mirrored

/-!
# The index while its marker is clear

A clear marker should say that the index is the mirror of the tables. A mutation sets the marker, writes the index
inside its transaction, and clears the marker at the end: that is sound if the marker was clear before, and if every
fact it writes again can be embedded. A mutation or a checkpoint that begins with the marker set clears it although
nothing was rebuilt.
-/

namespace LodeDB.Graph

open TreeMapRules ExceptRules Traced Traced.Program LodeDB.Graph.Topology

variable {now : TimeMs}

/-- The tables are linked, the documents are under ids of their kinds, and a clear marker is right. -/
structure Sound (graph : TemporalGraph) : Prop where
  linked : Linked graph.topology
  kinded : KindedIndex graph
  created : graph.live = true → graph.durable.isSome = true
  mirrored : graph.indexDirty = false → graph.durable.getD ∅ = mirror graph.config graph.topology ∧
    (graph.live = true → graph.memory = mirror graph.config graph.topology)

/-- The marker is set. -/
structure Dirty (graph : TemporalGraph) : Prop where
  sound : Sound graph
  dirty : graph.indexDirty = true

/-- The marker is set, but the running engine holds the mirror. -/
structure Rebuilt (graph : TemporalGraph) : Prop extends Dirty graph where
  memory : graph.memory = mirror graph.config graph.topology

/-- The marker is set, but the mirror is on disk. -/
structure Saved (graph : TemporalGraph) : Prop extends Rebuilt graph where
  durable : graph.durable = some graph.memory

/-- The marker is clear, and the mirror is everywhere. -/
structure Ready (graph : TemporalGraph) : Prop where
  sound : Sound graph
  clean : graph.indexDirty = false
  memory : graph.memory = mirror graph.config graph.topology
  durable : graph.durable = some graph.memory

variable {α : Type}

/-- A program whose every step leaves a sound graph. -/
abbrev Soundly (pre : TemporalGraph → Prop) (program : GraphProgram α) (post : TemporalGraph → Prop)
    (failed : TemporalGraph → Prop := Sound) : Prop :=
  Triple pre program (fun _ _ next => Sound next) (fun _ => post) fun _ => failed

section Steps

variable {graph : TemporalGraph}

theorem Sound.withFaults (h : Sound graph) (faults : List (Option Fault)) : Sound { graph with faults := faults } :=
  ⟨h.linked, h.kinded, h.created, h.mirrored⟩

theorem Dirty.withFaults (h : Dirty graph) (faults : List (Option Fault)) : Dirty { graph with faults := faults } :=
  ⟨h.sound.withFaults faults, h.dirty⟩

/-- An open graph with a clear marker. -/
theorem Sound.ready (h : Sound graph) (hlive : graph.live = true) (hclean : graph.indexDirty = false) : Ready graph := by
  obtain ⟨hdur, hmemory⟩ := h.mirrored hclean
  obtain ⟨documents, hdocs⟩ := Option.isSome_iff_exists.mp (h.created hlive)
  rw [hdocs, Option.getD_some] at hdur
  exact ⟨h, hclean, hmemory hlive, by rw [hdocs, hdur, hmemory hlive]⟩

/-- While the marker is set, a step of the index leaves a sound graph. -/
theorem Dirty.indexStep (h : Dirty graph) {event : GraphEvent} {next : TemporalGraph}
    (hstep : IndexStep graph event next) : Dirty next := by
  obtain ⟨hbeside, hkinded, hcr⟩ := hstep
  have hdirty : next.indexDirty = true := hbeside.indexDirty.trans h.dirty
  refine ⟨⟨?_, hkinded h.sound.kinded, ?_, ?_⟩, hdirty⟩
  · rw [hbeside.topology]
    exact h.sound.linked
  · intro hlive
    rw [hbeside.live] at hlive
    exact hcr (h.sound.created hlive)
  · intro hclean
    rw [hdirty] at hclean
    cases hclean

/-- A program of the index, while the marker is set. -/
theorem Dirty.triple {α : Type} {program : GraphProgram α} {post : α → TemporalGraph → Prop} (h : Dirty graph)
    (hprog : Triple (Written graph id) program IndexStep post fun _ => Beside graph) :
    Triple (fun s => s = graph) program (fun _ _ next => Sound next) (fun value s => post value s ∧ Dirty s)
      fun _ => Dirty := by
  refine ((hprog.keeping (fun _ _ _ hs hstep => hs.indexStep hstep) ?_).weakenSteps
    fun _ _ _ hs => hs.sound).weakenFailed fun _ _ hs => hs.2
  rintro s rfl
  exact ⟨.refl s, h⟩

/-- A step whose failure changes nothing. -/
theorem soundly_faulty {event : GraphEvent} {effect : TemporalGraph → TemporalGraph} {pre post : TemporalGraph → Prop}
    (hpre : ∀ graph, pre graph → Sound graph)
    (h : ∀ graph, pre graph → Sound (effect { graph with faults := graph.faults.tail }) ∧
      post (effect { graph with faults := graph.faults.tail })) :
    Soundly pre (faulty event effect fun _ graph => graph) post := by
  refine triple_faulty h fun graph fault hgraph => ?_
  exact ⟨(hpre graph hgraph).withFaults _, (hpre graph hgraph).withFaults _⟩

/-- Setting the marker. -/
theorem Sound.marked (h : Sound graph) : Dirty { graph with indexDirty := true } :=
  ⟨⟨h.linked, h.kinded, h.created, fun hclean => by cases hclean⟩, rfl⟩

end Steps

/-! ### Rebuilding -/

theorem triple_reindexInternal_rebuilt : Soundly Dirty reindexInternal Rebuilt Dirty := by
  refine Triple.named fun start hstart => ?_
  refine (hstart.triple (triple_reindexInternal start)).weakenPost ?_
  rintro _ s ⟨⟨hcheck, hwr⟩, hdirty⟩
  refine ⟨hdirty, ?_⟩
  rw [hwr.memory, (reindexEffect_eq_mirror_iff hstart.sound.linked.keyed hcheck).mpr
    (hstart.sound.kinded.1.replaceable _), hwr.beside.config, hwr.beside.topology]

variable {graph : TemporalGraph}

/-- A checkpoint of a graph whose engine holds the mirror. -/
theorem Dirty.checkpoint (h : Dirty graph) :
    Dirty { graph with durable := some graph.memory } := by
  refine ⟨⟨h.sound.linked, ⟨h.sound.kinded.1, ?_⟩, fun _ => rfl, ?_⟩, h.dirty⟩
  · intro documents hdocs
    cases hdocs
    exact h.sound.kinded.1
  · intro hclean
    rw [h.dirty] at hclean
    cases hclean

theorem triple_persistIndex_saved : Soundly Rebuilt persistIndex Saved Dirty := by
  refine triple_faulty ?_ ?_
  · intro graph h
    have hdirty := (h.toDirty.withFaults graph.faults.tail).checkpoint
    exact ⟨hdirty.sound, ⟨⟨hdirty, h.memory⟩, rfl⟩⟩
  · intro graph fault h
    have hdirty := h.toDirty.withFaults graph.faults.tail
    dsimp only
    split
    · exact ⟨hdirty.checkpoint.sound, hdirty.checkpoint⟩
    · exact ⟨hdirty.sound, hdirty⟩

/-- Clearing the marker over a saved mirror. -/
theorem Saved.cleared (h : Saved graph) (faults : List (Option Fault)) :
    Ready { graph with faults := faults, indexDirty := false } := by
  refine ⟨⟨h.sound.linked, h.sound.kinded, h.sound.created, fun _ => ⟨?_, fun _ => h.memory⟩⟩, rfl, h.memory, h.durable⟩
  change graph.durable.getD ∅ = mirror graph.config graph.topology
  rw [h.durable, Option.getD_some, h.memory]

theorem triple_markIndexClean : Soundly Saved markIndexClean Ready := by
  unfold markIndexClean setIndexDirty
  refine soundly_faulty (fun _ h => h.sound) fun graph h => ?_
  exact ⟨(h.cleared graph.faults.tail).sound, h.cleared graph.faults.tail⟩

/-- What follows a rebuild and its checkpoint starts from a saved mirror. -/
theorem triple_rebuildThen {next : ReindexStats → GraphProgram α} {post : TemporalGraph → Prop}
    (hnext : ∀ stats, Soundly Saved (next stats) post) :
    Soundly Dirty (reindexInternal >>= fun stats => persistIndex >>= fun _ => next stats) post := by
  refine Triple.via _ (triple_reindexInternal_rebuilt.weakenFailed fun _ _ h => h.sound) ?_
  intro stats
  exact Triple.via _ (triple_persistIndex_saved.weakenFailed fun _ _ h => h.sound) fun _ =>
    hnext stats

/-- A mutation that succeeded clears the marker; one that failed rebuilds. -/
theorem triple_finishIndexedMutation (result : Except GraphError α) :
    Soundly (fun s => (∀ value, result = .ok value → Saved s) ∧ ∀ error, result = .error error → Dirty s)
      (finishIndexedMutation result) Sound := by
  cases result with
  | ok value =>
    refine Triple.via (fun _ => Ready) (triple_markIndexClean.weakenPre (fun _ h => h.1 value rfl)) fun _ =>
      Triple.pure fun _ h => h.sound
  | error error =>
    exact triple_repair error
      (triple_reindexInternal_rebuilt.weaken (fun _ h => h.2 error rfl) (fun _ _ h => h) fun _ _ h _ => h.sound)
      (triple_persistIndex_saved.weakenFailed fun _ _ h _ => h.sound)
      (triple_markIndexClean.weaken (fun _ h => h) (fun _ _ h => h.sound) fun _ _ h _ => h)

/-! ### Mutations -/

variable {start : TemporalGraph}

/-- Setting the marker over the mirror. -/
theorem triple_markIndexDirty (h : Ready start) :
    Soundly (fun s => s = start) markIndexDirty fun s =>
      Saved s ∧ s.topology = start.topology ∧ s.configuration = start.configuration := by
  unfold markIndexDirty setIndexDirty
  refine soundly_faulty (fun _ hs => hs ▸ h.sound) ?_
  rintro s rfl
  have hdirty := (h.sound.withFaults s.faults.tail).marked
  exact ⟨hdirty.sound, ⟨⟨hdirty, h.memory⟩, h.durable⟩, rfl, rfl⟩

section Mutation

variable {α : Type} {transaction : Topology → Except GraphError (Topology × α)} {beforeCommit : α → GraphProgram Unit}

/-- What makes the writes before a commit right: they turn the mirror of the tables into that of the committed ones. -/
structure WritesMirror (config : GraphConfig) (topology : Topology)
    (transaction : Topology → Except GraphError (Topology × α)) (beforeCommit : α → GraphProgram Unit) : Prop where
  linked : ∀ committed value, transaction topology = .ok (committed, value) → Linked committed
  writes : ∀ committed value, transaction topology = .ok (committed, value) → ∀ start : TemporalGraph,
    start.config = config → ∃ effect : Documents → Documents, effect (mirror config topology) = mirror config committed ∧
      Triple (Written start id) (beforeCommit value) IndexStep (fun _ => Written start effect) fun _ => Beside start

theorem triple_transact {start : TemporalGraph} (h : Saved start)
    (hwrites : WritesMirror start.config start.topology transaction beforeCommit) :
    Soundly (fun s => s = start) (transact transaction beforeCommit) Saved Dirty := by
  refine Triple.lookThen (Triple.liftThen ?_ ?_)
  · rintro s error rfl _
    exact h.toDirty
  rintro ⟨committed, value⟩ hok
  obtain ⟨effect, heffect, hprog⟩ := hwrites.writes committed value hok start rfl
  refine Triple.via _ (h.toDirty.triple hprog) ?_
  intro _
  refine Triple.via (fun _ => Saved) (triple_faulty ?_ ?_) fun _ => Triple.pure fun _ hs => hs
  · rintro s ⟨hwr, hdirty⟩
    have hsound : Sound { s with faults := s.faults.tail, topology := committed } := by
      refine ⟨hwrites.linked committed value hok, hdirty.sound.kinded, hdirty.sound.created, ?_⟩
      intro hclean
      exact absurd hdirty.dirty (by simpa using hclean)
    refine ⟨hsound, ⟨⟨⟨hsound, hdirty.dirty⟩, ?_⟩, ?_⟩⟩
    · change s.memory = mirror s.config committed
      rw [hwr.memory, h.memory, heffect, hwr.beside.config]
    · change s.durable = some s.memory
      rw [hwr.durable, hwr.memory, h.durable]
      rfl
  · rintro s fault ⟨_, hdirty⟩
    have hkept := hdirty.withFaults s.faults.tail
    exact ⟨hkept.sound, hkept⟩

/-- A mutation that begins with the marker clear and writes the mirror. -/
theorem triple_indexedMutation {start : TemporalGraph} (h : Ready start)
    (hwrites : WritesMirror start.config start.topology transaction beforeCommit) :
    Soundly (fun s => s = start) (indexedMutation transaction beforeCommit) Sound := by
  refine Triple.via _ (triple_markIndexDirty h) ?_
  intro _
  refine Triple.via _ (Triple.attempt (Triple.named ?_)) triple_finishIndexedMutation
  rintro s ⟨hsaved, htopology, hconf⟩
  have hconfig : s.config = start.config := by rw [TemporalGraph.config, hconf, TemporalGraph.config]
  exact triple_transact hsaved (by rwa [htopology, hconfig])

end Mutation

/-! ### The operations -/

theorem writesMirror_entity {config : GraphConfig} {topology : Topology} (hlink : Linked topology)
    {entity : Entity} {vector : Option Embedding} {sources : Table String} {embedder : Bool}
    (hfits : isRebuildable embedder vector entity.label = true) :
    WritesMirror config topology
      (fun topology => (topology.upsertEntityWithLineage entity vector sources now).map fun t => (t, ()))
      fun _ => indexEntities [(entity, vector)] embedder := by
  have hcom {committed : Topology} {value : Unit}
      (hok : (topology.upsertEntityWithLineage entity vector sources now).map (fun t => (t, ())) =
        .ok (committed, value)) : topology.upsertEntityWithLineage entity vector sources now = .ok committed := by
    obtain ⟨snapshot, hsnapshot, heq⟩ := map_eq_ok.mp hok
    cases heq
    exact hsnapshot
  refine ⟨fun committed value hok => hlink.upsertEntityWithLineage (hcom hok), ?_⟩
  rintro committed value hok start rfl
  exact ⟨_, mirror_upsertEntity (hcom hok) hfits, triple_indexEntities [(entity, vector)] embedder⟩

/-- Closed facts are written again: with their vectors, or embedded again. -/
def Rewritable (graph : TemporalGraph) (ids : List String) : Prop :=
  ∀ id ∈ ids, ∀ fact, graph.topology.facts[id]? = some fact → fact.expiredAt = none → graph.config.indexFacts = true →
    isRebuildable graph.embedder.isSome graph.topology.factVectors[id]? fact.fact = true

/-- With an embedder every fact can be written again. -/
theorem rewritable_of_embedder (h : graph.embedder.isSome = true) (ids : List String) :
    Rewritable graph ids := by
  intro id _ fact _ _ _
  simp [isRebuildable, h]

theorem writesMirror_supersede (hlink : Linked graph.topology) {id : String} {new : NewFact}
    (hnew : graph.config.indexFacts = true → isRebuildable graph.embedder.isSome new.embedding new.factText = true)
    (hrewritable : Rewritable graph new.invalidates) :
    WritesMirror graph.config graph.topology
      (fun topology => topology.supersedeAndInsert (priorsOf graph.topology now new) (factRow graph.topology now id new)
        new.embedding)
      fun closed => indexSuperseding closed (factRow graph.topology now id new) new.embedding graph.embedder.isSome := by
  have hids : (priorsOf graph.topology now new).map Prior.id = new.invalidates.reverse.dedup.reverse := by
    rw [priorsOf, List.map_map]
    exact List.map_id _
  refine ⟨fun committed records hok => hlink.supersedeAndInsert hok, ?_⟩
  intro committed records hok start hconfig
  refine ⟨fun documents => (batches ((records.map fun record => (record.fact, record.vector)) ++
    [(factRow graph.topology now id new, new.embedding)])).foldl
      (fun documents batch => factEffect graph.config graph.embedder.isSome batch documents) documents, ?_, ?_⟩
  · refine mirror_supersedeAndInsert hlink ?_ hok hnew ?_
    · rw [hids, List.nodup_reverse]
      exact List.nodup_dedup _
    · intro prior hprior
      have hmem : prior.id ∈ (priorsOf graph.topology now new).map Prior.id := List.mem_map_of_mem hprior
      rw [hids, List.mem_reverse, List.mem_dedup, List.mem_reverse] at hmem
      exact hrewritable prior.id hmem
  · rw [← hconfig]
    exact triple_forEach _ (fun batch effect => triple_indexFacts batch graph.embedder.isSome) _

theorem writesMirror_close (hlink : Linked graph.topology) {id : String} {invalidAt : Option TimeMs}
    (hrewritable : Rewritable graph [id]) :
    WritesMirror graph.config graph.topology (fun topology => .ok (topology.closeFact id invalidAt now))
      (indexClosed graph.embedder.isSome) := by
  refine ⟨?_, ?_⟩
  · intro committed closed hok
    have hlinkedClosed := hlink.closeFact id invalidAt now
    rwa [Except.ok.inj hok] at hlinkedClosed
  · intro committed closed hok start hconfig
    have hclosed := Except.ok.inj hok
    cases closed with
    | none =>
      obtain rfl := closeFact_eq_none hclosed
      exact ⟨_, rfl, Triple.pure fun _ h => h⟩
    | some record =>
      refine ⟨factEffect graph.config (record.vector.isNone && graph.embedder.isSome) [(record.fact, record.vector)],
        mirror_closeFact hlink hclosed ?_, ?_⟩
      · obtain ⟨fact, hfact, hopen, rfl, _⟩ := closeFact_eq_some hclosed
        intro hindex
        have hreb := hrewritable id List.mem_cons_self fact hfact hopen hindex
        cases hvec : graph.topology.factVectors[id]? <;> simp_all [isRebuildable]
      · rw [← hconfig]
        exact triple_indexFacts _ _

/-- A transaction that always commits. -/
theorem WritesMirror.of_ok {config : GraphConfig} {topology : Topology}
    {transaction : Topology → Topology × α} {beforeCommit : α → GraphProgram Unit} {effect : Documents → Documents}
    (hlink : Linked (transaction topology).1)
    (hmirror : effect (mirror config topology) = mirror config (transaction topology).1)
    (hprog : ∀ start : TemporalGraph, Triple (Written start id) (beforeCommit (transaction topology).2) IndexStep
      (fun _ => Written start effect) fun _ => Beside start) :
    WritesMirror config topology (fun topology => .ok (transaction topology)) beforeCommit := by
  refine ⟨?_, ?_⟩
  · intro committed value hok
    rwa [Except.ok.inj hok] at hlink
  · intro committed value hok start _
    rw [Except.ok.inj hok] at hmirror hprog
    exact ⟨effect, hmirror, hprog start⟩

section Removals

variable {config : GraphConfig} {topology : Topology}

theorem writesMirror_removeEntity (hlink : Linked topology) (id : String) :
    WritesMirror config topology (fun topology => .ok (topology.removeEntity id)) fun removed =>
      removeEntityDocument id >>= fun _ => removeFactDocuments removed.2 :=
  .of_ok (hlink.removeEntity id) (mirror_removeEntity id) fun _ =>
    Triple.via _ (triple_removeEntityDocument id) fun _ => triple_removeFactDocuments _

theorem writesMirror_removeFact (hlink : Linked topology) (id : String) :
    WritesMirror config topology (fun topology => .ok (topology.removeFact id)) fun _ => removeFactDocuments [id] :=
  .of_ok (hlink.removeFact id) (mirror_removeFact id) fun _ => triple_removeFactDocuments _

theorem writesMirror_removeEpisode (hlink : Linked topology) (id : String) :
    WritesMirror config topology (fun topology => .ok (topology.removeEpisode id)) fun removed =>
      removeFactDocuments removed.2 :=
  .of_ok (hlink.removeEpisode id) (mirror_removeEpisode id) fun _ => triple_removeFactDocuments _

end Removals

/-- A checkpoint of a graph whose marker is clear. -/
theorem triple_persist : Soundly Ready persist Sound := by
  have hkept {graph : TemporalGraph} (h : Ready graph) (faults : List (Option Fault)) :
      Ready { graph with faults := faults } := ⟨h.sound.withFaults faults, h.clean, h.memory, h.durable⟩
  have hcheckpoint {graph : TemporalGraph} (h : Ready graph) : Ready { graph with durable := some graph.memory } := by
    rw [← h.durable]
    exact h
  refine Triple.via (fun _ => Ready) (triple_faulty ?_ ?_) ?_
  · intro graph h
    have hready := hcheckpoint (hkept h graph.faults.tail)
    exact ⟨hready.sound, hready⟩
  · intro graph fault h
    have hready := hkept h graph.faults.tail
    dsimp only
    split
    · exact ⟨(hcheckpoint hready).sound, (hcheckpoint hready).sound⟩
    · exact ⟨hready.sound, hready.sound⟩
  · intro _
    unfold markIndexClean setIndexDirty
    refine soundly_faulty (fun _ h => h.sound) fun graph h => ?_
    have hready := hkept h graph.faults.tail
    have hclean : { graph with faults := graph.faults.tail, indexDirty := false } =
        { graph with faults := graph.faults.tail } := by rw [← h.clean]
    rw [hclean]
    exact ⟨hready.sound, hready.sound⟩

theorem triple_reindex : Soundly Sound reindex Sound := by
  refine Triple.via (fun _ => Dirty) ?_ fun _ => triple_rebuildThen fun stats =>
    Triple.via _ triple_markIndexClean fun _ => Triple.pure fun _ h => h.sound
  unfold markIndexDirty setIndexDirty
  refine soundly_faulty (fun _ h => h) fun graph h => ?_
  exact ⟨(h.withFaults graph.faults.tail).marked.sound, (h.withFaults graph.faults.tail).marked⟩

/-! ### Opening -/

/-- A graph whose engine has read what is on disk. -/
structure Loaded (onDisk : Option Documents) (graph : TemporalGraph) : Prop where
  sound : Sound graph
  durable : graph.durable = onDisk
  memory : graph.memory = onDisk.getD ∅

theorem triple_openTopology : Soundly Sound openTopology Sound := by
  refine soundly_faulty (fun _ h => h) fun graph h => ?_
  have hsound := h.withFaults graph.faults.tail
  simp only [h.linked.backfillPropertyVersions_eq]
  exact ⟨hsound, hsound⟩

theorem triple_openIndex (h : Sound start) :
    Soundly (fun s => s = start) openIndex (Loaded start.durable) := by
  refine soundly_faulty (fun _ hs => hs ▸ h) ?_
  rintro s rfl
  have hsound : Sound { s with faults := s.faults.tail, memory := s.durable.getD ∅ } := by
    refine ⟨h.linked, ⟨?_, h.kinded.2⟩, h.created, ?_⟩
    · cases hdur : s.durable with
      | none => exact kinded_empty
      | some documents => exact h.kinded.2 documents hdur
    · exact fun hclean => ⟨(h.mirrored hclean).1, fun _ => (h.mirrored hclean).1⟩
  exact ⟨hsound, hsound, rfl, rfl⟩

/-- A new configuration comes with the marker. -/
theorem triple_configure (config : GraphConfig) (onDisk : Option Documents) :
    Soundly (Loaded onDisk) (configure config) (Loaded onDisk) := by
  refine soundly_faulty (fun _ h => h.sound) fun graph h => ?_
  have hsound : Sound { graph with
      faults := graph.faults.tail
      configuration := some (graph.configuration.getD config)
      indexDirty := graph.indexDirty || graph.configuration.isNone } := by
    refine ⟨h.sound.linked, h.sound.kinded, h.sound.created, ?_⟩
    intro hclean
    obtain ⟨hmarker, hconfigured⟩ := Bool.or_eq_false_iff.mp hclean
    have hmir := h.sound.mirrored hmarker
    cases hconf : graph.configuration with
    | none =>
      rw [hconf] at hconfigured
      cases hconfigured
    | some stored =>
      rw [TemporalGraph.config, hconf] at hmir
      exact hmir
  exact ⟨hsound, hsound, h.durable, h.memory⟩

theorem triple_attachEmbedder (embedder : Option ℕ) (onDisk : Option Documents) :
    Soundly (Loaded onDisk) (attachEmbedder embedder) (Loaded onDisk) := by
  refine .perform fun graph h => ?_
  have hsound : Sound { graph with embedder := embedder } :=
    ⟨h.sound.linked, h.sound.kinded, h.sound.created, h.sound.mirrored⟩
  exact ⟨hsound, hsound, h.durable, h.memory⟩

/-- After this, a marker that is clear stands over an index that is there. -/
theorem triple_markIfCreated (onDisk : Option Documents) :
    Soundly (Loaded onDisk) (markIfCreated onDisk.isNone) fun s => Sound s ∧ (s.indexDirty = false → Ready s) := by
  unfold markIfCreated
  split
  · unfold markIndexDirty setIndexDirty
    refine soundly_faulty (fun _ h => h.sound) fun graph h => ?_
    have hdirty := (h.sound.withFaults graph.faults.tail).marked
    exact ⟨hdirty.sound, hdirty.sound, fun hclean => by cases hclean⟩
  · rename_i hsome
    refine Triple.pure fun graph h => ⟨h.sound, fun hclean => ?_⟩
    obtain ⟨hmir, _⟩ := h.sound.mirrored hclean
    cases onDisk with
    | none => exact absurd rfl hsome
    | some documents =>
      rw [h.durable] at hmir
      exact ⟨h.sound, hclean, h.memory.trans hmir, by rw [h.durable, h.memory]; rfl⟩

theorem triple_repairIndexIfDirty :
    Soundly (fun s => Sound s ∧ (s.indexDirty = false → Ready s)) repairIndexIfDirty Ready := by
  refine Triple.named fun start hstart => Triple.lookThen ?_
  split
  · rename_i hdirty
    refine (triple_rebuildThen fun _ => triple_markIndexClean).weakenPre ?_
    rintro s rfl
    exact ⟨hstart.1, hdirty⟩
  · rename_i hdirty
    refine Triple.pure ?_
    rintro s rfl
    exact hstart.2 (Bool.not_eq_true _ ▸ hdirty)

theorem triple_goLive : Soundly Ready goLive Sound := by
  refine .perform fun graph h => ?_
  have hsound : Sound { graph with live := true } := by
    refine ⟨h.sound.linked, h.sound.kinded, fun _ => by rw [h.durable]; rfl, ?_⟩
    exact fun hclean => ⟨(h.sound.mirrored hclean).1, fun _ => h.memory⟩
  exact ⟨hsound, hsound⟩

theorem triple_openGraph (config : GraphConfig) (embedder : Option ℕ) :
    Soundly Sound (openGraph config embedder) Sound := by
  refine Triple.liftThen (fun _ _ h _ => h) fun _ _ => Triple.via _ triple_openTopology fun _ => ?_
  refine Triple.named fun start hstart => Triple.lookThen ?_
  refine Triple.liftThen ?_ fun _ _ => ?_
  · rintro s error rfl _
    exact hstart
  refine Triple.via _ (triple_openIndex hstart) fun _ => ?_
  refine Triple.via _ (triple_configure config _) fun _ => ?_
  refine Triple.via _ (triple_attachEmbedder embedder _) fun _ => ?_
  refine Triple.via _ (triple_markIfCreated _) fun _ => ?_
  exact Triple.via _ triple_repairIndexIfDirty fun _ => triple_goLive

/-! ### Runs -/

/-- A call that keeps the marker right: it begins with the marker clear, and the facts it closes can be written
again. -/
def KeepsMarker (graph : TemporalGraph) (call : GraphCall) : Prop :=
  match call.operation with
  | .addEpisode _ _ _ _ _ _ | .reindex | .openGraph _ _ => True
  | .upsertEntity _ _ _ _ _ _ _ | .upsertEntityVec _ _ _ _ _ _ _ _ | .removeEntity _ | .removeFact _
  | .removeEpisode _ | .persist => graph.indexDirty = false
  | .addFact _ new => graph.indexDirty = false ∧ Rewritable graph new.invalidates
  | .invalidateFact id _ => graph.indexDirty = false ∧ Rewritable graph [id]

/-- A new fact has a vector, or its text is embedded, or it has no document. -/
theorem checkNewFact_rebuildable {callerId : Option String} {new : NewFact}
    (h : checkNewFact start callerId new = .ok ()) (hindex : start.config.indexFacts = true) :
    isRebuildable start.embedder.isSome new.embedding new.factText = true := by
  unfold checkNewFact at h
  simp only [bind_eq_ok] at h
  obtain ⟨_, _, _, _, h⟩ := h
  cases hemb : new.embedding with
  | some embedding => rfl
  | none =>
    rw [hemb] at h
    simpa [ensure_eq_ok, isRebuildable, hindex] using h

/-- The mutation of a call that keeps the marker right. -/
theorem Mutates.writesMirror {call : GraphCall} {α : Type}
    {transaction : Topology → Except GraphError (Topology × α)} {beforeCommit : α → GraphProgram Unit}
    (h : Mutates call.now graph call.operation α transaction beforeCommit) (hlink : Linked graph.topology)
    (hkeeps : KeepsMarker graph call) :
    graph.indexDirty = false ∧ WritesMirror graph.config graph.topology transaction beforeCommit := by
  obtain ⟨operation, now, generated, faults⟩ := call
  cases h with
  | upsertEntity hfits hent => exact ⟨hkeeps, writesMirror_entity hlink hfits⟩
  | upsertEntityVec hent => exact ⟨hkeeps, writesMirror_entity hlink rfl⟩
  | addFact hchk =>
    exact ⟨hkeeps.1, writesMirror_supersede hlink (checkNewFact_rebuildable hchk) hkeeps.2⟩
  | invalidateFact => exact ⟨hkeeps.1, writesMirror_close hlink hkeeps.2⟩
  | removeEntity => exact ⟨hkeeps, writesMirror_removeEntity hlink _⟩
  | removeFact => exact ⟨hkeeps, writesMirror_removeFact hlink _⟩
  | removeEpisode => exact ⟨hkeeps, writesMirror_removeEpisode hlink _⟩

theorem triple_addEpisode {generated : String} {callerId : Option String} {source body : String} {occurredAt : TimeMs}
    {properties : Value} {mentions : List String} :
    Soundly Sound (addEpisodeWithId now generated callerId source body occurredAt properties mentions) Sound := by
  refine Triple.liftThen (fun _ _ h _ => h) fun _ _ => Triple.named fun start h => Triple.lookThen ?_
  split
  · split
    · exact Triple.pure fun _ hs => hs ▸ h
    · exact Triple.fail _ fun _ hs => hs ▸ h
  · refine Triple.liftThen (fun _ _ hs _ => hs ▸ h) fun committed hcom => ?_
    refine Triple.via (fun _ => Sound) (soundly_faulty (fun _ hs => hs ▸ h) ?_) fun _ => Triple.pure fun _ hs => hs
    rintro s rfl
    have hlink : Linked committed := h.linked.upsertEpisodeWithMentions hcom
    simp only [upsertEpisodeWithMentions, bind_eq_ok, Except.ok.injEq] at hcom
    obtain ⟨_, _, rfl⟩ := hcom
    -- the mirror does not look at episodes
    exact ⟨⟨hlink, h.kinded, h.created, h.mirrored⟩, ⟨hlink, h.kinded, h.created, h.mirrored⟩⟩

/-- Every step of such a call leaves a sound graph. -/
theorem Sound.call {graph : TemporalGraph} (h : Sound graph) {call : GraphCall} (hen : call.Enabled graph)
    (hkeeps : KeepsMarker graph call) : Steps (fun _ _ next => Sound next) (call.start graph) (call.trace graph) := by
  have hstart : Sound (call.start graph) := h.withFaults call.faults
  suffices htriple : Soundly (fun s => s = call.start graph) (call.operation.program call.now call.generated) Sound from
    htriple.steps _ rfl
  obtain ⟨operation, now, generated, faults⟩ := call
  by_cases hmut : operation.mutates = true
  · refine triple_mutating hmut hstart (fun _ => hstart) fun hmutation => ?_
    obtain ⟨hclean, hwrites⟩ := hmutation.writesMirror hstart.linked hkeeps
    refine triple_indexedMutation (hstart.ready ?_ hclean) hwrites
    cases hmutation <;> exact hen
  have hstarts : ∀ s, s = GraphCall.start ⟨operation, now, generated, faults⟩ graph → Sound s := fun _ hs => hs ▸ hstart
  cases operation with
  | addEpisode => exact (triple_ignoring triple_addEpisode).weakenPre hstarts
  | reindex => exact (triple_ignoring triple_reindex).weakenPre hstarts
  | persist =>
    exact triple_persist.weakenPre (fun _ hs => hs ▸ hstart.ready hen hkeeps)
  | openGraph config embedder =>
    exact (triple_openGraph config embedder).weakenPre hstarts
  | _ => exact absurd rfl hmut

theorem sound_fresh : Sound .fresh := by
  refine ⟨linked_empty, ⟨kinded_empty, fun _ hdocs => (by cases hdocs)⟩, fun hlive => (by cases hlive), ?_⟩
  refine fun _ => ⟨?_, fun hlive => by cases hlive⟩
  refine eq_mirror _ _ kinded_empty (fun id => ?_) fun id => ?_
  · rw [getElem?_entityDocuments]
    simp [TemporalGraph.fresh, Topology.empty]
  · rw [getElem?_factDocuments]
    simp [TemporalGraph.fresh, Topology.empty]

/-- A fact is asserted and closed in a graph with an embedder. -/
def closedEmployment : TemporalGraph :=
  runCalls (runCalls .fresh employment) [plainCall 6 (.invalidateFact "job" none)]

/-- A mutation whose commit fails and whose repair fails too. -/
def unrepairedUpsert : GraphCall :=
  let fault : Fault := ⟨.topology "disk I/O error", [], [], false⟩
  { operation := .upsertEntity "ada" "person" "Ada" .null none none ∅
    now := 2
    generated := ""
    faults := [none, none, none, some fault, some fault] }

end LodeDB.Graph
