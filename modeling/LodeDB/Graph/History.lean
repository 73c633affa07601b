import LodeDB.Graph.Runs

/-!
# What a graph remembers

The tables stay linked in every graph a run visits. A fact is closed by writing its ends over the row, yet whoever
asks with a time of knowledge before the closing sees the fact as it was. An entity keeps one row for all times, so
what was known of it before stays visible only as far as later snapshots repeat it.
-/

namespace LodeDB.Graph

open TreeMapRules ExceptRules Traced Traced.Program LodeDB.Graph.Topology

variable {condition : TemporalGraph → GraphCall → Prop} {graph next : TemporalGraph} {operation : Operation}
  {knownAt now validAt : TimeMs} {before committed topology : Topology} {id : String} {asserted fact : Fact}
  {invalidAt : Option TimeMs} {vector : Option Embedding} {entity : Entity} {sources : Table String}

/-- What holds of a new store's tables, and what every commit keeps, holds everywhere in a run. -/
theorem Visited.keepsTopology {I : Topology → Prop} (hempty : I .empty)
    (hcmt : ∀ (operation : Operation) (now : TimeMs) (before committed : Topology), I before →
      operation.Commits now before committed → I committed) (h : Visited condition graph) : I graph.topology := by
  refine Visited.keeps (I := fun graph => I graph.topology) hempty (fun _ _ h => h) (fun _ h => h) ?_ h
  intro graph call hgraph _ _
  refine (call.commits graph).imp ?_
  rintro _ _ next (hsame | hcommits) _
  · rwa [hsame]
  · exact hcmt _ _ _ _ hgraph hcommits

/-! ### The tables agree -/

theorem Operation.Commits.linked (hlink : Linked before) (h : operation.Commits now before committed) :
    Linked committed := by
  cases operation with
  | addEpisode callerId source body occurredAt properties mentions =>
    obtain ⟨episode, mentions, _, hok⟩ := h
    exact hlink.upsertEpisodeWithMentions hok
  | upsertEntity id entityType label properties validAt invalidAt sources => exact hlink.upsertEntityWithLineage h
  | upsertEntityVec id entityType label properties embedding validAt invalidAt sources =>
    exact hlink.upsertEntityWithLineage h
  | addFact callerId new =>
    obtain ⟨id, records, hok⟩ := h
    exact hlink.supersedeAndInsert hok
  | invalidateFact id invalidAt =>
    obtain rfl := h
    exact hlink.closeFact id invalidAt now
  | removeEntity id =>
    obtain rfl := h
    exact hlink.removeEntity id
  | removeFact id =>
    obtain rfl := h
    exact hlink.removeFact id
  | removeEpisode id =>
    obtain rfl := h
    exact hlink.removeEpisode id
  | reindex => exact h.elim
  | persist => exact h.elim
  | openGraph config embedder =>
    obtain rfl := h
    rwa [hlink.backfillPropertyVersions_eq]

theorem Visited.linked (h : Visited condition graph) : Linked graph.topology :=
  h.keepsTopology linked_empty fun _ _ _ _ hlink hcommits => hcommits.linked hlink

/-- A call without faults. -/
def plainCall (now : TimeMs) (operation : Operation) : GraphCall := ⟨operation, now, "", []⟩

/-- Two entities, an episode that says they are related, and the fact it says. -/
def employment : List GraphCall := [
  plainCall 1 (.openGraph ⟨1, true, true⟩ (some 1)),
  plainCall 2 (.upsertEntity "ada" "person" "Ada" (.object [("role", .string "engineer")]) none none ∅),
  plainCall 3 (.upsertEntity "org" "company" "The organisation" .null none none ∅),
  plainCall 4 (.addEpisode (some "note") "mail" "Ada joined" 100 .null ["ada"]),
  plainCall 5 (.addFact (some "job") ⟨"ada", "works_at", "org", "Ada works there", .null, ["note"], some 100, [], none⟩)]

theorem reached_employment : Reached (fun _ _ => True) (runCalls .fresh employment) :=
  Reached.fresh.runCalls employment (by decide +kernel) (.of_forall fun _ _ => trivial)

/-- What a fact asserts, without the ends it gets when it is closed. -/
def Fact.assertion (fact : Fact) : Fact := { fact with invalidAt := none, expiredAt := none }

/-- What the row of an id shows of a fact at an event time with the knowledge of a time. -/
def seenFact (topology : Topology) (validAt knownAt : TimeMs) (id : String) : Option Fact :=
  topology.facts[id]?.bind fun fact => if fact.matches (.atKnown validAt knownAt) then some fact.assertion else none

/-- The facts visible at an event time with the knowledge of a time. -/
def visibleFacts (topology : Topology) (validAt knownAt : TimeMs) : Finset Fact :=
  (((topology.facts.toList.map Prod.snd).filter fun fact => fact.matches (.atKnown validAt knownAt)).map
    Fact.assertion).toFinset

/-- The facts a traversal finds there. -/
def visibleFactsFor (topology : Topology) (nodeIds : List String) (direction : Direction) (relation : Option String)
    (validAt knownAt : TimeMs) : Finset Fact :=
  ((topology.factsFor nodeIds direction relation (.atKnown validAt knownAt)).map Fact.assertion).toFinset

theorem seenFact_eq_some :
    seenFact topology validAt knownAt id = some asserted ↔ ∃ fact, topology.facts[id]? = some fact ∧
      fact.matches (.atKnown validAt knownAt) = true ∧ fact.assertion = asserted := by
  simp [seenFact, Option.bind_eq_some_iff]

theorem mem_rows : fact ∈ topology.facts.toList.map Prod.snd ↔ ∃ id : String, topology.facts[id]? = some fact := by
  simp [Std.ExtTreeMap.mem_toList_iff_getElem?_eq_some]

theorem mem_visibleFacts :
    asserted ∈ visibleFacts topology validAt knownAt ↔ ∃ id, seenFact topology validAt knownAt id = some asserted := by
  simp only [visibleFacts, List.mem_toFinset, List.mem_map (f := Fact.assertion), List.mem_filter, mem_rows,
    seenFact_eq_some]
  constructor
  · rintro ⟨fact, ⟨⟨id, hid⟩, hmatch⟩, hasserted⟩
    exact ⟨id, fact, hid, hmatch, hasserted⟩
  · rintro ⟨id, fact, hid, hmatch, hasserted⟩
    exact ⟨fact, ⟨⟨id, hid⟩, hmatch⟩, hasserted⟩

theorem mem_visibleFactsFor {nodeIds : List String} {direction : Direction} {relation : Option String} :
    asserted ∈ visibleFactsFor topology nodeIds direction relation validAt knownAt ↔
      (direction.incident nodeIds asserted = true ∧ (relation.all fun wanted => asserted.relation == wanted) = true) ∧
        ∃ id, seenFact topology validAt knownAt id = some asserted := by
  have hincident (fact : Fact) : direction.incident nodeIds fact.assertion = direction.incident nodeIds fact := by
    cases direction <;> rfl
  simp only [visibleFactsFor, factsFor, List.mem_toFinset, List.mem_map (f := Fact.assertion), List.mem_filter, mem_rows,
    seenFact_eq_some, selects_asOfSql, Bool.and_eq_true]
  constructor
  · rintro ⟨fact, ⟨⟨id, hid⟩, ⟨hdir, hrelation⟩, hmatch⟩, rfl⟩
    exact ⟨⟨(hincident fact).trans hdir, hrelation⟩, id, fact, hid, hmatch, rfl⟩
  · rintro ⟨⟨hdir, hrelation⟩, id, fact, hid, hmatch, rfl⟩
    exact ⟨fact, ⟨⟨id, hid⟩, ⟨(hincident fact).symm.trans hdir, hrelation⟩, hmatch⟩, rfl⟩

/-- A fact that is live has no end in event time. -/
def LiveUnended (topology : Topology) : Prop :=
  ∀ (id : String) (fact : Fact), topology.facts[id]? = some fact → fact.expiredAt = none → fact.invalidAt = none

/-- One statement that records: a live fact is closed, or a new one is inserted. -/
inductive Recording (now : TimeMs) (facts : Table Fact) : Table Fact → Prop
  | close (id : String) (fact : Fact) (invalidAt : Option TimeMs) (hfact : facts[id]? = some fact)
    (hlive : fact.expiredAt = none) :
    Recording now facts (facts.insert id { fact with invalidAt := invalidAt, expiredAt := some now })
  | insert (fact : Fact) (hfree : facts[fact.id]? = none) (hopen : fact.invalidAt = none)
    (hcreated : fact.createdAt = now) : Recording now facts (facts.insert fact.id fact)

/-- One statement that removes: a fact is deleted, or gets another list of episodes. -/
inductive Removing (facts : Table Fact) : Table Fact → Prop
  | delete (id : String) : Removing facts (facts.erase id)
  | unlink (id : String) (episodes : List String) :
    Removing facts (amend facts id fun stored => { stored with episodes := episodes })

/-- The operations that record without removing. -/
def Operation.records : Operation → Bool
  | addEpisode _ _ _ _ _ _ | upsertEntity _ _ _ _ _ _ _ | upsertEntityVec _ _ _ _ _ _ _ _ | addFact _ _ |
    invalidateFact _ _ => true
  | _ => false

theorem recording_closePriors {closed : Topology} {priors : List Prior}
    (hclosed : priors.foldlM closePrior before = .ok closed) (hnow : ∀ prior ∈ priors, prior.expiredAt = now) :
    Relation.ReflTransGen (Recording now) before.facts closed.facts := by
  refine closePriors_induction (P := fun t => Relation.ReflTransGen (Recording now) before.facts t.facts) hclosed .refl ?_
  intro prior hprior middle next hmiddle hnext
  obtain ⟨fact, hfact, hlive, rfl⟩ := closeLive_eq_some.mp hnext
  rw [hnow prior hprior]
  exact hmiddle.tail (.close prior.id fact prior.invalidAt hfact hlive)

theorem removing_eraseAll (ids : List String) (facts : Table Fact) :
    Relation.ReflTransGen Removing facts (eraseAll facts ids) := by
  induction ids generalizing facts with
  | nil => exact .refl
  | cons id ids ih => exact .head (.delete id) (ih _)

theorem removing_rollBack (id : String) (facts : List Fact) (state : Topology × List String) :
    Relation.ReflTransGen Removing state.1.facts (facts.foldl (rollBack id) state).1.facts := by
  induction facts generalizing state with
  | nil => exact .refl
  | cons fact facts ih =>
    refine .head ?_ (ih _)
    unfold rollBack
    split
    · exact .delete fact.id
    · exact .unlink fact.id _

/-- Rolling facts back leaves the other tables alone. -/
theorem rolledBack_frame (id : String) (facts : List Fact) (state : Topology × List String) :
    (facts.foldl (rollBack id) state).1.frame = state.1.frame := by
  induction facts generalizing state with
  | nil => rfl
  | cons fact facts ih =>
    rw [List.foldl_cons, ih]
    unfold rollBack
    split <;> rfl

/-- What a commit may do to the tables beside those of the facts. -/
inductive Reshapes (before committed : Topology) : Prop
  | same (h : committed.frame = before.frame)
  | stored (episode : Episode) (entityIds : List String) (hfree : before.episodes[episode.id]? = none)
    (h : committed.frame = (before.episodes.insert episode.id episode, before.entities,
      before.episodeMentions ∪ (entityIds.map fun id => (episode.id, id)).toFinset))
  | upserted (entity : Entity) (hopen : entity.expiredAt = none)
    (h : committed.frame = (before.episodes, before.entities.insert entity.id entity, before.episodeMentions))
  | entityRemoved (id : String) (h : committed.frame =
      (before.episodes, before.entities.erase id, before.episodeMentions.filter fun link => link.2 ≠ id))
  | episodeRemoved (id : String) (h : committed.frame =
      (before.episodes.erase id, before.entities, before.episodeMentions.filter fun link => link.1 ≠ id))

theorem upsertEntity_effects (hopen : entity.expiredAt = none)
    (h : before.upsertEntityWithLineage entity vector sources now = .ok committed) :
    (Relation.ReflTransGen (Recording now) before.facts committed.facts ∨
      operation.records = false ∧ Relation.ReflTransGen Removing before.facts committed.facts) ∧
    Reshapes before committed := by
  simp only [upsertEntityWithLineage, bind_eq_ok, Except.ok.injEq] at h
  obtain ⟨_, _, _, _, rfl⟩ := h
  exact ⟨.inl .refl, .upserted { entity with properties := canonicalProperties entity.properties } hopen rfl⟩

/-- What a commit does to the facts, statement by statement, and to the other tables. -/
theorem Operation.Commits.effects (h : operation.Commits now before committed) :
    (Relation.ReflTransGen (Recording now) before.facts committed.facts ∨
      operation.records = false ∧ Relation.ReflTransGen Removing before.facts committed.facts) ∧
    Reshapes before committed := by
  cases operation with
  | addEpisode callerId source body occurredAt properties mentions =>
    obtain ⟨episode, mentions, hfree, hok⟩ := h
    simp only [upsertEpisodeWithMentions, bind_eq_ok, Except.ok.injEq] at hok
    obtain ⟨_, _, rfl⟩ := hok
    exact ⟨.inl .refl, .stored { episode with properties := canonicalProperties episode.properties } mentions hfree rfl⟩
  | upsertEntity id entityType label properties validAt invalidAt sources => exact upsertEntity_effects rfl h
  | upsertEntityVec id entityType label properties embedding validAt invalidAt sources =>
    exact upsertEntity_effects rfl h
  | addFact callerId new =>
    obtain ⟨id, records, hok⟩ := h
    obtain ⟨_, _, closed, hclosed, hins, _⟩ := supersedeAndInsert_eq_ok hok
    obtain ⟨hfree, rfl⟩ := insertFact_eq_ok hins
    have hframe := closePriors_frame hclosed
    refine ⟨.inl (.tail (recording_closePriors hclosed ?_) (.insert
      { factRow before now id new with properties := canonicalProperties new.properties } hfree rfl rfl)), .same hframe⟩
    intro prior hprior
    obtain ⟨_, _, rfl⟩ := List.mem_map.mp hprior
    rfl
  | invalidateFact id invalidAt =>
    obtain rfl := h
    unfold closeFact
    split
    · rename_i closed hclosed
      obtain ⟨fact, hfact, hlive, rfl⟩ := closeLive_eq_some.mp hclosed
      exact ⟨.inl (.single (.close id fact invalidAt hfact hlive)), .same rfl⟩
    · exact ⟨.inl .refl, .same rfl⟩
  | removeEntity id =>
    obtain rfl := h
    rw [Topology.removeEntity, foldl_deleteFact]
    exact ⟨.inr ⟨rfl, removing_eraseAll _ _⟩, .entityRemoved id rfl⟩
  | removeFact id =>
    obtain rfl := h
    exact ⟨.inr ⟨rfl, .single (.delete id)⟩, .same rfl⟩
  | removeEpisode id =>
    obtain rfl := h
    unfold Topology.removeEpisode
    split
    · have hframe := rolledBack_frame id (before.linkedFacts id) (before, [])
      simp only [frame, Prod.mk.injEq] at hframe
      refine ⟨.inr ⟨rfl, removing_rollBack id _ (before, [])⟩, .episodeRemoved id ?_⟩
      simp only [frame, deleteEpisode, hframe]
    · exact ⟨.inl .refl, .same rfl⟩
  | reindex => exact h.elim
  | persist => exact h.elim
  | openGraph config embedder =>
    obtain rfl := h
    exact ⟨.inl .refl, .same rfl⟩

variable {facts : Table Fact}

theorem Recording.liveUnended (hunended : LiveUnended topology)
    (h : Recording now topology.facts facts) : LiveUnended { topology with facts := facts } := by
  intro other stored hsto hlive
  cases h with
  | close id fact invalidAt hfact =>
    rcases of_getElem?_insert hsto with ⟨rfl, rfl⟩ | hsto
    · cases hlive
    · exact hunended other stored hsto hlive
  | insert fact hfree hopen =>
    rcases of_getElem?_insert hsto with ⟨rfl, rfl⟩ | hsto
    · exact hopen
    · exact hunended other stored hsto hlive

theorem Removing.liveUnended (hunended : LiveUnended topology)
    (h : Removing topology.facts facts) : LiveUnended { topology with facts := facts } := by
  intro other stored hsto hlive
  cases h with
  | delete id =>
    exact hunended other stored (of_getElem?_erase hsto).2 hlive
  | unlink id episodes =>
    rw [getElem?_amend] at hsto
    split at hsto
    · obtain ⟨earlier, hearlier, rfl⟩ := Option.map_eq_some_iff.mp hsto
      exact hunended other earlier hearlier hlive
    · exact hunended other stored hsto hlive

theorem Operation.Commits.liveUnended (hunended : LiveUnended before)
    (h : operation.Commits now before committed) : LiveUnended committed := by
  have hall {step : Table Fact → Table Fact → Prop} (hstep : ∀ {topology : Topology} {facts : Table Fact},
      LiveUnended topology → step topology.facts facts → LiveUnended { topology with facts := facts })
      {facts : Table Fact} (hchain : Relation.ReflTransGen step before.facts facts) :
      LiveUnended { before with facts := facts } := by
    induction hchain with
    | refl => exact hunended
    | tail _ hnext ih =>
      have hlater := hstep ih hnext
      exact hlater
  rcases h.effects.1 with hchain | ⟨_, hchain⟩
  · exact hall Recording.liveUnended hchain
  · exact hall Removing.liveUnended hchain

theorem Visited.liveUnended (h : Visited condition graph) : LiveUnended graph.topology :=
  h.keepsTopology (fun _ _ hfact => by simp [Topology.empty] at hfact) fun _ _ _ _ hunended hcommits =>
    hcommits.liveUnended hunended

/-- Tables that show what other tables show, with the knowledge of a time. -/
def Remembers (knownAt : TimeMs) (before after : Topology) : Prop :=
  ∀ validAt id, seenFact after validAt knownAt id = seenFact before validAt knownAt id

/-- A later time is not reached. -/
theorem not_le_of_lt {earlier later : TimeMs} (h : earlier < later) : ¬ later ≤ earlier := by
  rw [Int64.le_iff_toInt_le]
  rw [Int64.lt_iff_toInt_lt] at h
  omega

/-- A statement after the time of knowledge changes nothing of what was known: a closed row says when, and a live
fact had no end. -/
theorem Recording.remembers (hunended : LiveUnended topology)
    (h : Recording now topology.facts facts) (hnow : knownAt < now) :
    Remembers knownAt topology { topology with facts := facts } := by
  intro validAt other
  cases h with
  | close id fact invalidAt hfact hlive =>
    simp only [seenFact, getElem?_insert]
    split
    · rename_i hid
      subst hid
      rw [hfact]
      simp only [Option.bind_some, Fact.matches, frameMatches, Fact.stamps, Fact.assertion, hlive,
        hunended id fact hfact hlive, isNoneOr, Option.all_some, Option.any_some, Option.all_none, Option.any_none,
        decide_eq_true hnow, Bool.true_or, Bool.or_true, Bool.and_true]
      rfl
    · rfl
  | insert fact hfree hopen hcr =>
    simp only [seenFact, getElem?_insert]
    split
    · rename_i hid
      subst hid
      rw [hfree]
      simp [Fact.matches, frameMatches, Fact.stamps, hcr, not_le_of_lt hnow]
    · rfl

theorem Operation.Commits.remembers (hunended : LiveUnended before) (hrecs : operation.records = true)
    (hnow : knownAt < now) (h : operation.Commits now before committed) : Remembers knownAt before committed := by
  rcases h.effects.1 with hchain | ⟨hremoves, _⟩
  · have hall (facts : Table Fact) (hchain : Relation.ReflTransGen (Recording now) before.facts facts) :
        LiveUnended { before with facts := facts } ∧ Remembers knownAt before { before with facts := facts } := by
      induction hchain with
      | refl => exact ⟨hunended, fun _ _ => rfl⟩
      | tail _ hstep ih =>
        have hunendedNext := Recording.liveUnended ih.1 hstep
        have hsame := Recording.remembers ih.1 hstep hnow
        exact ⟨hunendedNext, fun validAt id => (hsame validAt id).trans (ih.2 validAt id)⟩
    exact (hall committed.facts hchain).2
  · rw [hremoves] at hrecs
    cases hrecs

/-- A graph after calls later than a time of knowledge, which all record and remove nothing. -/
inductive LaterRecords (knownAt : TimeMs) (graph : TemporalGraph) : TemporalGraph → Prop
  | refl : LaterRecords knownAt graph graph
  | call {next : TemporalGraph} (call : GraphCall) (hlater : LaterRecords knownAt graph next)
    (henabled : call.Enabled next) (hrecords : call.operation.records = true) (hnow : knownAt < call.now) :
    LaterRecords knownAt graph (after (call.start next) (call.trace next))

theorem LaterRecords.remembers (hunended : LiveUnended graph.topology) (h : LaterRecords knownAt graph next) :
    LiveUnended next.topology ∧ Remembers knownAt graph.topology next.topology := by
  induction h with
  | refl => exact ⟨hunended, fun _ _ => rfl⟩
  | @call next call _ _ hrecs hnow ih =>
    rcases call.commits_after next with hsame | hcommits
    · rw [hsame]
      exact ih
    · refine ⟨hcommits.liveUnended ih.1, fun validAt id => ?_⟩
      rw [hcommits.remembers ih.1 hrecs hnow, ih.2]

/-- What was visible at an event time with the knowledge of a past time stays visible, whatever episodes,
facts, invalidations and entities are recorded later. -/
theorem visibleFacts_kept {graph later : TemporalGraph} (hgraph : Visited (fun _ _ => True) graph)
    (validAt knownAt : TimeMs) (hlater : LaterRecords knownAt graph later) :
    visibleFacts later.topology validAt knownAt = visibleFacts graph.topology validAt knownAt ∧
    ∀ nodeIds direction relation, visibleFactsFor later.topology nodeIds direction relation validAt knownAt =
      visibleFactsFor graph.topology nodeIds direction relation validAt knownAt := by
  have hremembers := (hlater.remembers hgraph.liveUnended).2
  refine ⟨?_, fun nodeIds direction relation => ?_⟩
  · ext asserted
    rw [mem_visibleFacts, mem_visibleFacts]
    simp only [hremembers validAt]
  · ext asserted
    rw [mem_visibleFactsFor, mem_visibleFactsFor]
    simp only [hremembers validAt]

/-- The fact is closed, but with earlier knowledge it is still seen after its end. -/
theorem visibleFacts_kept_invalidated :
    (visibleFacts (runCalls (runCalls .fresh employment) [plainCall 50 (.invalidateFact "job" (some 150))]).topology
      200 10).card = 1 := by
  have hlater : LaterRecords 10 (runCalls .fresh employment)
      (runCalls (runCalls .fresh employment) [plainCall 50 (.invalidateFact "job" (some 150))]) :=
    .call (plainCall 50 (.invalidateFact "job" (some 150))) .refl (by decide +kernel) rfl (by decide)
  rw [(visibleFacts_kept (.between reached_employment) 200 10 hlater).1]
  decide +kernel

/-! ### Entities -/

/-- The entities listed at an event time with the knowledge of a time, with their properties. -/
def listedEntities (topology : Topology) (validAt knownAt : TimeMs) : Finset (String × Value) :=
  ((topology.listEntities none (.atKnown validAt knownAt)).map fun entity => (entity.id, entity.properties)).toFinset

/-- What the row of an id shows of an entity there. -/
def seenEntity (topology : Topology) (validAt knownAt : TimeMs) (id : String) : Option (String × Value) :=
  topology.entities[id]?.bind fun entity =>
    if entity.matches (.atKnown validAt knownAt) then some (entity.id, entity.properties) else none

theorem mem_listedEntities {listed : String × Value} :
    listed ∈ listedEntities topology validAt knownAt ↔ ∃ id, seenEntity topology validAt knownAt id = some listed := by
  simp only [listedEntities, listEntities, List.mem_toFinset, List.mem_map, List.mem_filter, selects_entityFrameSql,
    seenEntity, Option.bind_eq_some_iff, Option.all_none, Bool.true_and]
  constructor
  · rintro ⟨entity, ⟨⟨⟨id, stored⟩, hsto, rfl⟩, hmatch⟩, rfl⟩
    exact ⟨id, stored, Std.ExtTreeMap.mem_toList_iff_getElem?_eq_some.mp hsto, if_pos hmatch⟩
  · rintro ⟨id, entity, hent, hseen⟩
    split at hseen
    · exact ⟨entity, ⟨⟨(id, entity), Std.ExtTreeMap.mem_toList_iff_getElem?_eq_some.mpr hent, rfl⟩, ‹_›⟩,
        Option.some.inj hseen⟩
    · cases hseen

/-- Whether an event time lies in an interval. -/
def within (time : TimeMs) (start stop : Option TimeMs) : Bool :=
  isNoneOr start (fun start => start ≤ time) && isNoneOr stop fun stop => time < stop

/-- No entity is expired. -/
def EntitiesOpen (topology : Topology) : Prop :=
  ∀ (id : String) (entity : Entity), topology.entities[id]? = some entity → entity.expiredAt = none

/-- What a row of an entity that is not expired shows. -/
theorem matches_atKnown (hopen : entity.expiredAt = none) (validAt knownAt : TimeMs) :
    entity.matches (.atKnown validAt knownAt) =
      (decide (entity.createdAt ≤ knownAt) && within validAt entity.validAt entity.invalidAt) := by
  simp only [Entity.matches, frameMatches, Entity.stamps, hopen, within, isNoneOr, Option.all_none, Option.any_none,
    Bool.and_true, Bool.false_or]
  rw [Bool.and_comm (decide _), Bool.and_assoc, Bool.and_assoc]
  congr 1
  rw [Bool.and_comm]

/-- A snapshot that shows, at an event time with the knowledge of a time, what the stored row of its entity
shows there: if the row was recorded by then, the time stays in or out of the interval, and the properties
stay if it is in. -/
def RepeatsRow (topology : Topology) (validAt knownAt : TimeMs) (id : String) (properties : Value)
    (start stop : Option TimeMs) : Prop :=
  ∀ stored : Entity, topology.entities[id]? = some stored → stored.createdAt ≤ knownAt →
    within validAt start stop = within validAt stored.validAt stored.invalidAt ∧
      (within validAt start stop = true → canonicalProperties properties = stored.properties)

theorem seenEntity_upsert (hlink : Linked before) (hopen : EntitiesOpen before) (hnow : knownAt < now)
    {entityType label : String} {properties : Value} {start stop : Option TimeMs}
    (hrep : RepeatsRow before validAt knownAt id properties start stop)
    (h : before.upsertEntityWithLineage (entitySnapshot before now id entityType label properties start stop) vector
      sources now = .ok committed) (other : String) :
    seenEntity committed validAt knownAt other = seenEntity before validAt knownAt other := by
  simp only [upsertEntityWithLineage, bind_eq_ok, Except.ok.injEq] at h
  obtain ⟨_, _, _, _, rfl⟩ := h
  simp only [seenEntity, getElem?_insert]
  split
  · rename_i hid
    have hid : id = other := hid
    subst hid
    rw [Option.bind_some, matches_atKnown rfl]
    simp only [entitySnapshot]
    rcases Option.eq_none_or_eq_some before.entities[id]? with hsto | ⟨stored, hsto⟩
    · simp [hsto, not_le_of_lt hnow]
    · simp only [hsto, Option.bind_some, matches_atKnown (hopen id stored hsto), Option.map_some, Option.getD_some]
      by_cases hknown : stored.createdAt ≤ knownAt
      · obtain ⟨hin, hproperties⟩ := hrep stored hsto hknown
        rw [← hin]
        cases hinside : within validAt start stop with
        | false => simp
        | true => rw [hproperties hinside, hlink.entityIds hsto]
      · simp [hknown]
  · rfl

theorem Operation.Commits.entitiesOpen (hopen : EntitiesOpen before)
    (h : operation.Commits now before committed) : EntitiesOpen committed := by
  intro id stored hsto
  cases h.effects.2 with
  | upserted entity hent h =>
    simp only [frame, Prod.mk.injEq] at h
    rw [h.2.1] at hsto
    rcases of_getElem?_insert hsto with ⟨rfl, rfl⟩ | hsto
    · exact hent
    · exact hopen id stored hsto
  | entityRemoved other h =>
    simp only [frame, Prod.mk.injEq] at h
    rw [h.2.1] at hsto
    exact hopen id stored (of_getElem?_erase hsto).2
  | same h | stored _ _ _ h | episodeRemoved _ h =>
    simp only [frame, Prod.mk.injEq] at h
    rw [h.2.1] at hsto
    exact hopen id stored hsto

theorem Visited.entitiesOpen (h : Visited condition graph) : EntitiesOpen graph.topology :=
  h.keepsTopology (fun _ _ hent => by simp [Topology.empty] at hent) fun _ _ _ _ hopen hcommits =>
    hcommits.entitiesOpen hopen

/-- The operations that write an entity. -/
def Operation.upserts : Operation → Bool
  | upsertEntity _ _ _ _ _ _ _ | upsertEntityVec _ _ _ _ _ _ _ _ => true
  | _ => false

/-- A graph after upserts of entities later than a time of knowledge, each under a condition. -/
inductive LaterUpserts (condition : TemporalGraph → GraphCall → Prop) (knownAt : TimeMs) (graph : TemporalGraph) :
    TemporalGraph → Prop
  | refl : LaterUpserts condition knownAt graph graph
  | call {next : TemporalGraph} (call : GraphCall) (hlater : LaterUpserts condition knownAt graph next)
    (henabled : call.Enabled next) (hupserts : call.operation.upserts = true) (hnow : knownAt < call.now)
    (hcondition : condition next call) :
    LaterUpserts condition knownAt graph (after (call.start next) (call.trace next))

/-- An upsert whose snapshot shows what the stored row shows. -/
def RepeatsSeen (validAt knownAt : TimeMs) (graph : TemporalGraph) (call : GraphCall) : Prop :=
  match call.operation with
  | .upsertEntity id _ _ properties start stop _ | .upsertEntityVec id _ _ properties _ start stop _ =>
    RepeatsRow graph.topology validAt knownAt id properties start stop
  | _ => True

/-- One upsert that repeats what is seen leaves the listing alone. -/
theorem seenEntity_call {call : GraphCall} (hlink : Linked graph.topology)
    (hopen : EntitiesOpen graph.topology) (hups : call.operation.upserts = true) (hnow : knownAt < call.now)
    (hrep : RepeatsSeen validAt knownAt graph call) (id : String) :
    seenEntity (after (call.start graph) (call.trace graph)).topology validAt knownAt id =
      seenEntity graph.topology validAt knownAt id := by
  rcases call.commits_after graph with hsame | hcommits
  · rw [hsame]
  · obtain ⟨operation, now, generated, faults⟩ := call
    cases operation with
    | upsertEntity entityId entityType label properties start stop sources =>
      exact seenEntity_upsert hlink hopen hnow hrep hcommits id
    | upsertEntityVec entityId entityType label properties embedding start stop sources =>
      exact seenEntity_upsert hlink hopen hnow hrep hcommits id
    | _ => cases hups

theorem LaterUpserts.visited (hgraph : Reached (fun _ _ => True) graph)
    (h : LaterUpserts condition knownAt graph next) : Reached (fun _ _ => True) next := by
  induction h with
  | refl => exact hgraph
  | call call _ hen _ _ _ ih => exact ih.call call hen trivial

/-- The listing at an event time with the knowledge of a past time stays as it is over later upserts that
repeat what is seen of the entities recorded by then. -/
theorem listedEntities_kept {graph later : TemporalGraph} (hgraph : Reached (fun _ _ => True) graph)
    (validAt knownAt : TimeMs) (hlater : LaterUpserts (RepeatsSeen validAt knownAt) knownAt graph later) :
    listedEntities later.topology validAt knownAt = listedEntities graph.topology validAt knownAt := by
  have hseen : ∀ id, seenEntity later.topology validAt knownAt id = seenEntity graph.topology validAt knownAt id := by
    induction hlater with
    | refl => exact fun _ => rfl
    | call call hlater _ hupserts hnow hrepeats ih =>
      intro id
      have hvisited := Visited.between (hlater.visited hgraph)
      rw [seenEntity_call hvisited.linked hvisited.entitiesOpen hupserts hnow hrepeats, ih]
  ext listed
  rw [mem_listedEntities, mem_listedEntities]
  simp only [hseen]

/-- An upsert of the label alone repeats what is seen. -/
theorem listedEntities_kept_relabelled :
    listedEntities (runCalls (runCalls .fresh employment) [plainCall 50 (.upsertEntity "ada" "person" "Ada L."
      (.object [("role", .string "engineer")]) none none ∅)]).topology 200 10 =
    listedEntities (runCalls .fresh employment).topology 200 10 := by
  refine listedEntities_kept reached_employment 200 10
    (.call (plainCall 50 (.upsertEntity "ada" "person" "Ada L." (.object [("role", .string "engineer")]) none none ∅))
      .refl (by decide +kernel) rfl (by decide) ?_)
  intro stored hstored _
  have hrow : (runCalls .fresh employment).topology.entities["ada"]?.map (fun entity =>
      (entity.validAt, entity.invalidAt, entity.properties)) =
      some (none, none, .object [("role", .string "engineer")]) := by decide +kernel
  rw [hstored] at hrow
  simp only [Option.map_some, Option.some.injEq, Prod.mk.injEq] at hrow
  rw [hrow.1, hrow.2.1, hrow.2.2]
  exact ⟨rfl, fun _ => rfl⟩

/-- A later upsert of other properties changes the listing of a past time of knowledge. -/
theorem not_listedEntities_kept :
    ¬ ∀ (graph later : TemporalGraph) (validAt knownAt : TimeMs), Reached (fun _ _ => True) graph →
      LaterUpserts (fun _ _ => True) knownAt graph later →
      listedEntities later.topology validAt knownAt = listedEntities graph.topology validAt knownAt := by
  intro hkept
  have hsame := hkept (runCalls .fresh employment) (runCalls (runCalls .fresh employment)
    [plainCall 50 (.upsertEntity "ada" "person" "Ada" (.object [("role", .string "manager")]) none none ∅)]) 200 10
    reached_employment
    (.call (plainCall 50 (.upsertEntity "ada" "person" "Ada" (.object [("role", .string "manager")]) none none ∅))
      .refl (by decide +kernel) rfl (by decide) trivial)
  revert hsame
  decide +kernel

end LodeDB.Graph
