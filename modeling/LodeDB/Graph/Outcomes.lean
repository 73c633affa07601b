import LodeDB.Graph.History
import LodeDB.Graph.Mirrored

/-!
# What a call that succeeds did

A mutation that returns has committed its transaction. Asserting a fact under an id that is stored with the
same content returns too, and does nothing: not even the invalidations the call names.
-/

namespace LodeDB.Graph

open TreeMapRules ExceptRules Traced Traced.Program LodeDB.Graph.Topology

variable {now : TimeMs} {generated id : String} {callerId : Option String} {new : NewFact} {graph : TemporalGraph}
  {before committed : Topology}

variable {records : List FactIndexRecord}

/-- A graph that faces the faults of a call. -/
abbrev TemporalGraph.facing (graph : TemporalGraph) (faults : List (Option Fault)) : TemporalGraph :=
  { graph with faults := faults }

/-- What follows a failed mutation never returns. -/
theorem triple_finishIndexedMutation_error {α : Type} (error : GraphError) {pre : TemporalGraph → Prop}
    {post : α → TemporalGraph → Prop} :
    Triple pre (finishIndexedMutation (.error error) : GraphProgram α) (fun _ _ _ => True) post fun _ _ => True := by
  have hany {β : Type} {pre : TemporalGraph → Prop} (program : GraphProgram β) : Triple pre program
      (fun _ _ _ => True) (fun _ _ => True) fun _ _ => String → True :=
    Triple.any.weaken (fun _ _ => trivial) (fun _ _ h => h) fun _ _ h _ => h
  exact triple_repair error (hany _) (hany _) (hany _)

/-- A mutation that returns has committed its transaction. -/
theorem triple_indexedMutation_commits {α : Type} {transaction : Topology → Except GraphError (Topology × α)}
    {beforeCommit : α → GraphProgram Unit} :
    Triple (fun s => s.topology = before) (indexedMutation transaction beforeCommit) (fun _ _ _ => True)
      (fun value s => transaction before = .ok (s.topology, value)) fun _ _ => True := by
  have htransact : Triple (fun s => s.topology = before) (transact transaction beforeCommit) (fun _ _ _ => True)
      (fun value s => transaction before = .ok (s.topology, value)) fun _ _ => True := by
    refine Triple.inspect ?_
    rintro graph rfl
    refine Triple.liftThen (fun _ _ _ _ => trivial) fun outcome hout => Triple.via _ Triple.any fun _ => ?_
    refine Triple.via (fun _ s => s.topology = outcome.1) (triple_faulty ?_ ?_) fun _ => Triple.pure ?_
    · exact fun _ _ => ⟨trivial, rfl⟩
    · exact fun _ _ _ => ⟨trivial, trivial⟩
    · intro s hs
      rw [hs]
      exact hout
  unfold indexedMutation markIndexDirty setIndexDirty
  refine Triple.via (fun _ s => s.topology = before) (triple_faulty ?_ ?_) fun _ =>
    Triple.via _ htransact.attempt fun result => ?_
  · exact fun _ h => ⟨trivial, h⟩
  · exact fun _ _ _ => ⟨trivial, trivial⟩
  cases result with
  | error error => exact triple_finishIndexedMutation_error error
  | ok value =>
    unfold finishIndexedMutation markIndexClean setIndexDirty
    refine Triple.via (fun _ s => transaction before = .ok (s.topology, value)) (triple_faulty ?_ ?_) fun _ =>
      Triple.pure fun _ h => h
    · exact fun _ h => ⟨trivial, h.1 value rfl⟩
    · exact fun _ _ _ => ⟨trivial, trivial⟩

/-! ### Asserting a fact -/

/-- What asserting a fact does to the tables if it returns. -/
inductive Asserts (now : TimeMs) (id : String) (new : NewFact) (before : Topology) : Topology → Prop
  | again (existing : Fact) (hstored : before.facts[id]? = some existing)
    (hsame : sameFact existing (factRow before now id new)) : Asserts now id new before before
  | inserted (committed : Topology) (records : List FactIndexRecord)
    (hcommit : before.supersedeAndInsert (priorsOf before now new) (factRow before now id new) new.embedding =
      .ok (committed, records)) : Asserts now id new before committed

theorem addFactInner_asserts (h : (addFactInner now generated callerId new graph).2 = .ok id) :
    checkNewFact graph callerId new = .ok () ∧ id = callerId.getD generated ∧
      Asserts now id new graph.topology ((addFactInner now generated callerId new).final graph).topology := by
  have htriple : Triple (fun s => s = graph) (addFactInner now generated callerId new) (fun _ _ _ => True)
      (fun id s => checkNewFact graph callerId new = .ok () ∧ id = callerId.getD generated ∧
        Asserts now id new graph.topology s.topology) fun _ _ => True := by
    refine Triple.lookThen (Triple.liftThen (fun _ _ _ _ => trivial) fun _ hcheck => ?_)
    dsimp only
    split
    · rename_i existing hsto
      split
      · rename_i hsame
        refine Triple.pure ?_
        rintro s rfl
        exact ⟨hcheck, rfl, .again existing hsto hsame⟩
      · exact Triple.fail _ fun _ _ => trivial
    · refine Triple.via _ (triple_indexedMutation_commits.weakenPre ?_)
        fun records => Triple.pure fun s hcmt => ⟨hcheck, rfl, .inserted s.topology records hcmt⟩
      rintro s rfl
      rfl
  exact htriple.returns graph id rfl h

/-- The rows after an insertion: the new fact under an id that was free, the facts it names with their ends, and
the others as they were. -/
theorem supersedeAndInsert_rows
    (hcmt : before.supersedeAndInsert (priorsOf before now new) (factRow before now id new) new.embedding =
      .ok (committed, records)) :
    before.facts[id]? = none ∧
    committed.facts[id]? = some { factRow before now id new with properties := canonicalProperties new.properties } ∧
    (∀ old ∈ new.invalidates, ∃ fact, before.facts[old]? = some fact ∧ fact.expiredAt = none ∧
      committed.facts[old]? = some { fact with
        invalidAt := (supersedeTimestamps (factRow before now id new).validAt
          ((referenceTimeFor before new.episodes).getD now) now).1
        expiredAt := some now }) ∧
    ∀ other, other ≠ id → other ∉ new.invalidates → committed.facts[other]? = before.facts[other]? := by
  obtain ⟨_, _, closed, hclosed, hins, _⟩ := supersedeAndInsert_eq_ok hcmt
  obtain ⟨hfree, rfl⟩ := insertFact_eq_ok hins
  have hunstored : before.facts[id]? = none := by
    refine closePriors_induction (P := fun t => t.facts[id]? = none → before.facts[id]? = none) hclosed
      (fun h => h) ?_ hfree
    intro prior _ middle next hmiddle hnext hnone
    obtain ⟨_, _, _, rfl⟩ := closeLive_eq_some.mp hnext
    simp only [getElem?_insert] at hnone
    split at hnone
    · cases hnone
    · exact hmiddle hnone
  refine ⟨hunstored, by simp [factRow], ?_, ?_⟩
  · intro old hold
    obtain ⟨fact, hfact, hlive, hrow⟩ := closePriors_row hclosed (List.mem_map.mpr ⟨old, by simpa using hold, rfl⟩)
    refine ⟨fact, hfact, hlive, ?_⟩
    rw [getElem?_insert, if_neg]
    · exact hrow
    · rintro rfl
      rw [hfree] at hrow
      cases hrow
  · intro other hother hunnamed
    refine (getElem?_insert _ _ _ _).trans ((if_neg hother.symm).trans ((closePriors_closedFrom hclosed).others other ?_))
    simpa [priorsOf] using hunnamed

/-- Whether a fact is in a frame. -/
def factIn (topology : Topology) (asOf : AsOf) (id : String) : Bool :=
  topology.facts[id]?.any fun fact => fact.matches asOf

/-- A fact takes the place of another: no event time has both, every event time the other had has one of them,
and the current facts are with the new one and without the other. -/
structure Replaces (before after : Topology) (old new : String) : Prop where
  apart : ∀ time, ¬ (factIn after (.at time) old = true ∧ factIn after (.at time) new = true)
  covered : ∀ time, factIn before (.at time) old = true →
    factIn after (.at time) old = true ∨ factIn after (.at time) new = true
  current : factIn after .now new = true
  closed : factIn after .now old = false

/-- A fact that replaces others has a start, and they end there. -/
theorem factRow_validAt (before : Topology) (now : TimeMs) (id : String) (hnamed : new.invalidates ≠ []) : ∃ start,
    (factRow before now id new).validAt = some start ∧
    (supersedeTimestamps (factRow before now id new).validAt ((referenceTimeFor before new.episodes).getD now) now).1 =
      some start := by
  have hstart : ∃ start, (factRow before now id new).validAt = some start := by
    simp only [factRow, effectiveValidAt]
    split
    · exact ⟨_, rfl⟩
    · rename_i hgiven
      exact Option.ne_none_iff_exists'.mp fun hnone => hgiven ⟨hnone, hnamed⟩
  obtain ⟨start, hstart⟩ := hstart
  exact ⟨start, hstart, by rw [hstart]; rfl⟩

theorem replaces_of_inserted {old : String} (hnamed : old ∈ new.invalidates)
    (hcmt : before.supersedeAndInsert (priorsOf before now new) (factRow before now id new) new.embedding =
      .ok (committed, records)) : Replaces before committed old id := by
  obtain ⟨_, hnew, hclosed, _⟩ := supersedeAndInsert_rows hcmt
  obtain ⟨fact, hfact, _, hrow⟩ := hclosed old hnamed
  obtain ⟨start, hstart, hend⟩ := factRow_validAt before now id (List.ne_nil_of_mem hnamed)
  rw [hend] at hrow
  refine ⟨fun time => ?_, fun time => ?_, ?_, ?_⟩
  all_goals simp only [factIn, hnew, hrow, hfact, Option.any_some, Fact.matches, frameMatches, Fact.stamps, isNoneOr,
    hstart, Option.all_some, Bool.and_eq_true, decide_eq_true_eq]
  · rintro ⟨⟨_, hbefore⟩, hafter, _⟩
    exact not_le_of_lt hbefore hafter
  · rintro ⟨hvalid, _⟩
    by_cases hreach : time < start
    · exact .inl ⟨hvalid, hreach⟩
    · refine .inr ⟨?_, rfl⟩
      rw [Int64.lt_iff_toInt_lt] at hreach
      rw [Int64.le_iff_toInt_le]
      omega
  · simp [factRow]
  · simp

/-- Asserting a fact that names a live fact as invalidated, with success, puts it in the place of that fact if and
only if its id was free: for an id that is stored with the same content the call changes nothing. -/
theorem addFact_replaces_iff {graph : TemporalGraph} (hgraph : Visited (fun _ _ => True) graph)
    (faults : List (Option Fault)) (now : TimeMs) (generated : String) (callerId : Option String) (new : NewFact)
    {id old : String} {fact : Fact} (hok : (addFactInner now generated callerId new (graph.facing faults)).2 = .ok id)
    (hold : graph.topology.facts[old]? = some fact) (hlive : fact.expiredAt = none) (hnamed : old ∈ new.invalidates) :
    Replaces graph.topology ((addFactInner now generated callerId new).final (graph.facing faults)).topology old id ↔
      graph.topology.facts[id]? = none := by
  obtain ⟨_, _, hasserts⟩ := addFactInner_asserts hok
  generalize ((addFactInner now generated callerId new).final (graph.facing faults)).topology = committed at hasserts ⊢
  cases hasserts with
  | again existing hstored =>
    constructor
    · intro hreplaces
      have hclosed := hreplaces.closed
      simp [factIn, hold, Fact.matches, frameMatches, Fact.stamps, hlive, hgraph.liveUnended old fact hold hlive] at hclosed
    · intro hfree
      cases hfree.symm.trans hstored
  | inserted committed records hcommit =>
    exact ⟨fun _ => (supersedeAndInsert_rows hcommit).1, fun _ => replaces_of_inserted hnamed hcommit⟩

/-- A better paid job. -/
def promotion (invalidates : List String) : NewFact :=
  ⟨"ada", "leads", "org", "Ada leads there", .null, ["note"], some 150, invalidates, none⟩

/-- The employment graph, for a call without faults. -/
def employed : TemporalGraph := { runCalls .fresh employment with faults := [] }

/-- A new fact under a free id replaces the one it names. -/
theorem addFact_replaces_iff_promotion : Replaces (runCalls .fresh employment).topology
    ((addFactInner 9 "" (some "lead") (promotion ["job"])).final employed).topology "job" "lead" := by
  have hold : (runCalls .fresh employment).topology.facts["job"]?.map Fact.expiredAt = some none := by decide +kernel
  obtain ⟨fact, hfact, hlive⟩ := Option.map_eq_some_iff.mp hold
  have hok : (addFactInner 9 "" (some "lead") (promotion ["job"]) employed).2 = .ok "lead" := by decide +kernel
  have hfree : (runCalls .fresh employment).topology.facts["lead"]? = none := by decide +kernel
  exact (addFact_replaces_iff (.between reached_employment) [] 9 "" (some "lead") (promotion ["job"]) hok hfact hlive
    List.mem_cons_self).mpr hfree

/-- The new job asserted before anyone says that it ends the old one. -/
def asserted : GraphCall := plainCall 8 (.addFact (some "lead") (promotion []))

/-- The call repeats a fact asserted without the invalidation: it succeeds, and both facts stay. -/
theorem not_addFact_replaces :
    ¬ ∀ (graph : TemporalGraph) (now : TimeMs) (generated : String) (callerId : Option String) (new : NewFact)
      (id old : String) (fact : Fact), Visited (fun _ _ => True) graph →
      (addFactInner now generated callerId new graph).2 = .ok id → graph.topology.facts[old]? = some fact →
      fact.expiredAt = none → old ∈ new.invalidates →
      Replaces graph.topology ((addFactInner now generated callerId new).final graph).topology old id := by
  intro hreplaces
  have hvisited : Visited (fun _ _ => True) (runCalls .fresh (employment ++ [asserted])) :=
    .between (Reached.fresh.runCalls _ (by decide +kernel) (.of_forall fun _ _ => trivial))
  have hold : (runCalls .fresh (employment ++ [asserted])).topology.facts["job"]?.map Fact.expiredAt = some none := by
    decide +kernel
  obtain ⟨fact, hfact, hlive⟩ := Option.map_eq_some_iff.mp hold
  have hok : (addFactInner 9 "" (some "lead") (promotion ["job"]) (runCalls .fresh (employment ++ [asserted]))).2 =
      .ok "lead" := by decide +kernel
  have hclosed := (hreplaces _ 9 "" (some "lead") (promotion ["job"]) "lead" "job" fact hvisited hok hfact hlive
    List.mem_cons_self).closed
  revert hclosed
  decide +kernel

end LodeDB.Graph
