import LodeDB.Graph.History
import LodeDB.Graph.Mirrored

/-!
# Rebuilding the index on request

A rebuild starts from whatever the index holds. It writes the document of every row and drops the
documents it finds to be orphans, going by the kind in their metadata; a document without a kind it
knows, or whose whole id is the id of a row, is not found.
-/

namespace LodeDB.Graph

open TreeMapRules Traced Traced.Program LodeDB.Graph.Topology

variable {graph start : TemporalGraph}

/-- A graph as the marker leaves it for a rebuild. -/
def TemporalGraph.marked (graph : TemporalGraph) : TemporalGraph :=
  { graph with indexDirty := true, faults := graph.faults.tail }

/-- The check of a graph reads nothing that a rebuild changes. -/
theorem Beside.checkRebuildable (h : Beside start graph) : checkRebuildable graph = checkRebuildable start := by
  simp only [Graph.checkRebuildable, h.topology, h.embedder, h.config]

/-- A rebuild that fails its check leaves the documents alone. -/
theorem triple_reindexInternal_rejected (hcheck : checkRebuildable start ≠ .ok ()) :
    Triple (Written start id) reindexInternal (fun _ _ _ => True) (fun _ _ => False) fun _ => Written start id := by
  unfold reindexInternal
  refine Triple.via (fun _ => Written start id) (triple_faulty ?_ ?_) fun _ => Triple.inspect fun graph hgraph => ?_
  · exact fun _ h => ⟨trivial, h.beside.trans rfl, h.memory, h.durable⟩
  · exact fun _ _ h => ⟨trivial, h.beside.trans rfl, h.memory, h.durable⟩
  · rw [hgraph.beside.checkRebuildable]
    exact Triple.liftThen (fun _ _ h _ => h) fun _ hok => absurd hok hcheck

/-- A rebuild on request: its effect on success, none if it fails its check. -/
theorem triple_reindex_effect (graph : TemporalGraph) :
    Triple (fun s => s = graph) reindex (fun _ _ _ => True)
      (fun _ s => checkRebuildable graph = .ok () ∧ s.memory = reindexEffect graph graph.memory ∧
        s.durable = some s.memory)
      fun _ s => checkRebuildable graph ≠ .ok () → s.memory = graph.memory ∧ s.durable = graph.durable := by
  unfold reindex markIndexDirty markIndexClean setIndexDirty
  refine Triple.via (fun _ s => s = graph.marked) (triple_faulty ?_ ?_) fun _ => ?_
  · rintro _ rfl
    exact ⟨trivial, rfl⟩
  · rintro _ _ rfl
    exact ⟨trivial, fun _ => ⟨rfl, rfl⟩⟩
  by_cases hcheck : checkRebuildable graph = .ok ()
  · refine Triple.via (fun _ => Written graph.marked (reindexEffect graph)) ?_ fun stats => ?_
    · refine ((triple_reindexInternal graph.marked).weakenSteps fun _ _ _ _ => trivial).weaken ?_ (fun _ _ h => h.2)
        fun _ _ _ hrejected => absurd hcheck hrejected
      rintro _ rfl
      exact .refl _
    · refine Triple.via (fun _ s => s.memory = reindexEffect graph graph.memory ∧ s.durable = some s.memory)
        (triple_faulty (fun _ h => ⟨trivial, h.memory, rfl⟩) fun _ _ _ => ⟨trivial, fun h => absurd hcheck h⟩)
        fun _ => ?_
      exact Triple.via (fun _ s => s.memory = reindexEffect graph graph.memory ∧ s.durable = some s.memory)
        (triple_faulty (fun _ h => ⟨trivial, h⟩) fun _ _ _ => ⟨trivial, fun h => absurd hcheck h⟩)
        fun _ => Triple.pure fun _ h => ⟨hcheck, h⟩
  · have hmarked : checkRebuildable graph.marked ≠ .ok () := hcheck
    refine Triple.via (fun _ _ => False) ?_ fun _ => ⟨fun _ h => h.elim, fun _ _ h => h.elim, fun _ _ h => h.elim⟩
    refine (triple_reindexInternal_rejected hmarked).weaken ?_ (fun _ _ h => h) ?_
    · rintro _ rfl
      exact .refl _
    · exact fun _ s h _ => ⟨h.memory, h.durable.trans (by simp [TemporalGraph.marked])⟩

/-- A rebuild that succeeds leaves, and saves, exactly the documents the rows call for if and only if it could
write again or drop each document the index held. One that fails its check leaves the documents alone. -/
theorem reindex_mirrors_iff {graph : TemporalGraph} (hkeyed : Keyed graph.topology) :
    (∀ stats, (reindex graph).2 = .ok stats → ((reindex.final graph).memory = mirror graph.config graph.topology ∧
        (reindex.final graph).durable = some (mirror graph.config graph.topology) ↔
        Replaceable graph.topology graph.memory)) ∧
    (checkRebuildable graph ≠ .ok () → (∃ error, (reindex graph).2 = .error error) ∧
      (reindex.final graph).memory = graph.memory ∧ (reindex.final graph).durable = graph.durable) := by
  have htriple := triple_reindex_effect graph
  constructor
  · intro stats hok
    obtain ⟨hcheck, hmemory, hdurable⟩ := htriple.returns graph stats rfl hok
    rw [← reindexEffect_eq_mirror_iff hkeyed hcheck, hdurable, hmemory, Option.some.injEq, and_self]
  · intro hcheck
    cases hreturned : (reindex graph).2 with
    | ok stats => exact absurd (htriple.returns graph stats rfl hreturned).1 hcheck
    | error error => exact ⟨⟨error, rfl⟩, htriple.fails graph error rfl hreturned hcheck⟩

/-- The employment graph with an index that lost every document. -/
def emptiedEmployment : TemporalGraph := { runCalls .fresh employment with memory := ∅ }

/-- A rebuild of an index that lost every document. -/
theorem reindex_mirrors_iff_emptied :
    (reindex.final emptiedEmployment).memory = mirror emptiedEmployment.config emptiedEmployment.topology := by
  have hkeyed : Keyed emptiedEmployment.topology := (Visited.between reached_employment).linked.keyed
  have hok : (reindex emptiedEmployment).2.toOption = some ⟨2, 1, 0⟩ := by decide +kernel
  obtain ⟨stats, hstats⟩ : ∃ stats, (reindex emptiedEmployment).2 = .ok stats := by
    cases hreturned : (reindex emptiedEmployment).2 with
    | ok stats => exact ⟨stats, rfl⟩
    | error error =>
      rw [hreturned] at hok
      cases hok
  exact (((reindex_mirrors_iff hkeyed).1 stats hstats).mpr (kinded_empty.replaceable _)).1

/-- A new graph whose index holds a document of no kind. -/
def strayDocument : TemporalGraph :=
  { TemporalGraph.fresh with memory := writeAll ∅ [("stray", ⟨∅, .text "left over"⟩)] }

/-- A document of no kind outlives every rebuild. -/
theorem not_reindex_mirrors :
    ¬ ∀ graph : TemporalGraph, Keyed graph.topology → ∀ stats, (reindex graph).2 = .ok stats →
      (reindex.final graph).memory = mirror graph.config graph.topology := by
  intro hmirrors
  have hsame := hmirrors strayDocument linked_empty.keyed ⟨0, 0, 0⟩ rfl
  have hkeys := congrArg Std.ExtTreeMap.keys hsame
  revert hkeys
  decide +kernel

end LodeDB.Graph
