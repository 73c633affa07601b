import LodeDB.Engine.ChunkIds
import LodeDB.Lib.Writes

/-!
# The knowledge graph's writes

The Python knowledge graph keeps nodes, edges and retained vectors in tables and indexes each node (and, on request,
each edge) as one semantic document. A single call applies its item at once; a batch upserts all rows, then drops
stale documents, then writes the text and last the vector documents. The texts of a call share the chunks embedded
for it, so a call can raise half-way and leave what it had done so far.

Embeddings are of any type: what the tables and the index store of one is a function of it.
-/

namespace LodeDB.Knowledge

open Writes
open Engine (planChunks plannedFor_of_mem)

variable {V : Type}

/-- The properties of a node or an edge, in insertion order. -/
abbrev Properties := List (String × Value)

/-- A row of the node table. -/
structure Node where
  id : String
  type : String
  label : String
  properties : Properties

/-- A row of the edge table. -/
structure Edge where
  id : String
  src : String
  relation : String
  dst : String
  properties : Properties

/-- The triple an edge states. -/
def Edge.triple (edge : Edge) : String × String × String := (edge.src, edge.relation, edge.dst)

/-- What a semantic document is indexed by: its text, or the caller's embedding. -/
inductive Body (V : Type)
  | text (text : String)
  | vector (embedding : V)

/-- A document of the semantic index. -/
structure Document (V : Type) where
  metadata : List (String × String)
  body : Body V

/-- The documents of an index, by document id. -/
abbrev Documents (V : Type) := Std.ExtTreeMap String (Document V) compare

/-- A document to store, or none to drop, under a document id. -/
abbrev DocumentWrite (V : Type) := String × Option (Document V)

/-- A knowledge graph: its options, its topology tables and the documents of its index. -/
structure Graph (V : Type) where
  vectorOnly : Bool := false
  indexEdges : Bool := false
  retainVectors : Bool := false
  chunkCharacterLimit : ℕ := 900
  nodes : Std.ExtTreeMap String Node compare := ∅
  nodeVectors : Std.ExtTreeMap String V compare := ∅
  edges : Std.ExtTreeMap String Edge compare := ∅
  documents : Documents V := ∅

/-- The arguments of `add_node`, an absent id already drawn. -/
structure NodeItem (V : Type) where
  id : String
  type : String := ""
  label : String := ""
  properties : Option Properties := none
  embedding : Option V := none

/-- The arguments of `add_edge`. -/
structure EdgeItem (V : Type) where
  src : String
  relation : String
  dst : String
  id : Option String := none
  properties : Option Properties := none
  fact : Option String := none
  embedding : Option V := none

variable (vectorOnly : Bool)

/-- The characters `str.strip` strips: white space and the separators U+001C to U+001F. -/
def isSpace (c : Char) : Bool := isWhitespace c || (0x1c ≤ c.toNat && c.toNat ≤ 0x1f)

/-- What an item is indexed by: its embedding, else its text unless blank or without embedder. -/
def bodyOf (embedding : Option V) (text : Option String) : Option (Body V) :=
  match embedding with
  | some embedding => some (.vector embedding)
  | none => (text.filter fun text => !vectorOnly && !text.toList.all isSpace).map .text

namespace NodeItem

/-- The row of an item. -/
def node (item : NodeItem V) : Node :=
  { id := item.id, type := item.type, label := item.label, properties := item.properties.getD [] }

/-- The document an item leaves. -/
def documentWrite (item : NodeItem V) : DocumentWrite V :=
  ("n:" ++ item.id, (bodyOf vectorOnly item.embedding (some item.label)).map fun body =>
    { metadata := [("kind", "node"), ("type", item.type), ("node_id", item.id)], body })

/-- The retained vector an item leaves. -/
def vectorWrite (item : NodeItem V) : String × Option V := (item.id, item.embedding)

end NodeItem

/-- The id derived from a triple. -/
def edgeId (triple : String × String × String) : String :=
  triple.1 ++ ":" ++ triple.2.1 ++ ":" ++ triple.2.2

namespace EdgeItem

/-- The triple an item states. -/
def triple (item : EdgeItem V) : String × String × String := (item.src, item.relation, item.dst)

/-- The row of an item: without an explicit id, under the id of its triple. -/
def edge (item : EdgeItem V) : Edge :=
  { id := item.id.getD (edgeId item.triple), src := item.src, relation := item.relation, dst := item.dst,
    properties := item.properties.getD [] }

/-- The document an item leaves. -/
def documentWrite (item : EdgeItem V) : DocumentWrite V :=
  ("e:" ++ item.edge.id, (bodyOf vectorOnly item.embedding item.fact).map fun body =>
    { metadata := [("kind", "edge"), ("relation", item.relation), ("src", item.src), ("dst", item.dst),
        ("edge_id", item.edge.id)], body })

end EdgeItem

/-- The phase of a batch in which a document is written. -/
def DocumentWrite.rank (entry : DocumentWrite V) : ℕ :=
  match entry.2.map Document.body with
  | none => 0
  | some (.text _) => 1
  | some (.vector _) => 2

variable (P : Primitives) (limit : ℕ)

/-- The ids of a document's chunks: those of its text, or its own id for a vector. -/
def DocumentWrite.chunkIds (entry : DocumentWrite V) : List String :=
  match entry.2.map Document.body with
  | none => []
  | some (.text text) => (planChunks P ⟨true, true⟩ entry.1 (fun _ => true)
      (Text.chunkChars limit (Text.trim text) []) ∅).map (·.chunkId)
  | some (.vector _) => [entry.1]

variable (documents : Documents V)

/-- The chunk ids of the documents an index holds. -/
def residentChunks : List String :=
  documents.toList.flatMap fun entry => DocumentWrite.chunkIds P limit (entry.1, some entry.2)

/-- Give a chunk its vector: the resident one, or the one embedded, which is there once. -/
def takeChunk (resident taken : List String) (chunkId : String) : Option (List String) :=
  if chunkId ∈ resident then some taken else if chunkId ∈ taken then none else some (chunkId :: taken)

/-- The loop of `add_many`. A chunk without a vector stops it half-way. -/
def putTexts (resident : List String) : List String → List (DocumentWrite V) → Documents V →
    Except (Documents V) (Documents V)
  | _, [], documents => .ok documents
  | taken, entry :: rest, documents =>
    match (entry.chunkIds P limit).foldlM (takeChunk resident) taken with
    | none => .error documents
    | some taken => putTexts resident taken rest (write documents entry)

variable (entries : List (DocumentWrite V))

/-- `add_many`. -/
def addMany : Except (Documents V) (Documents V) :=
  putTexts P limit (residentChunks P limit documents) [] entries documents

/-- Write one document: `add_vectors`, `add` or `remove`. -/
def indexOne (entry : DocumentWrite V) : Except (Documents V) (Documents V) :=
  if entry.rank = 1 then addMany P limit documents [entry] else .ok (write documents entry)

/-- Write a batch's documents: drop the stale ones, `add_many`, `add_vectors_many`. -/
def indexBatch : Except (Documents V) (Documents V) := do
  let cleared := (entries.filter fun entry => entry.rank = 0).foldl write documents
  let texts ← addMany P limit cleared (entries.filter fun entry => entry.rank = 1)
  return (entries.filter fun entry => entry.rank = 2).foldl write texts

/-- Write the retained vectors of a batch: drop the stale ones, then `set_node_vectors`. -/
def retainBatch (nodeVectors : Std.ExtTreeMap String V compare) (entries : List (String × Option V)) :
    Std.ExtTreeMap String V compare :=
  let cleared := (entries.filter fun entry => entry.2.isNone).foldl write nodeVectors
  (entries.filter fun entry => entry.2.isSome).foldl write cleared

namespace Graph

variable (graph : Graph V)

/-- The graph with the documents its index is left with, raising if the index did. -/
def indexed : Except (Documents V) (Documents V) → Except (Graph V) (Graph V)
  | .ok documents => .ok { graph with documents }
  | .error documents => .error { graph with documents }

/-- `add_node`: upsert the row, then `_index_node`. -/
def addNode (item : NodeItem V) : Except (Graph V) (Graph V) := do
  let stored : Graph V := { graph with nodes := graph.nodes.insert item.id item.node }
  let indexed ← stored.indexed (indexOne P graph.chunkCharacterLimit graph.documents (item.documentWrite graph.vectorOnly))
  return { indexed with
    nodeVectors := if graph.retainVectors then write graph.nodeVectors item.vectorWrite else graph.nodeVectors }

/-- `add_nodes`. -/
def addNodes (items : List (NodeItem V)) : Except (Graph V) (Graph V) :=
  let stored : Graph V := { graph with
    nodes := TreeMapRules.writeAll graph.nodes (items.map fun item => (item.id, item.node))
    nodeVectors :=
      if graph.retainVectors then retainBatch graph.nodeVectors (items.map NodeItem.vectorWrite)
      else graph.nodeVectors }
  stored.indexed (indexBatch P graph.chunkCharacterLimit graph.documents
    (items.map (NodeItem.documentWrite graph.vectorOnly)))

/-- `add_edge`: upsert the row, then `_index_edge` if edges are indexed. -/
def addEdge (item : EdgeItem V) : Except (Graph V) (Graph V) :=
  let stored : Graph V := { graph with edges := graph.edges.insert item.edge.id item.edge }
  if graph.indexEdges then
    stored.indexed (indexOne P graph.chunkCharacterLimit graph.documents (item.documentWrite graph.vectorOnly))
  else .ok stored

/-- `add_edges`. -/
def addEdges (items : List (EdgeItem V)) : Except (Graph V) (Graph V) :=
  let stored : Graph V := { graph with
    edges := TreeMapRules.writeAll graph.edges (items.map fun item => (item.edge.id, item.edge)) }
  if graph.indexEdges then
    stored.indexed (indexBatch P graph.chunkCharacterLimit graph.documents
      (items.map (EdgeItem.documentWrite graph.vectorOnly)))
  else .ok stored

/-- `ingest`: the buffered items, with edge ids drawn as buffered, as two batches. -/
def ingest (nodes : List (NodeItem V)) (edges : List (EdgeItem V)) : Except (Graph V) (Graph V) := do
  let filled ← if nodes.isEmpty then .ok graph else graph.addNodes P nodes
  if edges.isEmpty then .ok filled
  else filled.addEdges P (edges.map fun item => { item with id := some item.edge.id })

/-- `list_edges`, up to the order of the rows. -/
def listEdges : List Edge := graph.edges.toList.map Prod.snd

end Graph

/-! ### A batch of nodes against one call per node -/

/-- Two writes of one batch that keep their order: of different documents, or in phases one after the other, or in
one phase other than the texts'. -/
def DocumentWrite.InOrder (earlier later : DocumentWrite V) : Prop :=
  earlier.1 = later.1 → earlier.rank ≤ later.rank ∧ (earlier.rank = 1 → later.rank = 2)

section Texts

variable {P : Primitives} {limit : ℕ} {resident taken chunkIds : List String} {documents : Documents V}
  {entries : List (DocumentWrite V)} {entry : DocumentWrite V}

/-- New chunks without repetition all get a vector. -/
theorem foldlM_takeChunk (resident : List String) (hnodup : chunkIds.Nodup) (hnew : ∀ chunkId ∈ chunkIds, chunkId ∉ taken) :
    ∃ next, chunkIds.foldlM (takeChunk resident) taken = some next ∧
      ∀ chunkId ∈ next, chunkId ∈ taken ∨ chunkId ∈ chunkIds := by
  induction chunkIds generalizing taken with
  | nil => exact ⟨taken, rfl, fun _ => .inl⟩
  | cons chunkId chunkIds ih =>
    obtain ⟨hnot, hnodup⟩ := List.nodup_cons.mp hnodup
    obtain ⟨hhead, htail⟩ := List.forall_mem_cons.mp hnew
    obtain ⟨more, hmore, hsub⟩ : ∃ more, takeChunk resident taken chunkId = some more ∧
        ∀ id ∈ more, id ∈ taken ∨ id = chunkId := by
      unfold takeChunk
      rw [if_neg hhead]
      split
      · exact ⟨taken, rfl, fun _ => .inl⟩
      · exact ⟨_, rfl, fun id hid => (List.mem_cons.mp hid).symm⟩
    have hrest (id : String) (hid : id ∈ chunkIds) (hmem : id ∈ more) : False :=
      (hsub id hmem).elim (htail id hid) fun hsame => hnot (hsame ▸ hid)
    obtain ⟨next, hnext, hfrom⟩ := ih hnodup hrest
    refine ⟨next, by rw [List.foldlM_cons, hmore]; exact hnext, fun id hid => ?_⟩
    rcases hfrom id hid with hmem | hmem
    · rcases hsub id hmem with htaken | rfl
      · exact .inl htaken
      · exact .inr List.mem_cons_self
    · exact .inr (List.mem_cons_of_mem _ hmem)

/-- Texts that need no chunk twice are all put. -/
theorem putTexts_eq_ok (hnodup : (entries.flatMap (DocumentWrite.chunkIds P limit)).Nodup)
    (hnew : ∀ chunkId ∈ entries.flatMap (DocumentWrite.chunkIds P limit), chunkId ∉ taken) :
    putTexts P limit resident taken entries documents = .ok (entries.foldl write documents) := by
  induction entries generalizing taken documents with
  | nil => rfl
  | cons entry entries ih =>
    rw [List.flatMap_cons] at hnodup hnew
    obtain ⟨hown, hrest, happart⟩ := List.nodup_append.mp hnodup
    obtain ⟨next, hnext, hfrom⟩ := foldlM_takeChunk resident hown fun id hid => hnew id (List.mem_append_left _ hid)
    rw [putTexts, hnext, List.foldl_cons]
    refine ih hrest fun id hid hmem => ?_
    rcases hfrom id hmem with htaken | hshared
    · exact hnew id (List.mem_append_right _ hid) htaken
    · exact happart id hshared id hid rfl

/-- One document is written as a single write. -/
theorem indexOne_eq_ok (hnodup : (entry.chunkIds P limit).Nodup) :
    indexOne P limit documents entry = .ok (write documents entry) := by
  unfold indexOne
  split
  · exact putTexts_eq_ok (by simpa using hnodup) (by simp)
  · rfl

/-- A text's chunks are named after its document. -/
theorem DocumentWrite.chunkOf (hrank : entry.rank = 1) {chunkId : String} (h : chunkId ∈ entry.chunkIds P limit) :
    Text.ChunkOf P entry.1 chunkId := by
  unfold DocumentWrite.rank at hrank
  unfold DocumentWrite.chunkIds at h
  split at hrank <;> simp_all only [Nat.reduceEqDiff, zero_ne_one]
  obtain ⟨chunk, hchunk, rfl⟩ := List.mem_map.mp h
  exact (plannedFor_of_mem hchunk).chunkOf

/-- A batch whose writes keep their order leaves what they leave one by one. -/
theorem indexBatch_eq (horder : entries.Pairwise DocumentWrite.InOrder)
    (hchunks : ∀ entry ∈ entries, (entry.chunkIds P limit).Nodup) :
    indexBatch P limit documents entries = .ok (entries.foldl write documents) := by
  have htexts : ((entries.filter fun entry => entry.rank = 1).flatMap (DocumentWrite.chunkIds P limit)).Nodup := by
    refine List.nodup_flatMap.mpr ⟨fun entry hentry => hchunks entry (List.mem_filter.mp hentry).1, ?_⟩
    refine (horder.filter _).imp_of_mem fun {left right} hleft hright h chunkId hin hother => ?_
    have hleft := of_decide_eq_true (List.mem_filter.mp hleft).2
    have hright := of_decide_eq_true (List.mem_filter.mp hright).2
    obtain ⟨piece, _, hid⟩ := DocumentWrite.chunkOf hleft hin
    obtain ⟨same, _, hsame⟩ := DocumentWrite.chunkOf hright hother
    have := (h (Text.chunkIdForHash_inj (hid.symm.trans hsame)).1).2 hleft
    omega
  -- The vectors come last, and of what is before them the removals first.
  have hvectors := foldl_write_filter documents (fun entry : DocumentWrite V => entry.rank ≤ 1)
    (horder.imp fun h hsame hlow => decide_eq_true ((h hsame).1.trans (of_decide_eq_true hlow)))
  have hremovals := foldl_write_filter documents (fun entry : DocumentWrite V => entry.rank = 0)
    ((horder.filter fun entry => entry.rank ≤ 1).imp fun h hsame hzero =>
      decide_eq_true (Nat.le_zero.mp ((h hsame).1.trans (of_decide_eq_true hzero).le)))
  rw [← hvectors, ← hremovals, indexBatch, addMany, List.filter_filter, List.filter_filter]
  have hphase (entry : DocumentWrite V) :
      (decide (entry.rank = 0) && decide (entry.rank ≤ 1)) = decide (entry.rank = 0) ∧
      (!decide (entry.rank = 0) && decide (entry.rank ≤ 1)) = decide (entry.rank = 1) ∧
      (!decide (entry.rank ≤ 1)) = decide (entry.rank = 2) := by
    unfold DocumentWrite.rank
    split <;> exact ⟨rfl, rfl, rfl⟩
  rw [putTexts_eq_ok htexts (by simp)]
  simp only [hphase]
  rfl

end Texts

/-- What one call per item leaves: every table takes the writes of the items in order. -/
theorem foldlM_addNode {P : Primitives} (graph : Graph V) (items : List (NodeItem V)) (hchunks : ∀ item ∈ items,
    ((item.documentWrite graph.vectorOnly).chunkIds P graph.chunkCharacterLimit).Nodup) :
    items.foldlM (Graph.addNode P) graph = .ok { graph with
      nodes := TreeMapRules.writeAll graph.nodes (items.map fun item => (item.id, item.node))
      nodeVectors :=
        if graph.retainVectors then (items.map NodeItem.vectorWrite).foldl write graph.nodeVectors
        else graph.nodeVectors
      documents := (items.map (NodeItem.documentWrite graph.vectorOnly)).foldl write graph.documents } := by
  induction items generalizing graph with
  | nil => cases graph; simp [TreeMapRules.writeAll]; rfl
  | cons item items ih =>
    obtain ⟨hitem, hrest⟩ := List.forall_mem_cons.mp hchunks
    have hadded : graph.addNode P item = .ok { graph with
        nodes := graph.nodes.insert item.id item.node
        nodeVectors := if graph.retainVectors then write graph.nodeVectors item.vectorWrite else graph.nodeVectors
        documents := write graph.documents (item.documentWrite graph.vectorOnly) } := by
      rw [Graph.addNode, indexOne_eq_ok hitem]
      rfl
    rw [List.foldlM_cons, hadded, ExceptRules.ok_bind, ih]
    · simp only [List.map_cons, List.foldl_cons, TreeMapRules.writeAll_cons]
      split <;> rfl
    · exact hrest

/-- An item is written before the vectors exactly when it has no embedding. -/
theorem NodeItem.rank_le_one_iff (item : NodeItem V) (vectorOnly : Bool) :
    (item.documentWrite vectorOnly).rank ≤ 1 ↔ item.embedding.isNone := by
  unfold NodeItem.documentWrite bodyOf DocumentWrite.rank
  cases item.embedding <;> cases (some item.label).filter fun text => !vectorOnly && !text.toList.all isSpace <;> simp

/-- A call that adds edges. -/
inductive EdgeCall (V : Type)
  | addEdge (item : EdgeItem V)
  | addEdges (items : List (EdgeItem V))

/-- The items of a call. -/
def EdgeCall.items : EdgeCall V → List (EdgeItem V)
  | .addEdge item => [item]
  | .addEdges items => items

/-- The graph a call leaves, returned or raised. -/
def leaves : Except (Graph V) (Graph V) → Graph V
  | .ok graph => graph
  | .error graph => graph

variable (graph : Graph V)

/-- Make a call. -/
def Graph.call : EdgeCall V → Graph V
  | .addEdge item => leaves (graph.addEdge P item)
  | .addEdges items => leaves (graph.addEdges P items)

/-- A listing has one edge for each triple of the items, with its last item's properties. -/
def ListsTriples (items : List (EdgeItem V)) (listing : List Edge) : Prop :=
  (listing.map Edge.triple).Nodup ∧
    ∀ triple properties, (∃ edge ∈ listing, edge.triple = triple ∧ edge.properties = properties) ↔
      (last? (fun item => item.triple = triple) items).map (fun item => item.properties.getD []) = some properties

/-- A call writes the rows of its items, also if its index raises. -/
theorem edges_call (call : EdgeCall V) :
    (graph.call P call).edges =
      (call.items.map fun item => (item.edge.id, some item.edge)).foldl write graph.edges := by
  have hindexed (stored : Graph V) (outcome : Except (Documents V) (Documents V)) :
      (leaves (stored.indexed outcome)).edges = stored.edges := by cases outcome <;> rfl
  cases call with
  | addEdge item =>
    rw [Graph.call, Graph.addEdge]
    split
    · exact hindexed _ _
    · rfl
  | addEdges items =>
    simp only [EdgeCall.items, List.foldl_map]
    rw [Graph.call, Graph.addEdges, TreeMapRules.writeAll, List.foldl_map]
    split
    · exact hindexed _ _
    · rfl

/-- The calls of a run write the rows of their items in order. -/
theorem edges_foldl_call (calls : List (EdgeCall V)) :
    (calls.foldl (Graph.call P) graph).edges =
      ((calls.flatMap EdgeCall.items).map fun item => (item.edge.id, some item.edge)).foldl write graph.edges := by
  induction calls generalizing graph with
  | nil => rfl
  | cons call calls ih =>
    rw [List.foldl_cons, ih, edges_call, List.flatMap_cons, List.map_append, List.foldl_append]

/-- The listing after a run on a fresh table holds the last row of each derived id. -/
theorem mem_toList_edges {graph : Graph V} (hempty : graph.edges = ∅) {calls : List (EdgeCall V)}
    (hderived : ∀ item ∈ calls.flatMap EdgeCall.items, item.id = none) (entry : String × Edge) :
    entry ∈ (calls.foldl (Graph.call P) graph).edges.toList ↔
      ∃ item, last? (fun other => edgeId other.triple = entry.1) (calls.flatMap EdgeCall.items) = some item ∧
        item.edge = entry.2 := by
  obtain ⟨id, edge⟩ := entry
  have hid : last? (fun other : EdgeItem V => other.edge.id = id) (calls.flatMap EdgeCall.items) =
      last? (fun other => edgeId other.triple = id) (calls.flatMap EdgeCall.items) :=
    last?_congr fun item hitem => by simp [EdgeItem.edge, hderived item hitem]
  rw [Std.ExtTreeMap.mem_toList_iff_getElem?_eq_some, edges_foldl_call, getElem?_foldl_write, last?_map, hempty]
  simp only [Function.comp_def, hid]
  cases last? (fun other => edgeId other.triple = id) (calls.flatMap EdgeCall.items) <;> simp

/-- The listing is by triples exactly when joining keeps the added triples apart. -/
theorem listsTriples_listEdges_iff (hempty : graph.edges = ∅) (calls : List (EdgeCall V))
    (hderived : ∀ item ∈ calls.flatMap EdgeCall.items, item.id = none) :
    ListsTriples (calls.flatMap EdgeCall.items) (calls.foldl (Graph.call P) graph).listEdges ↔
      ∀ left ∈ calls.flatMap EdgeCall.items, ∀ right ∈ calls.flatMap EdgeCall.items,
        edgeId left.triple = edgeId right.triple → left.triple = right.triple := by
  have hentry := mem_toList_edges P hempty hderived
  have hlisted (edge : Edge) : edge ∈ (calls.foldl (Graph.call P) graph).listEdges ↔
      ∃ id, (id, edge) ∈ (calls.foldl (Graph.call P) graph).edges.toList := by simp [Graph.listEdges]
  generalize calls.flatMap EdgeCall.items = items at *
  -- The key of a row is the id of its triple.
  have hkey (entry : String × Edge) (h : entry ∈ (calls.foldl (Graph.call P) graph).edges.toList) :
      entry.1 = edgeId entry.2.triple := by
    obtain ⟨item, hlast, hedge⟩ := (hentry entry).mp h
    rw [← hedge, ← of_decide_eq_true (last?_spec hlast).2]
    rfl
  constructor
  · rintro ⟨-, hlists⟩ left hleft right hright hid
    have hrow (item : EdgeItem V) (hitem : item ∈ items) :
        ∃ edge, (edgeId item.triple, edge) ∈ (calls.foldl (Graph.call P) graph).edges.toList ∧ edge.triple = item.triple := by
      obtain ⟨last, hlast⟩ : ∃ last, last? (fun other => other.triple = item.triple) items = some last :=
        exists_last? hitem (decide_eq_true rfl)
      obtain ⟨edge, hedge, htriple, -⟩ := (hlists item.triple (last.properties.getD [])).mpr (by simp [hlast])
      obtain ⟨id, hmem⟩ := (hlisted edge).mp hedge
      exact ⟨edge, by rwa [← htriple, ← hkey _ hmem], htriple⟩
    obtain ⟨first, hfirst, hfirstTriple⟩ := hrow left hleft
    obtain ⟨second, hsecond, hsecondTriple⟩ := hrow right hright
    rw [hid, Std.ExtTreeMap.mem_toList_iff_getElem?_eq_some] at hfirst
    rw [Std.ExtTreeMap.mem_toList_iff_getElem?_eq_some, hfirst] at hsecond
    rw [← hfirstTriple, ← hsecondTriple, Option.some.inj hsecond]
  · intro hapart
    refine ⟨?_, fun triple properties => ?_⟩
    · rw [Graph.listEdges, List.map_map]
      refine List.Nodup.map_on (fun first hfirst second hsecond htriple => ?_) (TreeMapRules.toList_nodup _)
      have hid : first.1 = second.1 := by
        rw [hkey first hfirst, hkey second hsecond]
        exact congrArg edgeId htriple
      rw [Std.ExtTreeMap.mem_toList_iff_getElem?_eq_some] at hfirst hsecond
      rw [← hid, hfirst] at hsecond
      exact Prod.ext hid (Option.some.inj hsecond)
    · have htest (item : EdgeItem V) (hitem : item ∈ items) :
          last? (fun other => edgeId other.triple = edgeId item.triple) items =
            last? (fun other => other.triple = item.triple) items :=
        last?_congr fun other hother => decide_eq_decide.mpr ⟨hapart other hother item hitem, congrArg edgeId⟩
      constructor
      · rintro ⟨edge, hedge, rfl, rfl⟩
        obtain ⟨id, hmem⟩ := (hlisted edge).mp hedge
        obtain ⟨item, hlast, hitem⟩ := (hentry _).mp hmem
        obtain ⟨hmember, hid⟩ := last?_spec hlast
        obtain rfl := of_decide_eq_true hid
        rw [htest item hmember] at hlast
        subst hitem
        exact congrArg (Option.map fun item : EdgeItem V => item.properties.getD []) hlast
      · intro h
        obtain ⟨item, hlast, rfl⟩ := Option.map_eq_some_iff.mp h
        obtain ⟨hmember, htriple⟩ := last?_spec hlast
        obtain rfl := of_decide_eq_true htriple
        rw [← htest item hmember] at hlast
        exact ⟨item.edge, (hlisted _).mpr ⟨_, (hentry (edgeId item.triple, item.edge)).mpr ⟨item, hlast, rfl⟩⟩, rfl, rfl⟩

/-- Re-adding a triple replaces its properties and leaves the other triple. -/
theorem listsTriples_listEdges_readded :
    let second : EdgeItem ℕ := { src := "ada", relation := "works_at", dst := "acme" }
    let first : EdgeItem ℕ := { second with properties := some [("since", .number "1")] }
    let other : EdgeItem ℕ := { src := "ada", relation := "knows", dst := "bob" }
    ListsTriples [first, other, second]
      ([.addEdge first, .addEdges [other, second]].foldl (Graph.call .sample) {}).listEdges := by
  intro second first other
  exact (listsTriples_listEdges_iff .sample {} rfl [.addEdge first, .addEdges [other, second]] (by decide)).mpr (by decide)

/-- Two triples that join to one text share one edge. -/
theorem not_listsTriples_listEdges :
    ¬ ∀ calls : List (EdgeCall ℕ), (∀ item ∈ calls.flatMap EdgeCall.items, item.id = none) →
      ListsTriples (calls.flatMap EdgeCall.items) (calls.foldl (Graph.call .sample) {}).listEdges := by
  intro h
  have hlists := h [.addEdge { src := "a:b", relation := "c", dst := "d" },
    .addEdge { src := "a", relation := "b:c", dst := "d" }] (by decide)
  obtain ⟨edge, hedge, htriple, -⟩ := (hlists.2 ("a:b", "c", "d") []).mpr rfl
  have hmember := List.mem_map_of_mem (f := Edge.triple) hedge
  rw [htriple] at hmember
  exact absurd hmember (by decide +kernel)

end LodeDB.Knowledge
