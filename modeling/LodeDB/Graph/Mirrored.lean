import LodeDB.Graph.IndexSteps

/-!
# The mirror of the tables

Documents under ids of their kinds are known by their lookups at the ids of entities and of facts. The index writes
of a transaction turn the mirror of the tables before it into the mirror of the tables it commits, and a rebuild that
succeeds makes the mirror out of whatever the index held.
-/

namespace LodeDB.Graph

open TreeMapRules ExceptRules LodeDB.Graph.Topology

variable {entity : Entity} {vector : Option Embedding} {fact : Fact} {documents memory : Documents}
  {pending : List PendingDocument} {id key : String} {α : Type} {graph : TemporalGraph} {now : TimeMs}
  {state : Topology × List String} {invalidAt : Option TimeMs} {record : FactIndexRecord}
  {priors : List Prior} {closed : Topology}

/-! ### Document ids -/

/-- Texts are told apart behind a common start. -/
theorem append_injective (start : String) : Function.Injective (start ++ ·) := by
  intro left right h
  have hlists := congrArg String.toList h
  simp only [String.toList_append, List.append_cancel_left_eq] at hlists
  exact String.toList_inj.mp hlists

/-- Entities have document ids of their own. -/
theorem entityDocId_injective : Function.Injective entityDocId := append_injective "n:"

/-- So have facts. -/
theorem factDocId_injective : Function.Injective factDocId := append_injective "e:"

/-- No entity shares a document id with a fact. -/
theorem entityDocId_ne_factDocId (entityId factId : String) : entityDocId entityId ≠ factDocId factId := by
  intro h
  have hlists := congrArg String.toList h
  simp [entityDocId, factDocId] at hlists

/-- The start of a text is stripped. -/
theorem stripStart_append (start text : String) : stripStart start (start ++ text) = text := by
  unfold stripStart
  rw [String.toList_append, if_pos (List.prefix_append _ _), List.drop_left, String.ofList_toList]

/-- Documents under ids of their kinds are equal if they agree at entity and fact ids. -/
theorem Kinded.ext {left right : Documents} (hleft : Kinded left) (hright : Kinded right)
    (hent : ∀ id, left[entityDocId id]? = right[entityDocId id]?)
    (hfact : ∀ id, left[factDocId id]? = right[factDocId id]?) : left = right := by
  have hat {key : String} {document : IndexDocument} (hkey : KindedEntry key document) : left[key]? = right[key]? := by
    cases hkey with
    | entity id => exact hent id
    | fact id => exact hfact id
  apply Std.ExtTreeMap.ext_getElem?
  intro key
  rcases Option.eq_none_or_eq_some left[key]? with hnone | ⟨document, hdoc⟩
  · rcases Option.eq_none_or_eq_some right[key]? with hother | ⟨document, hdoc⟩
    · rw [hnone, hother]
    · exact hat (hright key document hdoc)
  · exact hat (hleft key document hdoc)

/-! ### Lookups in the mirror -/

/-- The document of a fact, if facts are indexed. -/
def factDocument (config : GraphConfig) (fact : Fact) (vector : Option Embedding) : Option IndexDocument :=
  if config.indexFacts then (pendingFact fact vector).document config else none

section Mirror

variable (config : GraphConfig) (topology : Topology) (id : String)

/-- An entity has the document of its row and vector. -/
theorem getElem?_entityDocuments : (entityDocuments config topology)[id]? =
    topology.entities[id]?.bind fun entity => (pendingEntity entity topology.entityVectors[id]?).document config :=
  getElem?_collect _ _ _

/-- A fact has the document of its row and vector. -/
theorem getElem?_factDocuments : (factDocuments config topology)[id]? =
    topology.facts[id]?.bind fun fact => factDocument config fact topology.factVectors[id]? := getElem?_collect _ _ _

/-- The mirror has an entity's document under its id. -/
theorem getElem?_mirror_entity :
    (mirror config topology)[entityDocId id]? = (entityDocuments config topology)[id]? := by
  rw [mirror, getElem?_writeAll_of_notMem, getElem?_writeAll_rename entityDocId_injective (by simp)]
  simp only [List.map_map, List.mem_map, Function.comp_apply, not_exists, not_and]
  exact fun entry _ => (entityDocId_ne_factDocId id entry.1).symm

/-- The mirror has a fact's document under its id. -/
theorem getElem?_mirror_fact :
    (mirror config topology)[factDocId id]? = (factDocuments config topology)[id]? := by
  rw [mirror, getElem?_writeAll_rename factDocId_injective]
  rw [getElem?_writeAll_of_notMem, Std.ExtTreeMap.getElem?_empty]
  simp only [List.map_map, List.mem_map, Function.comp_apply, not_exists, not_and]
  exact fun entry _ => entityDocId_ne_factDocId entry.1 id

/-- Documents written under the ids of their kind. -/
theorem renamed_kinded {source : Documents} {rename : String → String}
    (h : ∀ id document, source[id]? = some document → KindedEntry (rename id) document) :
    (IndexWrite.upsert (source.toList.map fun entry => (rename entry.1, entry.2))).Kinded := by
  intro written hwr
  obtain ⟨entry, hentry, rfl⟩ := List.mem_map.mp hwr
  exact h entry.1 entry.2 (Std.ExtTreeMap.mem_toList_iff_getElem?_eq_some.mp hentry)

/-- The mirror is under ids of its kinds. -/
theorem mirror_kinded : Kinded (mirror config topology) := by
  refine (kinded_empty.apply (renamed_kinded ?_)).apply (renamed_kinded ?_)
  · intro id document hdoc
    rw [getElem?_entityDocuments] at hdoc
    obtain ⟨entity, _, hdoc⟩ := Option.bind_eq_some_iff.mp hdoc
    obtain ⟨content, rfl⟩ := PendingDocument.document_metadata hdoc
    exact .entity id _ ((IndexedRecord.entity entity).getElem?_metadata (IndexedRecord.entity entity).kind_mem_fields)
  · intro id document hdoc
    rw [getElem?_factDocuments] at hdoc
    obtain ⟨fact, _, hdoc⟩ := Option.bind_eq_some_iff.mp hdoc
    unfold factDocument at hdoc
    split at hdoc
    · obtain ⟨content, rfl⟩ := PendingDocument.document_metadata hdoc
      exact .fact id _ ((IndexedRecord.fact fact).getElem?_metadata (IndexedRecord.fact fact).kind_mem_fields)
    · cases hdoc

/-- Documents under ids of their kinds are the mirror if they hold exactly the rows' documents. -/
theorem eq_mirror (hkinded : Kinded documents)
    (hent : ∀ id, documents[entityDocId id]? = (entityDocuments config topology)[id]?)
    (hfact : ∀ id, documents[factDocId id]? = (factDocuments config topology)[id]?) :
    documents = mirror config topology := by
  refine hkinded.ext (mirror_kinded config topology) ?_ ?_
  · exact fun id => (hent id).trans (getElem?_mirror_entity config topology id).symm
  · exact fun id => (hfact id).trans (getElem?_mirror_fact config topology id).symm

end Mirror

/-! ### Lookups after a batch -/

section Batch

variable {config : GraphConfig} {embedder : Bool}

/-- No id is upserted twice. -/
theorem upsertOf_nodup {mode : Ingest} (hnodup : (pending.map PendingDocument.docId).Nodup) :
    ((upsertOf config embedder mode pending).map Prod.fst).Nodup := by
  rw [List.Nodup, List.pairwise_map] at hnodup ⊢
  rw [upsertOf, List.pairwise_filterMap]
  refine hnodup.imp ?_
  intro left right hne leftEntry hleft rightEntry hright
  have hid {document : PendingDocument} {entry : String × IndexDocument}
      (h : (if document.ingest embedder = mode then
        (document.document config).map fun value => (document.docId, value) else none) = some entry) :
      entry.1 = document.docId := by
    split at h
    · obtain ⟨_, -, rfl⟩ := Option.map_eq_some_iff.mp h
      rfl
    · cases h
  rwa [hid hleft, hid hright]

/-- What is cleared: the ids of documents with nothing to ingest. -/
theorem mem_clearedIds :
    key ∈ clearedIds embedder pending ↔ ∃ document ∈ pending, document.ingest embedder = .clear ∧ document.docId = key := by
  simp [clearedIds, and_assoc]

/-- The ids a batch writes or clears are those of its records. -/
theorem getElem?_writeEffect_of_notMem (documents : Documents) (hkey : key ∉ pending.map PendingDocument.docId) :
    (writeEffect config embedder pending documents)[key]? = documents[key]? := by
  have hwr (mode : Ingest) : key ∉ (upsertOf config embedder mode pending).map Prod.fst := by
    intro hmem
    obtain ⟨entry, hentry, rfl⟩ := List.mem_map.mp hmem
    obtain ⟨document, hdoc, _, hid, _⟩ := mem_upsertOf.mp hentry
    exact hkey (List.mem_map.mpr ⟨document, hdoc, hid⟩)
  have hcleared : key ∉ clearedIds embedder pending := by
    intro hmem
    obtain ⟨document, hdoc, _, hid⟩ := mem_clearedIds.mp hmem
    exact hkey (List.mem_map.mpr ⟨document, hdoc, hid⟩)
  rw [writeEffect, getElem?_eraseAll, if_neg hcleared, getElem?_writeAll_of_notMem _ _ _ (hwr _),
    getElem?_writeAll_of_notMem _ _ _ (hwr _)]

/-- A record with an embedder, or without need, is cleared exactly if it has no document. -/
theorem PendingDocument.ingest_eq_clear (config : GraphConfig) {document : PendingDocument}
    (hfits : isRebuildable embedder document.vector document.text = true) :
    document.ingest embedder = .clear ↔ document.document config = none := by
  unfold PendingDocument.ingest PendingDocument.document
  cases hvec : document.vector with
  | some vector => simp
  | none =>
    rw [isRebuildable, hvec] at hfits
    cases hblank : isBlank document.text <;> simp_all

/-- After a batch with distinct ids each of its records has its document. -/
theorem getElem?_writeEffect_of_mem (hnodup : (pending.map PendingDocument.docId).Nodup) (documents : Documents)
    {document : PendingDocument} (hdoc : document ∈ pending)
    (hfits : isRebuildable embedder document.vector document.text = true) :
    (writeEffect config embedder pending documents)[document.docId]? = document.document config := by
  have honly {other : PendingDocument} (hother : other ∈ pending) (hid : other.docId = document.docId) :
      other = document := List.inj_on_of_nodup_map hnodup hother hdoc hid
  rw [writeEffect, getElem?_eraseAll]
  split
  · rename_i hcleared
    obtain ⟨other, hother, hclear, hid⟩ := mem_clearedIds.mp hcleared
    rw [honly hother hid] at hclear
    exact ((document.ingest_eq_clear config hfits).mp hclear).symm
  · rename_i hkept
    have hingest : document.ingest embedder ≠ .clear := fun hclear =>
      hkept (mem_clearedIds.mpr ⟨document, hdoc, hclear, rfl⟩)
    obtain ⟨value, hvalue⟩ := Option.ne_none_iff_exists'.mp
      (fun hnone => hingest ((document.ingest_eq_clear config hfits).mpr hnone))
    rw [hvalue]
    have hentry : (document.docId, value) ∈ upsertOf config embedder (document.ingest embedder) pending :=
      mem_upsertOf.mpr ⟨document, hdoc, rfl, rfl, hvalue⟩
    cases hmode : document.ingest embedder with
    | clear => exact absurd hmode hingest
    | text =>
      rw [hmode] at hentry
      exact getElem?_writeAll_of_mem _ _ (upsertOf_nodup hnodup) hentry
    | vector =>
      rw [hmode] at hentry
      rw [getElem?_writeAll_of_notMem, getElem?_writeAll_of_mem _ _ (upsertOf_nodup hnodup) hentry]
      intro hmem
      obtain ⟨other, hother, hid⟩ := List.mem_map.mp hmem
      obtain ⟨written, hwr, htext, hwrittenId, _⟩ := mem_upsertOf.mp hother
      rw [honly hwr (hwrittenId.trans hid), hmode] at htext
      cases htext

end Batch

/-- A round of writes that gives each item its document and leaves the other ids alone. -/
structure WritesBatch {ι : Type} (round : List ι → Documents → Documents) (docId : ι → String)
    (document : ι → Option IndexDocument) (fits : ι → Prop) : Prop where
  kept : ∀ (batch : List ι) (documents : Documents) (key : String), key ∉ batch.map docId →
    (round batch documents)[key]? = documents[key]?
  written : ∀ (batch : List ι) (documents : Documents), (batch.map docId).Nodup → ∀ item ∈ batch, fits item →
    (round batch documents)[docId item]? = document item
  kinded : ∀ (batch : List ι) (documents : Documents), Kinded documents → Kinded (round batch documents)

section Rounds

variable {config : GraphConfig} {embedder : Bool}

/-- A round of writes keeps documents under ids of their kinds. -/
theorem Kinded.writeEffect (h : Kinded documents) (hpend : ∀ document ∈ pending, document.Kinded) :
    Kinded (writeEffect config embedder pending documents) := by
  have hupsert (mode : Ingest) : (IndexWrite.upsert (upsertOf config embedder mode pending)).Kinded :=
    upsertOf_kinded hpend
  have hdelete : (IndexWrite.delete (clearedIds embedder pending)).Kinded := trivial
  exact ((h.apply (hupsert .vector)).apply (hupsert .text)).apply hdelete

/-- So does erasing some. -/
theorem Kinded.eraseAll (h : Kinded documents) (keys : List String) : Kinded (eraseAll documents keys) := by
  have hdelete : (IndexWrite.delete keys).Kinded := trivial
  exact h.apply hdelete

/-- Writing the records that are pending for items. -/
theorem writesPending {ι : Type} (config : GraphConfig) (embedder : Bool) {pendingOf : ι → PendingDocument}
    (hkinded : ∀ item, (pendingOf item).Kinded) :
    WritesBatch (fun items documents => Graph.writeEffect config embedder (items.map pendingOf) documents)
      (fun item => (pendingOf item).docId) (fun item => (pendingOf item).document config)
      fun item => isRebuildable embedder (pendingOf item).vector (pendingOf item).text = true where
  kept batch documents key hkey := getElem?_writeEffect_of_notMem documents (by rwa [List.map_map])
  written batch documents hnodup item hitem :=
    getElem?_writeEffect_of_mem (by rwa [List.map_map]) documents (List.mem_map_of_mem hitem)
  kinded batch documents h := by
    refine h.writeEffect ?_
    intro document hdoc
    obtain ⟨item, _, rfl⟩ := List.mem_map.mp hdoc
    exact hkinded item

/-- A round of entities gives each one its row's document. -/
theorem writesEntities (config : GraphConfig) (embedder : Bool) :
    WritesBatch (fun (entities : List (Entity × Option Embedding)) documents => Graph.writeEffect config embedder
        (entities.map fun entry => pendingEntity entry.1 entry.2) documents)
      (fun entry => entityDocId entry.1.id) (fun entry => (pendingEntity entry.1 entry.2).document config)
      fun entry => isRebuildable embedder entry.2 entry.1.label = true :=
  writesPending config embedder fun entry => pendingEntity_kinded entry.1 entry.2

/-- A round of facts gives each one its row's document. -/
theorem writesFacts (config : GraphConfig) (embedder : Bool) :
    WritesBatch (factEffect config embedder) (fun entry => factDocId entry.1.id)
      (fun entry => factDocument config entry.1 entry.2)
      fun entry => config.indexFacts = true → isRebuildable embedder entry.2 entry.1.fact = true := by
  unfold factEffect factDocument
  cases config.indexFacts with
  | true =>
    have hwrites := writesPending config embedder fun entry : Fact × Option Embedding => pendingFact_kinded entry.1 entry.2
    exact ⟨hwrites.kept, fun batch documents hnodup entry hentry hfits =>
      hwrites.written batch documents hnodup entry hentry (hfits rfl), hwrites.kinded⟩
  | false =>
    refine ⟨?_, ?_, ?_⟩
    · intro batch documents key hkey
      exact (getElem?_eraseAll _ _ _).trans (if_neg hkey)
    · intro batch documents _ entry hentry _
      exact (getElem?_eraseAll _ _ _).trans (if_pos (List.mem_map.mpr ⟨entry, hentry, rfl⟩))
    · intro batch documents hkinded
      exact hkinded.eraseAll _

/-- Cutting a list into batches loses nothing, given enough fuel. -/
theorem flatten_batchesFrom {size : ℕ} (hsize : 0 < size) {fuel : ℕ} {items : List α}
    (hfuel : items.length ≤ fuel) : (batchesFrom size fuel items).flatten = items := by
  induction fuel generalizing items with
  | zero =>
    rw [List.length_eq_zero_iff.mp (Nat.le_zero.mp hfuel)]
    rfl
  | succ fuel ih =>
    cases items with
    | nil => rfl
    | cons item rest =>
      have hrest : ((item :: rest).drop size).length ≤ fuel := by
        rw [List.length_drop, List.length_cons]
        rw [List.length_cons] at hfuel
        omega
      rw [batchesFrom, List.flatten_cons, ih hrest, List.take_append_drop]
      exact List.cons_ne_nil item rest

/-- The batches of a list make up the list. -/
theorem flatten_batches (items : List α) : (batches items).flatten = items :=
  flatten_batchesFrom (by decide) le_rfl

section Folded

variable {ι : Type} {round : List ι → Documents → Documents} {docId : ι → String}
  {document : ι → Option IndexDocument} {fits : ι → Prop}

section

variable (h : WritesBatch round docId document fits)

include h

variable (rounds : List (List ι))

/-- Rounds leave the ids they do not write. -/
theorem WritesBatch.foldl_kept (documents : Documents)
    (hkey : key ∉ rounds.flatten.map docId) :
    (rounds.foldl (fun documents batch => round batch documents) documents)[key]? = documents[key]? := by
  induction rounds generalizing documents with
  | nil => rfl
  | cons batch rest ih =>
    rw [List.flatten_cons, List.map_append, List.mem_append, not_or] at hkey
    rw [List.foldl_cons, ih _ hkey.2, h.kept batch documents key hkey.1]

/-- Rounds give every item its document. -/
theorem WritesBatch.foldl_written (documents : Documents)
    (hnodup : (rounds.flatten.map docId).Nodup) {item : ι} (hitem : item ∈ rounds.flatten) (hfits : fits item) :
    (rounds.foldl (fun documents batch => round batch documents) documents)[docId item]? = document item := by
  induction rounds generalizing documents with
  | nil => cases hitem
  | cons batch rest ih =>
    rw [List.flatten_cons, List.map_append, List.nodup_append] at hnodup
    obtain ⟨hbatch, hrest, hapart⟩ := hnodup
    rw [List.foldl_cons]
    rcases List.mem_append.mp hitem with hnow | hlater
    · -- no later batch has the id again
      rw [h.foldl_kept, h.written batch documents hbatch item hnow hfits]
      exact fun hagain => hapart _ (List.mem_map_of_mem hnow) _ hagain rfl
    · exact ih _ hrest hlater

/-- Rounds keep documents under ids of their kinds. -/
theorem WritesBatch.foldl_kinded (hkinded : Kinded documents) :
    Kinded (rounds.foldl (fun documents batch => round batch documents) documents) := by
  induction rounds generalizing documents with
  | nil => exact hkinded
  | cons batch rest ih => exact ih (h.kinded batch documents hkinded)

/-- Writing a list in batches. -/
theorem WritesBatch.batches :
    WritesBatch (fun items documents =>
      (Graph.batches items).foldl (fun documents batch => round batch documents) documents) docId document fits where
  kept items documents key hkey := h.foldl_kept _ documents (by rwa [flatten_batches])
  written items documents hnodup item hitem hfits :=
    h.foldl_written _ documents (by rwa [flatten_batches]) (by rwa [flatten_batches]) hfits
  kinded _ _ hkinded := h.foldl_kinded _ hkinded

end

end Folded

end Rounds

/-! ### Rebuilding -/

/-- The orphans of a kind: its documents whose id names no live row. -/
theorem mem_orphanDocIds {kind start : String} {live : List String} :
    key ∈ orphanDocIds documents kind start live ↔ ∃ document, documents[key]? = some document ∧
      document.metadata["kind"]? = some kind ∧ stripStart start key ∉ live := by
  simp only [orphanDocIds, List.mem_map, List.mem_filter, Bool.and_eq_true, beq_iff_eq, Bool.not_eq_true',
    List.contains_eq_mem, decide_eq_false_iff_not]
  constructor
  · rintro ⟨entry, ⟨hentry, hkind, hlive⟩, rfl⟩
    exact ⟨entry.2, Std.ExtTreeMap.mem_toList_iff_getElem?_eq_some.mp hentry, hkind, hlive⟩
  · rintro ⟨document, hdoc, hkind, hlive⟩
    exact ⟨(key, document), ⟨Std.ExtTreeMap.mem_toList_iff_getElem?_eq_some.mpr hdoc, hkind, hlive⟩, rfl⟩

variable (topology : Topology)

/-- The ids of the documents of the rows. -/
def rowDocIds : List String :=
  topology.entities.keys.map entityDocId ++ topology.facts.keys.map factDocId

/-- The document ids of rows are those of entities and of facts. -/
theorem mem_rowDocIds {topology : Topology} : key ∈ rowDocIds topology ↔
    key ∈ topology.entities.keys.map entityDocId ∨ key ∈ topology.facts.keys.map factDocId := List.mem_append

/-- A document without a row for a rebuild: of a kind, with an id that names no row of it. -/
def Orphaned (key : String) (document : IndexDocument) : Prop :=
  (document.metadata["kind"]? = some "entity" ∧ stripStart "n:" key ∉ topology.entities.keys) ∨
    (document.metadata["kind"]? = some "fact" ∧ stripStart "e:" key ∉ topology.facts.keys)

/-- Documents each of which a rebuild writes again or drops. -/
def Replaceable (documents : Documents) : Prop :=
  ∀ (key : String) (document : IndexDocument), documents[key]? = some document → key ∉ rowDocIds topology →
    Orphaned topology key document

/-- Documents under ids of their kinds can all be replaced. -/
theorem Kinded.replaceable (h : Kinded documents) (topology : Topology) : Replaceable topology documents := by
  intro key document hdoc hkey
  cases h key document hdoc with
  | entity id _ hkind =>
    refine .inl ⟨hkind, ?_⟩
    rw [entityDocId, stripStart_append]
    exact fun hid => hkey (mem_rowDocIds.mpr (.inl (List.mem_map_of_mem hid)))
  | fact id _ hkind =>
    refine .inr ⟨hkind, ?_⟩
    rw [factDocId, stripStart_append]
    exact fun hid => hkey (mem_rowDocIds.mpr (.inr (List.mem_map_of_mem hid)))

/-- Dropping orphans leaves nothing at an id exactly if what was there was an orphan. -/
theorem getElem?_orphanEffect_eq_none {topology : Topology} :
    (orphanEffect memory topology.entities.keys topology.facts.keys memory)[key]? = none ↔
      ∀ document, memory[key]? = some document → Orphaned topology key document := by
  rw [orphanEffect, getElem?_eraseAll, getElem?_eraseAll]
  simp only [mem_orphanDocIds, Orphaned]
  rcases Option.eq_none_or_eq_some memory[key]? with hnone | ⟨document, hdoc⟩
  · simp [hnone]
  · simp only [hdoc, Option.some.injEq, exists_eq_left', forall_eq']
    split_ifs <;> simp_all

/-- A check that passes found every record to be rebuildable. -/
theorem checkRebuildable_eq_ok : checkRebuildable graph = .ok () ↔ (∀ record ∈ entityIndexRecords graph.topology,
        isRebuildable graph.embedder.isSome record.2 record.1.label = true) ∧
      ∀ record ∈ factIndexRecords graph.topology, graph.config.indexFacts = true →
        isRebuildable graph.embedder.isSome record.2 record.1.fact = true := by
  simp only [checkRebuildable, List.forM_eq_forM, bind_eq_ok]
  constructor
  · rintro ⟨⟨⟩, hents, hfacts⟩
    simp only [forM_eq_ok, ensure_eq_ok] at hents hfacts
    exact ⟨hents, hfacts⟩
  · rintro ⟨hents, hfacts⟩
    refine ⟨(), ?_, ?_⟩ <;> simpa only [forM_eq_ok, ensure_eq_ok]

section Records

variable {topology : Topology}

/-- The ids of a table are those of its rows. -/
theorem mem_keys_iff {table : Table α} : id ∈ table.keys ↔ ∃ row, table[id]? = some row := by
  rw [← List.mem_toFinset]
  exact mem_keySet

/-- Rows that carry their ids list the ids of the table. -/
theorem toList_ids {table : Table α} {idOf : α → String} (h : ∀ {id row}, table[id]? = some row → idOf row = id) :
    (table.toList.map fun entry => idOf entry.2) = table.keys := by
  rw [← Std.ExtTreeMap.map_fst_toList_eq_keys]
  refine List.map_congr_left ?_
  intro entry hentry
  exact h (Std.ExtTreeMap.mem_toList_iff_getElem?_eq_some.mp hentry)

/-- The records of a rebuild list every entity. -/
theorem Topology.Keyed.entityIndexRecords_ids (h : Keyed topology) :
    (entityIndexRecords topology).map (fun record => record.1.id) = topology.entities.keys := by
  rw [entityIndexRecords, List.map_map]
  exact toList_ids h.entityIds

/-- They list every fact. -/
theorem Topology.Keyed.factIndexRecords_ids (h : Keyed topology) :
    (factIndexRecords topology).map (fun record => record.1.id) = topology.facts.keys := by
  rw [factIndexRecords, List.map_map]
  exact toList_ids h.factIds

/-- An entity is recorded with its vector. -/
theorem Topology.Keyed.mem_entityIndexRecords (h : Keyed topology) (hent : topology.entities[id]? = some entity) :
    (entity, topology.entityVectors[id]?) ∈ entityIndexRecords topology := by
  refine List.mem_map.mpr ⟨(id, entity), Std.ExtTreeMap.mem_toList_iff_getElem?_eq_some.mpr hent, ?_⟩
  rw [h.entityIds hent]

/-- A fact is recorded with its vector. -/
theorem Topology.Keyed.mem_factIndexRecords (h : Keyed topology) (hfact : topology.facts[id]? = some fact) :
    (fact, topology.factVectors[id]?) ∈ factIndexRecords topology := by
  refine List.mem_map.mpr ⟨(id, fact), Std.ExtTreeMap.mem_toList_iff_getElem?_eq_some.mpr hfact, ?_⟩
  rw [h.factIds hfact]

/-- The mirror has documents of rows only. -/
theorem getElem?_mirror_of_notMem (config : GraphConfig) (hkey : key ∉ rowDocIds topology) :
    (mirror config topology)[key]? = none := by
  by_contra hsome
  obtain ⟨document, hdoc⟩ := Option.ne_none_iff_exists'.mp hsome
  refine hkey (mem_rowDocIds.mpr ?_)
  cases mirror_kinded config topology key document hdoc with
  | entity id =>
    rw [getElem?_mirror_entity, getElem?_entityDocuments] at hdoc
    obtain ⟨entity, hent, _⟩ := Option.bind_eq_some_iff.mp hdoc
    exact .inl (List.mem_map_of_mem (mem_keys_iff.mpr ⟨entity, hent⟩))
  | fact id =>
    rw [getElem?_mirror_fact, getElem?_factDocuments] at hdoc
    obtain ⟨fact, hfact, _⟩ := Option.bind_eq_some_iff.mp hdoc
    exact .inr (List.mem_map_of_mem (mem_keys_iff.mpr ⟨fact, hfact⟩))

end Records

/-- After a checked rebuild every row has its document; elsewhere only orphans are dropped. -/
theorem getElem?_reindexEffect (hkeyed : Keyed graph.topology) (hcheck : checkRebuildable graph = .ok ())
    (key : String) :
    (reindexEffect graph graph.memory)[key]? =
      if key ∈ rowDocIds graph.topology then (mirror graph.config graph.topology)[key]?
      else (orphanEffect graph.memory graph.topology.entities.keys graph.topology.facts.keys graph.memory)[key]? := by
  obtain ⟨hentitiesFit, hfactsFit⟩ := checkRebuildable_eq_ok.mp hcheck
  have hentityRounds := (writesEntities graph.config graph.embedder.isSome).batches
  have hfactRounds := (writesFacts graph.config graph.embedder.isSome).batches
  have hentityIds : ((entityIndexRecords graph.topology).map fun record => entityDocId record.1.id) =
      graph.topology.entities.keys.map entityDocId := by
    rw [← hkeyed.entityIndexRecords_ids, List.map_map]
    rfl
  have hfactIds : ((factIndexRecords graph.topology).map fun record => factDocId record.1.id) =
      graph.topology.facts.keys.map factDocId := by
    rw [← hkeyed.factIndexRecords_ids, List.map_map]
    rfl
  have hentityNodup := (keys_nodup graph.topology.entities).map entityDocId_injective
  have hfactNodup := (keys_nodup graph.topology.facts).map factDocId_injective
  rw [← hentityIds] at hentityNodup
  rw [← hfactIds] at hfactNodup
  rw [reindexEffect, hkeyed.entityIndexRecords_ids, hkeyed.factIndexRecords_ids]
  by_cases hfactKey : key ∈ graph.topology.facts.keys.map factDocId
  · rw [if_pos (mem_rowDocIds.mpr (.inr hfactKey))]
    obtain ⟨id, hid, rfl⟩ := List.mem_map.mp hfactKey
    obtain ⟨fact, hfact⟩ := mem_keys_iff.mp hid
    have hrec := hkeyed.mem_factIndexRecords hfact
    have hwr := fun documents => hfactRounds.written _ documents hfactNodup _ hrec (hfactsFit _ hrec)
    rw [hkeyed.factIds hfact] at hwr
    rw [getElem?_mirror_fact, getElem?_factDocuments, hfact]
    exact hwr _
  · refine (hfactRounds.kept _ _ _ (by rwa [hfactIds])).trans ?_
    by_cases hentityKey : key ∈ graph.topology.entities.keys.map entityDocId
    · rw [if_pos (mem_rowDocIds.mpr (.inl hentityKey))]
      obtain ⟨id, hid, rfl⟩ := List.mem_map.mp hentityKey
      obtain ⟨entity, hent⟩ := mem_keys_iff.mp hid
      have hrec := hkeyed.mem_entityIndexRecords hent
      have hwr := fun documents => hentityRounds.written _ documents hentityNodup _ hrec (hentitiesFit _ hrec)
      rw [hkeyed.entityIds hent] at hwr
      rw [getElem?_mirror_entity, getElem?_entityDocuments, hent]
      exact hwr _
    · rw [if_neg fun hkey => (mem_rowDocIds.mp hkey).elim hentityKey hfactKey]
      exact hentityRounds.kept _ _ _ (by rwa [hentityIds])

/-- A checked rebuild makes the mirror exactly if it could replace every document. -/
theorem reindexEffect_eq_mirror_iff (hkeyed : Keyed graph.topology) (hcheck : checkRebuildable graph = .ok ()) :
    reindexEffect graph graph.memory = mirror graph.config graph.topology ↔ Replaceable graph.topology graph.memory := by
  constructor
  · intro heq key document hdoc hkey
    have hlookup := getElem?_reindexEffect hkeyed hcheck key
    rw [heq, if_neg hkey, getElem?_mirror_of_notMem _ hkey] at hlookup
    exact getElem?_orphanEffect_eq_none.mp hlookup.symm document hdoc
  · intro hreplaceable
    apply Std.ExtTreeMap.ext_getElem?
    intro key
    rw [getElem?_reindexEffect hkeyed hcheck]
    split
    · rfl
    · rename_i hkey
      rw [getElem?_mirror_of_notMem _ hkey]
      exact getElem?_orphanEffect_eq_none.mpr fun document hdoc => hreplaceable key document hdoc hkey

/-! ### Transactions -/

section Transactions

variable {config : GraphConfig} {before committed : Topology}

/-- Stored properties are mirrored as the properties that were given. -/
theorem pendingEntity_canonical (entity : Entity) (vector : Option Embedding) :
    pendingEntity { entity with properties := canonicalProperties entity.properties } vector =
      pendingEntity entity vector := by
  simp [pendingEntity, entityMetadata, mirrorProperties, scalarProperties, entityFields, Entity.stamps]

/-- Storing the properties in order leaves the document. -/
theorem pendingFact_canonical (fact : Fact) (vector : Option Embedding) :
    pendingFact { fact with properties := canonicalProperties fact.properties } vector = pendingFact fact vector := by
  simp [pendingFact, factMetadata, mirrorProperties, scalarProperties, factFields, Fact.stamps]

/-- Storing a vector, or none, changes that of one id. -/
theorem getElem?_storeVector (vectors : Table Embedding) (id other : String) (vector : Option Embedding) :
    (storeVector vectors id vector)[other]? = if id = other then vector else vectors[other]? := by
  cases vector with
  | none => exact getElem?_erase _ _ _
  | some vector => exact getElem?_insert _ _ _ _

variable {embedder : Bool}

/-- Writing the document of an upserted entity. -/
theorem mirror_upsertEntity {sources : Table String}
    (hcmt : before.upsertEntityWithLineage entity vector sources now = .ok committed)
    (hfits : isRebuildable embedder vector entity.label = true) :
    writeEffect config embedder [pendingEntity entity vector] (mirror config before) = mirror config committed := by
  simp only [upsertEntityWithLineage, bind_eq_ok, Except.ok.injEq] at hcmt
  obtain ⟨_, _, versions, _, rfl⟩ := hcmt
  have hround := writesEntities config embedder
  have hkept {key : String} (hkey : key ≠ entityDocId entity.id) :
      (writeEffect config embedder [pendingEntity entity vector] (mirror config before))[key]? =
        (mirror config before)[key]? := hround.kept [(entity, vector)] _ key (by simpa using hkey)
  refine eq_mirror _ _ (hround.kinded [(entity, vector)] _ (mirror_kinded config before)) ?_ ?_
  · intro id
    simp only [getElem?_entityDocuments, getElem?_insert, getElem?_storeVector]
    by_cases hid : entity.id = id
    · subst hid
      rw [if_pos rfl, if_pos rfl, Option.bind_some, pendingEntity_canonical]
      exact hround.written [(entity, vector)] _ (List.nodup_singleton _) _ List.mem_cons_self hfits
    · rw [if_neg hid, if_neg hid, hkept fun heq => hid (entityDocId_injective heq).symm, getElem?_mirror_entity,
        getElem?_entityDocuments]
  · intro id
    rw [hkept (entityDocId_ne_factDocId entity.id id).symm, getElem?_mirror_fact]
    rfl

/-- Writing the documents of the facts a transaction touched. -/
theorem mirror_factWrites {round : List (Fact × Option Embedding) → Documents → Documents}
    {fits : Fact × Option Embedding → Prop} (hround : WritesBatch round (fun entry => factDocId entry.1.id)
      (fun entry => factDocument config entry.1 entry.2) fits)
    {entries : List (Fact × Option Embedding)} (hnodup : (entries.map fun entry => entry.1.id).Nodup)
    (hfits : ∀ entry ∈ entries, fits entry)
    (hents : entityDocuments config committed = entityDocuments config before)
    (hsto : ∀ entry ∈ entries, (factDocuments config committed)[entry.1.id]? = factDocument config entry.1 entry.2)
    (hothers : ∀ id, id ∉ entries.map (fun entry => entry.1.id) →
      committed.facts[id]? = before.facts[id]? ∧ committed.factVectors[id]? = before.factVectors[id]?) :
    round entries (mirror config before) = mirror config committed := by
  have hids : (entries.map fun entry => factDocId entry.1.id) = (entries.map fun entry => entry.1.id).map factDocId := by
    rw [List.map_map]
    rfl
  refine eq_mirror _ _ (hround.kinded _ _ (mirror_kinded config before)) ?_ ?_
  · intro id
    rw [hround.kept, getElem?_mirror_entity, hents]
    rw [hids]
    intro hmem
    obtain ⟨other, _, hother⟩ := List.mem_map.mp hmem
    exact entityDocId_ne_factDocId id other hother.symm
  · intro id
    by_cases hid : id ∈ entries.map fun entry => entry.1.id
    · obtain ⟨entry, hentry, rfl⟩ := List.mem_map.mp hid
      rw [hsto entry hentry]
      refine hround.written _ _ ?_ entry hentry (hfits entry hentry)
      rw [hids]
      exact hnodup.map factDocId_injective
    · rw [hround.kept, getElem?_mirror_fact, getElem?_factDocuments, getElem?_factDocuments, (hothers id hid).1,
        (hothers id hid).2]
      rwa [hids, List.mem_map_of_injective factDocId_injective]

/-- Erasing the documents of the facts a transaction removed. -/
theorem mirror_eraseFacts {removed : List String}
    (hents : entityDocuments config committed = entityDocuments config before)
    (hfacts : ∀ id : String, (factDocuments config committed)[id]? =
      if id ∈ removed then none else (factDocuments config before)[id]?) :
    eraseAll (mirror config before) (removed.map factDocId) = mirror config committed := by
  refine eq_mirror _ _ ((mirror_kinded config before).eraseAll _) ?_ ?_
  · intro id
    rw [getElem?_eraseAll, if_neg, getElem?_mirror_entity, hents]
    intro hmem
    obtain ⟨other, _, hother⟩ := List.mem_map.mp hmem
    exact entityDocId_ne_factDocId id other hother.symm
  · intro id
    rw [getElem?_eraseAll, hfacts, getElem?_mirror_fact]
    simp only [List.mem_map_of_injective factDocId_injective]

/-- Removing a fact takes its document out of the mirror. -/
theorem mirror_removeFact (id : String) :
    eraseAll (mirror config before) ([id].map factDocId) = mirror config (before.removeFact id).1 := by
  refine mirror_eraseFacts rfl ?_
  intro other
  simp only [getElem?_factDocuments, Topology.removeFact, deleteFact, getElem?_erase, List.mem_singleton]
  by_cases hid : id = other
  · simp [hid]
  · rw [if_neg hid, if_neg hid, if_neg (Ne.symm hid)]

/-- Removing an entity takes its document and those of its facts out of the mirror. -/
theorem mirror_removeEntity (id : String) :
    eraseAll ((mirror config before).erase (entityDocId id)) ((before.removeEntity id).2.2.map factDocId) =
      mirror config (before.removeEntity id).1 := by
  have hfacts : eraseAll (mirror config before) ((before.removeEntity id).2.2.map factDocId) =
      mirror config ((before.removeEntity id).2.2.foldl deleteFact before) := by
    rw [foldl_deleteFact]
    refine mirror_eraseFacts rfl ?_
    intro other
    simp only [getElem?_factDocuments, getElem?_eraseAll]
    split <;> rfl
  refine eq_mirror _ _ ?_ ?_ ?_
  · have herased := ((mirror_kinded config before).eraseAll [entityDocId id]).eraseAll
      ((before.removeEntity id).2.2.map factDocId)
    exact herased
  · intro other
    have hent := congrArg (fun documents => documents[entityDocId other]?) hfacts
    simp only [getElem?_eraseAll, getElem?_mirror_entity, getElem?_entityDocuments, foldl_deleteFact] at hent
    simp only [Topology.removeEntity, deleteEntity, foldl_deleteFact, getElem?_erase, getElem?_eraseAll,
      getElem?_mirror_entity, getElem?_entityDocuments, entityDocId_injective.eq_iff]
    by_cases hid : id = other
    · simp [hid]
    · rw [if_neg hid, if_neg hid, if_neg hid]
      exact hent
  · intro other
    have hfact := congrArg (fun documents => documents[factDocId other]?) hfacts
    simp only [getElem?_eraseAll, getElem?_mirror_fact] at hfact
    simp only [getElem?_eraseAll, getElem?_erase, if_neg (entityDocId_ne_factDocId id other), getElem?_mirror_fact]
    exact hfact

/-- What rolling facts back has done to the tables so far. -/
structure RolledBack (config : GraphConfig) (before : Topology) (state : Topology × List String) : Prop where
  entities : entityDocuments config state.1 = entityDocuments config before
  facts : ∀ id : String, (factDocuments config state.1)[id]? =
    if id ∈ state.2 then none else (factDocuments config before)[id]?

/-- A fact that only loses a link keeps its document; one that is deleted is listed. -/
theorem RolledBack.step (h : RolledBack config before state) (id : String) (fact : Fact) :
    RolledBack config before (rollBack id state fact) := by
  unfold rollBack
  split
  · refine ⟨h.entities, ?_⟩
    intro other
    have hsto := h.facts other
    simp only [getElem?_factDocuments, deleteFact, getElem?_erase, List.mem_append, List.mem_singleton] at hsto ⊢
    by_cases hid : fact.id = other
    · simp [hid]
    · simp only [if_neg hid, hsto, Ne.symm hid, or_false]
  · refine ⟨h.entities, ?_⟩
    intro other
    rw [← h.facts other]
    simp only [getElem?_factDocuments, unlink, getElem?_amend]
    split
    · cases state.1.facts[other]? <;> rfl
    · rfl

/-- Rolling facts back takes the documents of the deleted ones out. -/
theorem RolledBack.run (h : RolledBack config before state) (id : String) (facts : List Fact) :
    RolledBack config before (facts.foldl (rollBack id) state) := by
  induction facts generalizing state with
  | nil => exact h
  | cons fact rest ih => exact ih (h.step id fact)

/-- Removing an episode takes the documents of its facts out of the mirror. -/
theorem mirror_removeEpisode (id : String) :
    eraseAll (mirror config before) ((before.removeEpisode id).2.2.map factDocId) =
      mirror config (before.removeEpisode id).1 := by
  unfold Topology.removeEpisode
  split
  · have hstart : RolledBack config before (before, []) := ⟨rfl, fun _ => by simp⟩
    have hrolled := hstart.run id (before.linkedFacts id)
    exact mirror_eraseFacts hrolled.entities hrolled.facts
  · rfl

/-- A closed fact was live; its record is the closed row with the vector kept. -/
theorem closeFact_eq_some (hclosed : before.closeFact id invalidAt now = (committed, some record)) :
    ∃ fact, before.facts[id]? = some fact ∧ fact.expiredAt = none ∧
      record = ⟨{ fact with invalidAt := invalidAt, expiredAt := some now }, before.factVectors[id]?⟩ ∧
      committed = { before with
        facts := before.facts.insert id { fact with invalidAt := invalidAt, expiredAt := some now } } := by
  unfold closeFact at hclosed
  split at hclosed
  · rename_i closed hlive
    obtain ⟨fact, hfact, hopen, rfl⟩ := closeLive_eq_some.mp hlive
    simp only [factIndexRecord, getElem?_insert, if_pos, Option.map_some, Prod.mk.injEq, Option.some.injEq] at hclosed
    exact ⟨fact, hfact, hopen, hclosed.2.symm, hclosed.1.symm⟩
  · cases hclosed

/-- Writing the document of a fact that was closed. -/
theorem mirror_closeFact (hlink : Linked before)
    (hclosed : before.closeFact id invalidAt now = (committed, some record))
    (hfits : config.indexFacts = true → isRebuildable embedder record.vector record.fact.fact = true) :
    factEffect config embedder [(record.fact, record.vector)] (mirror config before) = mirror config committed := by
  obtain ⟨fact, hfact, _, rfl, rfl⟩ := closeFact_eq_some hclosed
  have hid := hlink.factIds hfact
  refine mirror_factWrites (writesFacts config embedder) (List.nodup_singleton _) ?_ rfl ?_ ?_
  · simpa using hfits
  · simp [getElem?_factDocuments, getElem?_insert, hid]
  · intro other hother
    simp only [List.map_cons, List.map_nil, List.mem_singleton, hid] at hother
    exact ⟨by simp [getElem?_insert, Ne.symm hother], rfl⟩

/-- Closing a fact that is not live changes nothing. -/
theorem closeFact_eq_none (hclosed : before.closeFact id invalidAt now = (committed, none)) : committed = before := by
  unfold closeFact at hclosed
  split at hclosed
  · rename_i closed hlive
    obtain ⟨fact, hfact, _, rfl⟩ := closeLive_eq_some.mp hlive
    simp [factIndexRecord] at hclosed
  · cases hclosed
    rfl

/-- Closing facts touches no other fact, no vector and no text. -/
structure ClosedFrom (ids : List String) (before closed : Topology) : Prop where
  entities : ∀ config, entityDocuments config closed = entityDocuments config before
  factVectors : closed.factVectors = before.factVectors
  others : ∀ id, id ∉ ids → closed.facts[id]? = before.facts[id]?
  texts : ∀ id : String, closed.facts[id]?.map Fact.fact = before.facts[id]?.map Fact.fact

/-- Closing the replaced facts closes these only. -/
theorem closePriors_closedFrom (hclosed : priors.foldlM closePrior before = .ok closed) :
    ClosedFrom (priors.map Prior.id) before closed := by
  refine closePriors_induction (P := ClosedFrom (priors.map Prior.id) before) hclosed
    ⟨fun _ => rfl, rfl, fun _ _ => rfl, fun _ => rfl⟩ ?_
  intro prior hprior start after hstart hafter
  obtain ⟨fact, hfact, _, rfl⟩ := closeLive_eq_some.mp hafter
  refine ⟨hstart.entities, hstart.factVectors, ?_, ?_⟩
  · intro id hid
    have hne : prior.id ≠ id := fun heq => hid (heq ▸ List.mem_map_of_mem hprior)
    simp only [getElem?_insert, if_neg hne, hstart.others id hid]
  · intro id
    rw [← hstart.texts id]
    simp only [getElem?_insert]
    split
    · rename_i hid
      rw [← hid, hfact]
      rfl
    · rfl

/-- The record of a closed fact is its row and its vector. -/
theorem closedRecord_eq_ok {topology : Topology} :
    topology.closedRecord id = .ok record ↔
      topology.facts[id]? = some record.fact ∧ topology.factVectors[id]? = record.vector := by
  unfold closedRecord factIndexRecord
  cases topology.facts[id]? with
  | none => simp
  | some fact =>
    constructor
    · intro h
      cases h
      exact ⟨rfl, rfl⟩
    · rintro ⟨hfact, hvec⟩
      cases hfact
      rw [hvec]
      rfl

/-- Writing the documents of the facts a new fact closed, and of the new fact. -/
theorem mirror_supersedeAndInsert {newFact : Fact} {records : List FactIndexRecord}
    (hlink : Linked before) (hdist : (priors.map Prior.id).Nodup)
    (hcmt : before.supersedeAndInsert priors newFact vector = .ok (committed, records))
    (hnew : config.indexFacts = true → isRebuildable embedder vector newFact.fact = true)
    (hfits : ∀ prior ∈ priors, ∀ fact, before.facts[prior.id]? = some fact → fact.expiredAt = none →
      config.indexFacts = true → isRebuildable embedder before.factVectors[prior.id]? fact.fact = true) :
    (batches ((records.map fun record => (record.fact, record.vector)) ++ [(newFact, vector)])).foldl
      (fun documents batch => factEffect config embedder batch documents) (mirror config before) =
      mirror config committed := by
  have hcom : Linked committed := hlink.supersedeAndInsert hcmt
  obtain ⟨_, _, closed, hclosed, hins, hrecs⟩ := supersedeAndInsert_eq_ok hcmt
  have hframe := closePriors_closedFrom hclosed
  obtain ⟨hfree, rfl⟩ := insertFact_eq_ok hins
  -- a fact that is closed has a row, so its id is not the new one
  have hpriorNew : ∀ prior ∈ priors, newFact.id ≠ prior.id := by
    intro prior hprior heq
    obtain ⟨fact, hfact, _⟩ := closePriors_row hclosed hprior
    have htext := hframe.texts prior.id
    rw [← heq, hfree, heq, hfact] at htext
    cases htext
  have hrecordIds : records.map (fun record => record.fact.id) = priors.map Prior.id := by
    refine (List.forall₂_eq_eq_eq ▸ ?_ : priors.map Prior.id = records.map fun record => record.fact.id).symm
    rw [List.forall₂_map_left_iff, List.forall₂_map_right_iff]
    refine (mapM_eq_ok.mp hrecs).imp ?_
    intro prior record hrec
    exact (hcom.factIds (closedRecord_eq_ok.mp hrec).1).symm
  have hentryIds : (((records.map fun record => (record.fact, record.vector)) ++ [(newFact, vector)]).map
      fun entry => entry.1.id) = priors.map Prior.id ++ [newFact.id] := by
    rw [List.map_append, List.map_map, ← hrecordIds]
    rfl
  refine mirror_factWrites (writesFacts config embedder).batches ?_ ?_ (hframe.entities config) ?_ ?_
  · rw [hentryIds]
    refine List.nodup_append.mpr ⟨hdist, List.nodup_singleton _, ?_⟩
    intro id hid other hother heq
    obtain ⟨prior, hprior, rfl⟩ := List.mem_map.mp hid
    exact hpriorNew prior hprior (heq.trans (List.mem_singleton.mp hother)).symm
  · intro entry hentry
    rcases List.mem_append.mp hentry with hrec | hfact
    · obtain ⟨record, hmem, rfl⟩ := List.mem_map.mp hrec
      obtain ⟨prior, hprior, hok⟩ := exists_of_mem_mapM hrecs hmem
      obtain ⟨hsto, hvec⟩ := closedRecord_eq_ok.mp hok
      obtain ⟨fact, hfact, hopen, _⟩ := closePriors_row hclosed hprior
      have htext := hframe.texts prior.id
      simp only [getElem?_insert, getElem?_storeVector, if_neg (hpriorNew prior hprior)] at hsto hvec
      rw [hsto, hfact, Option.map_some, Option.map_some, Option.some.injEq] at htext
      rw [hframe.factVectors] at hvec
      intro hindex
      have hreb := hfits prior hprior fact hfact hopen hindex
      rwa [hvec, ← htext] at hreb
    · obtain rfl := List.mem_singleton.mp hfact
      exact hnew
  · intro entry hentry
    rcases List.mem_append.mp hentry with hrec | hfact
    · obtain ⟨record, hmem, rfl⟩ := List.mem_map.mp hrec
      obtain ⟨prior, hprior, hok⟩ := exists_of_mem_mapM hrecs hmem
      obtain ⟨hsto, hvec⟩ := closedRecord_eq_ok.mp hok
      have hid := hcom.factIds hsto
      rw [← hid] at hsto hvec
      rw [getElem?_factDocuments, hsto, hvec, Option.bind_some]
    · obtain rfl := List.mem_singleton.mp hfact
      simp only [getElem?_factDocuments, getElem?_insert, getElem?_storeVector, if_pos, Option.bind_some,
        factDocument, pendingFact_canonical]
  · intro id hid
    rw [hentryIds, List.mem_append, List.mem_singleton, not_or] at hid
    simp only [getElem?_insert, getElem?_storeVector, if_neg (Ne.symm hid.2), hframe.others id hid.1, hframe.factVectors,
      and_self]

end Transactions

end LodeDB.Graph
