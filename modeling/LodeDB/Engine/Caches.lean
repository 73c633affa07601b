import LodeDB.Engine.Load
import LodeDB.Engine.Session
import LodeDB.Filter.OrderedValues
import LodeDB.Lexical.Rebuilt

/-!
# A handle with its lazily built indexes

A handle answers filtered reads from the field indexes of its documents and lexical reads from a lexical index. The
first read that needs one builds it from the documents, and every later mutation patches it. A field index also keeps
the ordered partition of its values until the field is touched.
-/

namespace LodeDB.Engine

open TreeMapRules
open LodeDB.Filter
open LodeDB.Lexical (Bm25Index)

variable {N : Type*} [LinearOrder N] (asNumber : String → Option N)

variable (documents : Documents)

/-- The metadata of documents. -/
def corpusOf : Corpus := documents.map fun _ record => record.metadata

/-- The field indexes of documents, built afresh. -/
def fieldIndexesForDocuments : FieldIndexes := (buildFieldIndexes (corpusOf documents)).1

/-- The distinct values of a field: a sorted numeric run and the remainder. -/
structure OrderedPartitions (N : Type*) where
  numericValues : List (NumericValue N)
  nonnumericValues : List String

/-- The ordered partition of a field index. -/
def orderedPartitions (values : FieldIndex) : OrderedPartitions N :=
  ⟨numericValues asNumber values, nonnumericValues asNumber values⟩

/-- The units of a document's chunks: without a token list, a unit without tokens. -/
def lexicalUnitsForChunks (chunks : List ChunkRecord) (tokenLists : List (List String)) :
    List (String × List String) :=
  if tokenLists = [] then []
  else chunks.zipIdx.map fun chunk => (chunk.1.chunkId, tokenLists[chunk.2]?.getD [])

/-- The lexical index of documents, built afresh: a group where there are token lists. -/
def lexicalIndexForDocuments : Bm25Index :=
  documents.toList.foldl (fun lexical document =>
    if document.2.tokenLists = [] then lexical
    else lexical.replaceGroup document.1 (lexicalUnitsForChunks document.2.chunks document.2.tokenLists))
    Bm25Index.empty

/-- Bring a document's group up to date with its record. -/
def syncLexicalGroup (documentId : String) (lexical : Bm25Index) : Bm25Index :=
  match documents[documentId]? with
  | none => lexical.removeGroup documentId
  | some record =>
    if record.tokenLists = [] then lexical.removeGroup documentId
    else lexical.replaceGroup documentId (lexicalUnitsForChunks record.chunks record.tokenLists)

/-- What a handle keeps besides its index: ordered partitions and a lexical index. -/
structure Caches (N : Type*) where
  ordered : Std.ExtTreeMap String (OrderedPartitions N) compare
  lexical : Option Bm25Index

namespace Caches

variable (caches : Caches N)

/-- Inserting or removing a value of a field drops the field's partition. -/
def touch (record : Option DocumentRecord) : Caches N :=
  { caches with ordered := eraseAll caches.ordered (record.elim [] fun record => record.metadata.keys) }

/-- Update a built lexical index. -/
def syncLexical (documents : Documents) (documentId : String) : Caches N :=
  { caches with lexical := caches.lexical.map (syncLexicalGroup documents documentId) }

/-- Follow a document from its old record, if any, to its new one. -/
def follow (before after : Documents) (documentId : String) : Caches N :=
  ((caches.touch before[documentId]?).touch after[documentId]?).syncLexical after documentId

end Caches

section Mutate

variable (P : Primitives) (policy : TextPolicy)

/-- One turn of the loop over vector documents, with the caches. -/
def cachedUpsertVector (state : VectorBatch × Caches N) (document : CoreVectorDocument) : VectorBatch × Caches N :=
  let next := upsertVector P policy state.1 document
  (next, if fullyUnchanged P policy state.1.index document then state.2
    else state.2.follow state.1.index.documents next.index.documents document.documentId)

variable (index : VectorOnlyIndex)

/-- The caches after a vector upsert. -/
def cachedUpsertVectors (documents : List CoreVectorDocument) (caches : Caches N) : Caches N :=
  match (do index.requireVectorsMutable; documents.forM (checkVectorDocument index.vectorDim)) with
  | .error _ => caches
  | .ok () => (documents.foldl (cachedUpsertVector P policy) (⟨index, 0, [], ∅, [], []⟩, caches)).2

/-- One turn of the loop over ids to delete, with the caches. -/
def cachedDeleteDocument (state : DeleteBatch × Caches N) (documentId : String) : DeleteBatch × Caches N :=
  let next := deleteDocument state.1 documentId
  (next, match state.1.index.documents[documentId]? with
    | none => state.2
    | some _ => state.2.follow state.1.index.documents next.index.documents documentId)

/-- The caches after a delete. -/
def cachedDeleteDocuments (documentIds : List String) (caches : Caches N) : Caches N :=
  match (do index.requireVectorsMutable; documentIds.forM checkDocumentId) with
  | .error _ => caches
  | .ok () => (documentIds.eraseDups.foldl cachedDeleteDocument (⟨index, 0, 0, ∅⟩, caches)).2

/-- The caches after a payload update: metadata touches the fields, a text the lexical group. -/
def cachedUpdateDocumentPayload (documentId : String) (metadata : Option Metadata) (text : Option (Option String))
    (caches : Caches N) : Caches N :=
  match index.requireVectorsMutable with
  | .error _ => caches
  | .ok () =>
    match index.documents[documentId]? with
    | none => caches
    | some record =>
      let updated := updatedRecord P policy documentId record metadata text
      let synced := if text.isSome then
        caches.syncLexical (index.documents.insert documentId updated) documentId else caches
      if metadata.isSome then (synced.touch (some record)).touch (some updated) else synced

/-- The loop over planned documents, with the caches. -/
def cachedApplyPlanDocuments (plan : IngestPlan) (existing : ChunkVectors) :
    List PlanDocument → TextBatch → Caches N → TextBatch × Caches N
  | [], batch, caches => (batch, caches)
  | document :: rest, batch, caches =>
    match applyPlanDocument P plan existing batch document with
    | .error _ => (batch, caches)
    | .ok next => cachedApplyPlanDocuments plan existing rest next
        (caches.follow batch.index.documents next.index.documents document.documentId)

/-- The caches after a plan is applied, as far as it gets. -/
def cachedApplyTextUpsert (plan : IngestPlan) (embeddings : List Embedding) (caches : Caches N) : Caches N :=
  match checkPlan index plan embeddings with
  | .error _ => caches
  | .ok () =>
    let fresh := newEmbeddings plan embeddings
    let existing := reusableChunkVectors index (plan.documents.flatMap (·.chunkIds)) fresh
    (cachedApplyPlanDocuments P plan existing plan.documents ⟨index, fresh, ∅, ∅, [], [], [], ∅⟩ caches).2

/-- The caches after a call on an index. -/
def Caches.call (caches : Caches N) : Call → Caches N
  | .upsertVectors documents => cachedUpsertVectors P policy index documents caches
  | .deleteDocuments documentIds => cachedDeleteDocuments index documentIds caches
  | .updateDocumentPayload documentId metadata text =>
    cachedUpdateDocumentPayload P policy index documentId metadata text caches
  | .prepareTextUpsert _ _ _ => caches
  | .applyTextUpsert plan embeddings => cachedApplyTextUpsert P index plan embeddings caches

end Mutate

/-- A session with its caches. -/
structure Handle (N : Type*) where
  session : Session
  caches : Caches N

/-- What a caller does with a handle. A filtered read also reads ordered partitions. -/
inductive HandleCall
  | mutate (call : Call)
  | filteredRead (orderedFields : List String)
  | lexicalRead

namespace Handle

/-- A handle on a fresh index. -/
def fresh (vectorDim : ℕ) (rescoreDtype : Option TvvfDtype) (annConfigured : Bool := false) : Handle N :=
  ⟨Session.fresh vectorDim rescoreDtype annConfigured, ⟨∅, some Bm25Index.empty⟩⟩

/-- A handle on an index that was just opened. -/
def opened (index : VectorOnlyIndex) : Handle N := ⟨⟨index, []⟩, ⟨∅, none⟩⟩

/-- Build the partition of a field if the field is indexed and has none. -/
def ensureOrdered (fields : FieldIndexes) (ordered : Std.ExtTreeMap String (OrderedPartitions N) compare)
    (field : String) : Std.ExtTreeMap String (OrderedPartitions N) compare :=
  match ordered[field]?, fields[field]? with
  | none, some values => ordered.insert field (orderedPartitions asNumber values)
  | _, _ => ordered

/-- Build the field indexes on first use, and the partitions the read needs. -/
def filteredRead (handle : Handle N) (orderedFields : List String) : Handle N :=
  let index := handle.session.index
  let fields := index.fieldIndexes.getD (fieldIndexesForDocuments index.documents)
  { session := { handle.session with index := { index with fieldIndexes := some fields } }
    caches := { handle.caches with
      ordered := orderedFields.foldl (ensureOrdered asNumber fields) handle.caches.ordered } }

/-- Build the lexical index on first use. -/
def lexicalRead (handle : Handle N) : Handle N :=
  { handle with caches := { handle.caches with
    lexical := some (handle.caches.lexical.getD (lexicalIndexForDocuments handle.session.index.documents)) } }

/-- Make one call. -/
def call (P : Primitives) (policy : TextPolicy) (handle : Handle N) : HandleCall → Handle N
  | .mutate call => ⟨(handle.session.call P policy call).1, handle.caches.call P policy handle.session.index call⟩
  | .filteredRead orderedFields => handle.filteredRead asNumber orderedFields
  | .lexicalRead => handle.lexicalRead

/-- A caller applies only plans it holds. -/
def Holds (handle : Handle N) : HandleCall → Prop
  | .mutate call => handle.session.Holds call
  | _ => True

end Handle

/-- A run of calls on a handle, each meeting a condition on the index before it. -/
inductive HandleRun (P : Primitives) (policy : TextPolicy) (condition : VectorOnlyIndex → HandleCall → Prop) :
    Handle N → List HandleCall → Handle N → Prop
  | done (handle : Handle N) : HandleRun P policy condition handle [] handle
  | step {handle last : Handle N} {call : HandleCall} {rest : List HandleCall} (hholds : handle.Holds call)
      (hcondition : condition handle.session.index call)
      (hrest : HandleRun P policy condition (handle.call asNumber P policy call) rest last) :
      HandleRun P policy condition handle (call :: rest) last

end LodeDB.Engine
