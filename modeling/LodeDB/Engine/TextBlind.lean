import LodeDB.Engine.Fold
import LodeDB.Engine.Machine
import LodeDB.Lib.View

/-!
# What a handle without raw text writes

A handle opened without `storeText` may let a document's text into its log and its commits only as content hashes,
chunk ids and embeddings, and as tokens where it indexes text. The view of a step keeps exactly that. Two runs with
equal views write the same bytes, as long as every plan carries no raw text and every payload carries tokens only
where the handle indexes text.
-/

namespace LodeDB.Engine

open TreeMapRules
open LodeDB.Filter (Metadata DocSet)
open LodeDB.Storage
open Text (sha256Text tokenize)

variable (P : Primitives) (policy : TextPolicy)

variable {τ : Type} {text : Option (Option String)} {documents : List WalEmbeddedDocument}

/-! ### Calls and what they log -/

/-- The index a call leaves and what it returns. -/
def callOutcome (index : VectorOnlyIndex) : Call → Outcome
  | .upsertVectors documents => upsertVectors P policy index documents
  | .deleteDocuments documentIds => deleteDocuments index documentIds
  | .updateDocumentPayload documentId metadata text =>
    updateDocumentPayload P policy index documentId metadata text
  | .prepareTextUpsert _ _ _ => ⟨index, .ok ⟨⟨0, 0, 0, 0, index.generation⟩, none⟩⟩
  | .applyTextUpsert plan embeddings => applyTextUpsert P index plan embeddings

/-- The frame a mutation appends, numbered by the generation it reached. -/
def Outcome.frame (outcome : Outcome) : List WalRecord :=
  match outcome.returned with
  | .ok mutated => mutated.wal.toList.map fun op => ⟨some outcome.index.generation, op⟩
  | .error _ => []

/-! ### Views -/

/-- Tokens as a handle sees them: only where it indexes text. -/
def tokensView {τ : Type} (tokens : Option τ) : Option τ := if policy.indexText then tokens else none

/-- What is seen of a vector document. -/
structure VectorView where
  documentId : String
  vector : Embedding
  metadata : Metadata
  caption : Option (List String)
  patchMatrix : Option MultiVecRecord
  deriving DecidableEq

/-- The view of a vector document. -/
def vectorView (document : CoreVectorDocument) : VectorView where
  documentId := document.documentId
  vector := document.vector
  metadata := document.metadata
  caption := tokensView policy (document.text.map (tokenize P))
  patchMatrix := document.patchMatrix

/-- The view of a text argument: absent, cleared, or a hash and tokens. -/
def textView (text : Option (Option String)) : Option (Option (String × Option (List String))) :=
  text.map fun text => text.map fun text => (sha256Text P text, tokensView policy (some (tokenize P text)))

/-- What is seen of a planned chunk. -/
structure ChunkView where
  chunkId : String
  contentHash : String
  tokens : Option (List String)
  needsEmbedding : Bool
  deriving DecidableEq

/-- The view of a planned chunk. -/
def chunkView (chunk : PlanDocumentChunk) : ChunkView where
  chunkId := chunk.chunkId
  contentHash := sha256Text P chunk.text
  tokens := tokensView policy (some chunk.tokens)
  needsEmbedding := chunk.needsEmbedding

/-- The content hash a planned document gets. -/
def planHash (document : PlanDocument) : String :=
  sha256Text P (document.text.getD ("\n".intercalate (document.chunks.map (·.text))))

/-- What is seen of a planned document. -/
structure PlanDocumentView where
  documentId : String
  metadata : Metadata
  contentHash : String
  chunks : List ChunkView
  deriving DecidableEq

/-- The view of a planned document. -/
def planDocumentView (document : PlanDocument) : PlanDocumentView where
  documentId := document.documentId
  metadata := document.metadata
  contentHash := planHash P document
  chunks := document.chunks.map (chunkView P policy)

/-- What is seen of a plan. -/
structure PlanView where
  baseGeneration : ℕ
  documents : List PlanDocumentView
  toEmbed : List (String × String)
  storeText : Bool
  indexText : Bool
  deriving DecidableEq

/-- The view of a plan. -/
def planView (plan : IngestPlan) : PlanView where
  baseGeneration := plan.baseGeneration
  documents := plan.documents.map (planDocumentView P policy)
  toEmbed := plan.chunksToEmbed.map fun chunk => (chunk.documentId, chunk.chunkId)
  storeText := plan.storeText
  indexText := plan.indexText

/-- What is seen of a call. -/
inductive CallView
  | upsertVectors (documents : List VectorView)
  | deleteDocuments (documentIds : List String)
  | updateDocumentPayload (documentId : String) (metadata : Option Metadata)
      (text : Option (Option (String × Option (List String))))
  | prepareTextUpsert
  | applyTextUpsert (plan : PlanView) (embeddings : List Embedding)
  deriving DecidableEq

/-- The view of a call. Preparing a plan writes nothing. -/
def callView : Call → CallView
  | .upsertVectors documents => .upsertVectors (documents.map (vectorView P policy))
  | .deleteDocuments documentIds => .deleteDocuments documentIds
  | .updateDocumentPayload documentId metadata text =>
    .updateDocumentPayload documentId metadata (textView P policy text)
  | .prepareTextUpsert _ _ _ => .prepareTextUpsert
  | .applyTextUpsert plan embeddings => .applyTextUpsert (planView P policy plan) embeddings

/-- What is seen of an embedded document of a record: its text is dropped. -/
structure EmbeddedView where
  documentId : String
  contentHash : String
  metadata : Metadata
  chunkIds : List String
  tokens : Option (List (List String))
  deriving DecidableEq

/-- The view of an embedded document of a record. -/
def embeddedView (document : WalEmbeddedDocument) : EmbeddedView where
  documentId := document.documentId
  contentHash := document.contentHash
  metadata := document.metadata
  chunkIds := document.chunkIds
  tokens := tokensView policy (some document.tokens)

/-- What is seen of a logged operation. -/
inductive OpView
  | upsertVectors (rows : List (VectorView × Option (List (List String))))
  | deleteDocuments (documentIds : List String)
  | updateDocumentPayload (documentId : String) (metadata : Option Metadata)
      (text : Option (Option (String × Option (List String)))) (tokens : Option (List (List String)))
  | applyEmbeddedDocuments (documents : List EmbeddedView) (addedChunks : List WalAddedChunk)
      (removedChunkIds : List String)
  deriving DecidableEq

/-- The view of a row of a logged vector upsert. -/
def rowView (row : WalVectorDocument) : VectorView × Option (List (List String)) :=
  (vectorView P policy (vectorDocumentFromWal row), tokensView policy row.tokens)

/-- The view of a logged operation. -/
def opView : WalOp → OpView
  | .upsertVectors rows => .upsertVectors (rows.map (rowView P policy))
  | .deleteDocuments documentIds => .deleteDocuments documentIds
  | .updateDocumentPayload documentId metadata text tokens =>
    .updateDocumentPayload documentId metadata (textView P policy text) (tokensView policy tokens)
  | .applyEmbeddedDocuments documents addedChunks removedChunkIds =>
    .applyEmbeddedDocuments (documents.map (embeddedView policy)) addedChunks removedChunkIds

/-! ### Runs of a writer -/

/-- One step of a writer: a call, a fold of logged records, or a persist, maybe interrupted. -/
inductive WriterStep
  | call (call : Call)
  | fold (records : List WalRecord)
  | persist (ann : Option (List (List String)))
  | interrupted (ann : Option (List (List String))) (steps : ℕ)

/-- The view of a step. -/
inductive StepView
  | call (call : CallView)
  | fold (records : List (Option ℕ × OpView))
  | persist (ann : Option (List (List String)))
  | interrupted (ann : Option (List (List String))) (steps : ℕ)
  deriving DecidableEq

/-- What is seen of a step. -/
def stepView : WriterStep → StepView
  | .call call => .call (callView P policy call)
  | .fold records => .fold (records.map fun record => (record.lsn, opView P policy record.op))
  | .persist ann => .persist ann
  | .interrupted ann steps => .interrupted ann steps

/-- A writer's directory and index, and the frames it appended to the log. -/
structure Writer where
  store : Store
  log : List WalRecord

variable (format : Format)

/-- Take one step. -/
def Writer.step (writer : Writer) : WriterStep → Writer
  | .call call =>
    let outcome := callOutcome P policy writer.store.index call
    ⟨{ writer.store with index := outcome.index }, writer.log ++ outcome.frame⟩
  | .fold records =>
    { writer with store :=
      { writer.store with index := (applyReplayRecords P policy writer.store.index records).1 } }
  | .persist ann => { writer with store := persisted P format policy ann writer.store }
  | .interrupted ann steps => { writer with store := afterPersist P format policy ann steps writer.store }

/-- Take steps in order. -/
def Writer.run (writer : Writer) (steps : List WriterStep) : Writer :=
  steps.foldl (Writer.step P policy format) writer

/-- A plan as the handle would prepare it: no raw text, tokens only if it indexes text. -/
def PlanConforms (plan : IngestPlan) : Prop :=
  ∀ document ∈ plan.documents, document.text = none ∧
    (policy.indexText = false → ∀ chunk ∈ document.chunks, chunk.tokens = [])

/-- A logged operation as the handle would log it: caption tokens only if it indexes text. -/
def OpConforms : WalOp → Prop
  | .upsertVectors rows => policy.indexText = false → ∀ row ∈ rows, row.tokens = none
  | .updateDocumentPayload _ _ _ tokens => policy.indexText = false → tokens = none
  | _ => True

/-- The steps that give away no more than the policy allows. -/
def Conforms : WriterStep → Prop
  | .call (.applyTextUpsert plan _) => PlanConforms policy plan
  | .fold records => ∀ record ∈ records, OpConforms policy record.op
  | _ => True

/-! ### Each step factors through its view -/

variable {P policy format}

theorem tokensView_some_inj {tokens other : τ} (hindex : policy.indexText = true)
    (hview : tokensView policy (some tokens) = tokensView policy (some other)) : tokens = other := by
  simpa [tokensView, hindex] using hview

section Texts

variable (hstore : policy.storeText = false)

include hstore

/-- Without raw text, a caption is seen by its tokens only. -/
theorem captionTokens_congr {text other : Option String}
    (hview : tokensView policy (text.map (tokenize P)) = tokensView policy (other.map (tokenize P))) :
    captionTokens P policy text = captionTokens P policy other := by
  unfold captionTokens
  cases hindex : policy.indexText with
  | false => simp [hstore]
  | true =>
    simp only [tokensView, hindex, if_true] at hview
    rw [hview]

theorem retainedText_eq_none (text : Option String) : retainedText policy text = none := by
  rw [retainedText, hstore]
  rfl

section Vectors

variable {document other : CoreVectorDocument} (hview : vectorView P policy document = vectorView P policy other)

include hview

/-- The log row of a vector document is seen by its tokens only. -/
theorem walVectorDocument_congr : walVectorDocument P policy document = walVectorDocument P policy other := by
  obtain ⟨hid, hvec, hmeta, hcap, hmatrix⟩ := VectorView.mk.inj hview
  have htoks : (if policy.indexText then document.text.map fun text => [tokenize P text] else none) =
      if policy.indexText then other.text.map fun text => [tokenize P text] else none := by
    cases hindex : policy.indexText with
    | false => rfl
    | true =>
      simp only [tokensView, hindex, if_true] at hcap ⊢
      have hlists := congrArg (Option.map fun tokens => [tokens]) hcap
      rwa [Option.map_map, Option.map_map] at hlists
  simp only [walVectorDocument, hid, hvec, hmeta, hmatrix, htoks, retainedText_eq_none hstore]

theorem vectorRecord_congr : vectorRecord P policy document = vectorRecord P policy other := by
  obtain ⟨hid, hvec, hmeta, hcap, hmatrix⟩ := VectorView.mk.inj hview
  simp only [vectorRecord, hid, hvec, hmeta, hmatrix, captionTokens_congr hstore hcap, retainedText_eq_none hstore]

theorem upsertVector_congr (batch : VectorBatch) :
    upsertVector P policy batch document = upsertVector P policy batch other := by
  have hrow := walVectorDocument_congr hstore hview
  have hrec := vectorRecord_congr hstore hview
  have hretn := retainedText_eq_none hstore
  obtain ⟨hid, hvec, hmeta, hcap, hmatrix⟩ := VectorView.mk.inj hview
  have htoks := captionTokens_congr hstore hcap
  have hput : putVectorDocument P policy batch.index document = putVectorDocument P policy batch.index other := by
    simp only [putVectorDocument, hrec, hid, hmatrix, htoks, hretn]
  have hunchanged : fullyUnchanged P policy batch.index document = fullyUnchanged P policy batch.index other := by
    simp only [fullyUnchanged, hid, hvec, hmeta, hmatrix, htoks, hretn]
  have hsame : vectorUnchanged P batch.index document = vectorUnchanged P batch.index other := by
    simp only [vectorUnchanged, hid, hvec]
  simp only [upsertVector, hput, hunchanged, hsame, hrow, hid, hvec, hmeta]

omit hstore in
theorem checkVectorDocument_congr (vectorDim : ℕ) :
    checkVectorDocument vectorDim document = checkVectorDocument vectorDim other := by
  simp only [checkVectorDocument, VectorView.mk.inj hview]

end Vectors

theorem upsertVectors_congr (index : VectorOnlyIndex) {documents others : List CoreVectorDocument}
    (hviews : documents.map (vectorView P policy) = others.map (vectorView P policy)) :
    upsertVectors P policy index documents = upsertVectors P policy index others := by
  have hchecks := View.forM_eq hviews fun _ _ hview => checkVectorDocument_congr hview index.vectorDim
  have hloop : upsertVectorLoop P policy index documents = upsertVectorLoop P policy index others :=
    View.foldl_eq hviews (fun batch _ _ hview => upsertVector_congr hstore hview batch) _
  simp only [upsertVectors, hchecks, hloop]

omit hstore in
/-- A text argument is seen by its hash and its tokens. -/
theorem textView_cases {other : Option (Option String)} (hview : textView P policy text = textView P policy other) :
    text = other ∨ ∃ given found, text = some (some given) ∧ other = some (some found) ∧
      sha256Text P given = sha256Text P found ∧
      tokensView policy (some (tokenize P given)) = tokensView policy (some (tokenize P found)) := by
  match text, other with
  | none, none => exact .inl rfl
  | some none, some none => exact .inl rfl
  | some (some given), some (some found) =>
    simp only [textView, Option.map_some, Option.some.injEq, Prod.mk.injEq] at hview
    exact .inr ⟨given, found, rfl, rfl, hview.1, hview.2⟩

theorem updateDocumentPayload_congr (index : VectorOnlyIndex) (documentId : String) (metadata : Option Metadata)
    {other : Option (Option String)} (hview : textView P policy text = textView P policy other) :
    updateDocumentPayload P policy index documentId metadata text =
      updateDocumentPayload P policy index documentId metadata other := by
  rcases textView_cases hview with rfl | ⟨given, found, rfl, rfl, hhash, htoks⟩
  · rfl
  have hcap : captionTokens P policy (some given) = captionTokens P policy (some found) :=
    captionTokens_congr hstore htoks
  have hretn := retainedText_eq_none hstore
  have hrec (record : DocumentRecord) : record.withText P policy documentId (some given) =
      record.withText P policy documentId (some found) := by
    simp only [DocumentRecord.withText, Option.getD_some, hhash, hcap, hretn]
  have hput (record : DocumentRecord) : putUpdated P policy index documentId record metadata (some (some given)) =
      putUpdated P policy index documentId record metadata (some (some found)) := by
    cases metadata <;> simp only [putUpdated, updatedRecord, hrec]
  have htrack (index : VectorOnlyIndex) (record : DocumentRecord) :
      trackText P policy index documentId record (some (some given)) =
        trackText P policy index documentId record (some (some found)) := by
    simp only [trackText, hcap, hretn]
  have hwal : walPayload P policy documentId metadata (some (some given)) =
      walPayload P policy documentId metadata (some (some found)) := by
    cases hindex : policy.indexText with
    | false => simp [walPayload, hstore, hindex]
    | true =>
      have hsame : tokenize P given = tokenize P found := tokensView_some_inj hindex htoks
      simp [walPayload, hstore, hindex, hsame]
  simp only [updateDocumentPayload, hput, htrack, hwal]

end Texts

/-! ### Text plans -/

section Plans

variable {plan other : IngestPlan} {chunks others : List PlanDocumentChunk} {document found : PlanDocument}

/-- Planned chunks that are seen alike, with tokens only where the handle indexes text. -/
structure SameChunk (chunk other : PlanDocumentChunk) : Prop where
  chunkId : chunk.chunkId = other.chunkId
  contentHash : sha256Text P chunk.text = sha256Text P other.text
  tokens : chunk.tokens = other.tokens

/-- Planned documents that are seen alike and carry no raw text. -/
structure SamePlanned (document other : PlanDocument) : Prop where
  documentId : document.documentId = other.documentId
  metadata : document.metadata = other.metadata
  contentHash : planHash P document = planHash P other
  text : document.text = other.text
  chunks : List.Forall₂ (SameChunk (P := P)) document.chunks other.chunks

theorem samePlanned_of_view
    (hview : plan.documents.map (planDocumentView P policy) = other.documents.map (planDocumentView P policy))
    (hplan : PlanConforms policy plan) (hother : PlanConforms policy other) :
    List.Forall₂ (SamePlanned (P := P)) plan.documents other.documents := by
  refine View.forall₂_of_view hview ?_
  intro left hleft right hright hsame
  obtain ⟨hleftText, hleftTokens⟩ := hplan left hleft
  obtain ⟨hrightText, hrightTokens⟩ := hother right hright
  obtain ⟨hid, hmeta, hhash, hchunks⟩ := PlanDocumentView.mk.inj hsame
  refine ⟨hid, hmeta, hhash, hleftText.trans hrightText.symm, View.forall₂_of_view hchunks ?_⟩
  intro chunk hchunk found hfound hsame
  obtain ⟨hchunkId, hcont, htoks, -⟩ := ChunkView.mk.inj hsame
  refine ⟨hchunkId, hcont, ?_⟩
  cases hindex : policy.indexText with
  | true => exact tokensView_some_inj hindex htoks
  | false => rw [hleftTokens hindex chunk hchunk, hrightTokens hindex found hfound]

theorem map_eq_of_sameChunks {f : PlanDocumentChunk → τ}
    (hf : ∀ chunk other, SameChunk (P := P) chunk other → f chunk = f other)
    (hchunks : List.Forall₂ (SameChunk (P := P)) chunks others) : chunks.map f = others.map f := by
  induction hchunks with
  | nil => rfl
  | cons hchunk _ ih => rw [List.map_cons, List.map_cons, hf _ _ hchunk, ih]

theorem resolveChunks_congr (documentId : String) (existing : ChunkVectors)
    (hchunks : List.Forall₂ (SameChunk (P := P)) chunks others)
    (fresh : ChunkVectors) :
    resolveChunks P documentId existing chunks fresh = resolveChunks P documentId existing others fresh := by
  induction hchunks generalizing fresh with
  | nil => rfl
  | cons hchunk _ ih =>
    simp only [resolveChunks, hchunk.chunkId, hchunk.contentHash, ih]

theorem textRecord_congr (hsame : SamePlanned (P := P) document found) (chunks : List ChunkRecord) :
    textRecord P document chunks = textRecord P found chunks := by
  have htoks := map_eq_of_sameChunks (fun _ _ hchunk => hchunk.tokens) hsame.chunks
  change (⟨planHash P document, document.metadata, document.text, document.chunks.map (·.tokens), chunks, none⟩ :
    DocumentRecord) = ⟨planHash P found, found.metadata, found.text, found.chunks.map (·.tokens), chunks, none⟩
  rw [hsame.contentHash, hsame.metadata, hsame.text, htoks]

section Loop

variable (hstore : plan.storeText = other.storeText) (hindex : plan.indexText = other.indexText)

include hstore hindex

theorem put_congr (batch : TextBatch) (hsame : SamePlanned (P := P) document found) (resolved : Resolved) :
    batch.put P plan document resolved = batch.put P other found resolved := by
  have hrec := textRecord_congr hsame
  have htoks := map_eq_of_sameChunks (fun _ _ hchunk => hchunk.tokens) hsame.chunks
  have hids : document.chunkIds = found.chunkIds :=
    map_eq_of_sameChunks (fun _ _ hchunk => hchunk.chunkId) hsame.chunks
  have hput : putTextDocument P plan batch.index document resolved.chunks =
      putTextDocument P other batch.index found resolved.chunks := by
    simp only [putTextDocument, hrec, htoks, hstore, hindex, hsame.documentId, hsame.text]
  simp only [TextBatch.put, hput, hrec, hids, hsame.documentId, hsame.metadata, hsame.text]

variable (existing : ChunkVectors)

theorem applyPlanDocument_congr (batch : TextBatch)
    (hsame : SamePlanned (P := P) document found) :
    applyPlanDocument P plan existing batch document = applyPlanDocument P other existing batch found := by
  simp only [applyPlanDocument, hsame.documentId, resolveChunks_congr _ existing hsame.chunks,
    put_congr hstore hindex batch hsame]

theorem applyPlanDocuments_congr
    {documents others : List PlanDocument} (hsame : List.Forall₂ (SamePlanned (P := P)) documents others)
    (batch : TextBatch) :
    applyPlanDocuments P plan existing documents batch = applyPlanDocuments P other existing others batch := by
  induction hsame generalizing batch with
  | nil => rfl
  | cons hdoc _ ih =>
    simp only [applyPlanDocuments, applyPlanDocument_congr hstore hindex existing batch hdoc, ih]

end Loop

theorem applyTextUpsert_congr (index : VectorOnlyIndex)
    (hview : planView P policy plan = planView P policy other) (hplan : PlanConforms policy plan)
    (hother : PlanConforms policy other) (embeddings : List Embedding) :
    applyTextUpsert P index plan embeddings = applyTextUpsert P index other embeddings := by
  obtain ⟨hgen, hdocs, hembed, hstore, hindex⟩ := PlanView.mk.inj hview
  have hsame := samePlanned_of_view hdocs hplan hother
  have hlen := hsame.length_eq
  have hempty : plan.documents = [] ↔ other.documents = [] := by
    rw [← List.length_eq_zero_iff, hlen, List.length_eq_zero_iff]
  have hchunkIds : plan.documents.flatMap (·.chunkIds) = other.documents.flatMap (·.chunkIds) := by
    refine View.flatMap_eq hdocs ?_
    intro left right hsame
    have hids := congrArg (fun view => view.chunks.map ChunkView.chunkId) hsame
    simp only [planDocumentView, List.map_map] at hids
    exact hids
  have htoEmbed : plan.chunksToEmbed.map (·.chunkId) = other.chunksToEmbed.map (·.chunkId) := by
    have hids := congrArg (List.map Prod.snd) hembed
    rwa [List.map_map, List.map_map] at hids
  have hcheck : checkPlan index plan embeddings = checkPlan index other embeddings := by
    have hcount : plan.chunksToEmbed.length = other.chunksToEmbed.length := by
      simpa using congrArg List.length hembed
    simp only [checkPlan, hgen, hcount]
  have hloop : applyLoop P index plan embeddings = applyLoop P index other embeddings := by
    simp only [applyLoop, newEmbeddings, htoEmbed, hchunkIds]
    exact applyPlanDocuments_congr hstore hindex _ hsame _
  simp only [applyTextUpsert, hcheck, hloop, hempty, hlen]

end Plans

/-! ### Folded records -/

section Steps

variable (hstore : policy.storeText = false)

/-- Tokens seen alike, and there only where the handle indexes text, are the same. -/
theorem tokens_eq_of_view {tokens other : Option τ} (hview : tokensView policy tokens = tokensView policy other)
    (htoks : policy.indexText = false → tokens = none) (hother : policy.indexText = false → other = none) :
    tokens = other := by
  cases hindex : policy.indexText with
  | true => simpa [tokensView, hindex] using hview
  | false => rw [htoks hindex, hother hindex]

theorem restoreTokens_congr {rows others : List WalVectorDocument}
    (hsame : List.Forall₂ (fun row other => row.documentId = other.documentId ∧ row.tokens = other.tokens) rows others)
    (index : VectorOnlyIndex) :
    rows.foldl (fun index row => restoreWalVectorTokens index row.documentId row.tokens) index =
      others.foldl (fun index row => restoreWalVectorTokens index row.documentId row.tokens) index := by
  induction hsame generalizing index with
  | nil => rfl
  | cons hrow _ ih => rw [List.foldl_cons, List.foldl_cons, hrow.1, hrow.2, ih]

include hstore

variable (index : VectorOnlyIndex)

/-- A fold without raw text sees an embedded document as its view. -/
theorem putFolded_congr {document other : WalEmbeddedDocument}
    (hview : embeddedView policy document = embeddedView policy other) (chunks : List ChunkRecord)
    : putFolded policy index document chunks = putFolded policy index other chunks := by
  obtain ⟨hid, hhash, hmeta, -, htoks⟩ := EmbeddedView.mk.inj hview
  have hretn (document : WalEmbeddedDocument) : foldText policy document = none :=
    retainedText_eq_none hstore document.text
  have hkept : foldTokens policy document = foldTokens policy other := by
    cases hindex : policy.indexText with
    | false => simp [foldTokens, hindex, hretn]
    | true => simpa [foldTokens, hindex] using tokensView_some_inj hindex htoks
  simp only [putFolded, foldRecord, hid, hhash, hmeta, hkept, hretn]

theorem foldDocuments_congr (added existing : ChunkVectors)
    {others : List WalEmbeddedDocument}
    (hviews : List.Forall₂ (fun document other => embeddedView policy document = embeddedView policy other)
      documents others) (batch : FoldBatch) :
    foldDocuments policy added existing documents batch = foldDocuments policy added existing others batch := by
  induction hviews generalizing batch with
  | nil => rfl
  | cons hview _ ih =>
    have hput := putFolded_congr hstore batch.index hview
    obtain ⟨hid, -, hmeta, hchunkIds, -⟩ := EmbeddedView.mk.inj hview
    simp only [foldDocuments, FoldBatch.put, hput, hid, hmeta, hchunkIds, ih]

theorem applyEmbeddedDocumentsWal_congr {others : List WalEmbeddedDocument}
    (hviews : documents.map (embeddedView policy) = others.map (embeddedView policy))
    (addedChunks : List WalAddedChunk) (removedChunkIds : List String) :
    applyEmbeddedDocumentsWal P policy index documents addedChunks removedChunkIds =
      applyEmbeddedDocumentsWal P policy index others addedChunks removedChunkIds := by
  have hids : documents.map WalEmbeddedDocument.documentId = others.map WalEmbeddedDocument.documentId :=
    View.map_eq hviews fun _ _ hview => congrArg EmbeddedView.documentId hview
  have hchunkIds : documents.flatMap WalEmbeddedDocument.chunkIds = others.flatMap WalEmbeddedDocument.chunkIds :=
    View.flatMap_eq hviews fun _ _ hview => congrArg EmbeddedView.chunkIds hview
  have hempty : documents = [] ↔ others = [] := by
    rw [← List.map_eq_nil_iff (f := embeddedView policy), hviews, List.map_eq_nil_iff]
  have hsame := View.forall₂_of_map_eq hviews
  simp only [applyEmbeddedDocumentsWal, checkEmbedded, hids, hchunkIds,
    fun added existing => foldDocuments_congr hstore added existing hsame, FoldBatch.close, hempty]

theorem applyNativeWalRecord_congr {op other : WalOp} (hview : opView P policy op = opView P policy other)
    (hop : OpConforms policy op) (hother : OpConforms policy other) :
    applyNativeWalRecord P policy index op = applyNativeWalRecord P policy index other := by
  cases op <;> cases other <;> try (cases hview; done)
  case upsertVectors.upsertVectors rows others =>
    have hrows := OpView.upsertVectors.inj hview
    have hdocs : (rows.map vectorDocumentFromWal).map (vectorView P policy) =
        (others.map vectorDocumentFromWal).map (vectorView P policy) := by
      have hfirst := congrArg (List.map Prod.fst) hrows
      rwa [List.map_map, List.map_map] at hfirst ⊢
    have hsame : List.Forall₂ (fun row other => row.documentId = other.documentId ∧ row.tokens = other.tokens)
        rows others := by
      refine View.forall₂_of_view hrows ?_
      intro row hrow found hfound hsame
      refine ⟨congrArg (fun view => view.1.documentId) hsame, ?_⟩
      exact tokens_eq_of_view (congrArg Prod.snd hsame) (fun hindex => hop hindex row hrow)
        (fun hindex => hother hindex found hfound)
    simp only [applyNativeWalRecord, upsertVectors_congr hstore index hdocs, restoreTokens_congr hsame]
  case deleteDocuments.deleteDocuments =>
    cases hview
    rfl
  case updateDocumentPayload.updateDocumentPayload documentId metadata _ tokens _ _ _ others =>
    obtain ⟨rfl, rfl, htext, htoks⟩ := OpView.updateDocumentPayload.inj hview
    obtain rfl : tokens = others := tokens_eq_of_view htoks hop hother
    simp only [applyNativeWalRecord, updateDocumentPayload_congr hstore index documentId metadata htext]
  case applyEmbeddedDocuments.applyEmbeddedDocuments addedChunks removedChunkIds _ _ _ =>
    obtain ⟨hdocs, rfl, rfl⟩ := OpView.applyEmbeddedDocuments.inj hview
    exact applyEmbeddedDocumentsWal_congr hstore index hdocs addedChunks removedChunkIds

theorem replayRecords_congr {records others : List WalRecord}
    (hsame : List.Forall₂ (fun record other => record.lsn = other.lsn ∧ OpConforms policy record.op ∧
      OpConforms policy other.op ∧ opView P policy record.op = opView P policy other.op) records others)
    (index : VectorOnlyIndex) : replayRecords P policy index records = replayRecords P policy index others := by
  induction hsame generalizing index with
  | nil => rfl
  | cons hrec _ ih =>
    obtain ⟨hlsn, hop, hother, hview⟩ := hrec
    simp only [replayRecords, applyNativeWalRecord_congr hstore index hview hop hother, hlsn, ih]

/-! ### Runs -/

theorem callOutcome_congr {call other : Call} (hview : callView P policy call = callView P policy other)
    (hcall : Conforms policy (.call call)) (hother : Conforms policy (.call other)) :
    callOutcome P policy index call = callOutcome P policy index other := by
  cases call <;> cases other <;> try (cases hview; done)
  case upsertVectors.upsertVectors => exact upsertVectors_congr hstore index (CallView.upsertVectors.inj hview)
  case deleteDocuments.deleteDocuments =>
    cases hview
    rfl
  case updateDocumentPayload.updateDocumentPayload documentId metadata _ _ _ _ =>
    obtain ⟨rfl, rfl, htext⟩ := CallView.updateDocumentPayload.inj hview
    exact updateDocumentPayload_congr hstore index documentId metadata htext
  case prepareTextUpsert.prepareTextUpsert => rfl
  case applyTextUpsert.applyTextUpsert embeddings _ _ =>
    obtain ⟨hplan, rfl⟩ := CallView.applyTextUpsert.inj hview
    exact applyTextUpsert_congr index hplan hcall hother embeddings

/-- One step depends on the texts it is given only through its view. -/
theorem Writer.step_congr (writer : Writer) {step other : WriterStep}
    (hview : stepView P policy step = stepView P policy other) (hstep : Conforms policy step)
    (hother : Conforms policy other) : writer.step P policy format step = writer.step P policy format other := by
  cases step <;> cases other <;> try (cases hview; done)
  case call.call =>
    have hout := callOutcome_congr hstore writer.store.index (StepView.call.inj hview) hstep hother
    simp only [Writer.step, hout]
  case fold.fold records others =>
    have hrecs := View.forall₂_of_view (StepView.fold.inj hview) fun record hrec found hfound hsame =>
      show record.lsn = found.lsn ∧ OpConforms policy record.op ∧ OpConforms policy found.op ∧
          opView P policy record.op = opView P policy found.op from
        ⟨congrArg Prod.fst hsame, hstep record hrec, hother found hfound, congrArg Prod.snd hsame⟩
    have hlen : records.length = others.length := hrecs.length_eq
    simp only [Writer.step, applyReplayRecords, replayRecords_congr hstore hrecs, hlen]
  case persist.persist =>
    cases hview
    rfl
  case interrupted.interrupted =>
    cases hview
    rfl

end Steps

/-- Runs without raw text that see the same write the same log and the same files. -/
theorem Writer.run_eq_of_views (hstore : policy.storeText = false) {steps others : List WriterStep}
    (hviews : steps.map (stepView P policy) = others.map (stepView P policy))
    (hsteps : ∀ step ∈ steps, Conforms policy step) (hothers : ∀ step ∈ others, Conforms policy step)
    (writer : Writer) : writer.run P policy format steps = writer.run P policy format others := by
  have hsame := View.forall₂_of_view hviews fun step hstep other hother hview =>
    show Conforms policy step ∧ Conforms policy other ∧ stepView P policy step = stepView P policy other from
      ⟨hsteps step hstep, hothers other hother, hview⟩
  clear hviews hsteps hothers
  induction hsame generalizing writer with
  | nil => rfl
  | cons hhead _ ih =>
    obtain ⟨hstep, hother, hview⟩ := hhead
    simp only [Writer.run, List.foldl_cons, Writer.step_congr hstore writer hview hstep hother]
    exact ih _

/-- A vector document with a caption. -/
def captioned (text : String) : CoreVectorDocument :=
  ⟨"a", List.replicate 8 0, ∅, some text, none⟩

/-- Library functions whose digest tells no two texts apart. -/
def blindPrimitives : Primitives := { Primitives.sample with sha256Digest := fun _ => .replicate 32 1 }

/-- The plan prepared under a policy for one text. -/
def textPlan (policy : TextPolicy) (text : String) : IngestPlan :=
  (prepareTextUpsert blindPrimitives (.new 8 none) [⟨"a", text, ∅⟩] policy 900).toOption.getD
    ⟨0, [], [], policy.storeText, policy.indexText⟩

/-- A run that puts a text, captions it twice, folds a logged caption, and persists. -/
def captionRun (first second third : String) : List WriterStep :=
  [.call (.applyTextUpsert (textPlan ⟨false, true⟩ first) [List.replicate 8 0]), .call (.upsertVectors [captioned first]),
    .call (.updateDocumentPayload "a" none (some (some second))),
    .fold [⟨some 7, .updateDocumentPayload "a" none (some (some third)) (some [["z"]])⟩],
    .persist none]

/-- The writer of an empty directory. -/
def Writer.fresh : Writer := ⟨⟨.empty, .new 8 none⟩, []⟩

/-- Texts with the same tokens leave the same log and files. -/
theorem Writer.run_eq_of_views_captions :
    Writer.fresh.run blindPrimitives ⟨false, true⟩ .sample (captionRun "x y" "y" "z") =
      Writer.fresh.run blindPrimitives ⟨false, true⟩ .sample (captionRun "x  y" "y" "z") := by
  have hplans : ∀ text ∈ ["x y", "x  y"], PlanConforms ⟨false, true⟩ (textPlan ⟨false, true⟩ text) := by
    unfold PlanConforms
    decide +kernel
  refine Writer.run_eq_of_views rfl (by decide +kernel) ?_ ?_ _
  · simp [captionRun, Conforms, OpConforms, hplans]
  · simp [captionRun, Conforms, OpConforms, hplans]

/-- The plan prepared for a one-word document with its raw text retained. -/
def retainingPlan (word : String) : IngestPlan := textPlan ⟨true, false⟩ word

/-- A run that applies it. -/
def retainingRun (word : String) : List WriterStep :=
  [.call (.applyTextUpsert (retainingPlan word) [List.replicate 8 0])]

/-- A plan prepared with raw text puts it into the log of a handle opened without. -/
theorem exists_runs_leak_text : ∃ left right : String,
    prepareTextUpsert blindPrimitives (.new 8 none) [⟨"a", left, ∅⟩] ⟨true, false⟩ 900 = .ok (retainingPlan left) ∧
      prepareTextUpsert blindPrimitives (.new 8 none) [⟨"a", right, ∅⟩] ⟨true, false⟩ 900 = .ok (retainingPlan right) ∧
      (retainingRun left).map (stepView blindPrimitives ⟨false, false⟩) =
        (retainingRun right).map (stepView blindPrimitives ⟨false, false⟩) ∧
      (Writer.fresh.run blindPrimitives ⟨false, false⟩ .sample (retainingRun left)).log ≠
        (Writer.fresh.run blindPrimitives ⟨false, false⟩ .sample (retainingRun right)).log := by
  refine ⟨"x", "y", ?_, ?_, ?_, ?_⟩ <;> decide +kernel

end LodeDB.Engine
