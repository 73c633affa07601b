import LodeDB.Engine.Consistent
import LodeDB.Engine.Mutation

/-!
# Payload updates

A payload update replaces a document's metadata, its text, or both, and keeps its chunks. The text
argument has three states: absent, cleared or set.
-/

namespace LodeDB.Engine

open TreeMapRules InverseIndex
open LodeDB.Filter (Metadata DocSet)
open Text (sha256Text tokenize)

variable (P : Primitives) (policy : TextPolicy)

variable {documents : Documents} {updated : DocumentRecord}

/-- A record with a new caption. Without one the content hash is the document id's. -/
def DocumentRecord.withText (record : DocumentRecord) (documentId : String) (text : Option String) :
    DocumentRecord :=
  { record with
    contentHash := sha256Text P (text.getD documentId)
    text := retainedText policy text
    tokenLists := captionTokenLists (captionTokens P policy text) }

/-- The record an update leaves. -/
def updatedRecord (documentId : String) (record : DocumentRecord) (metadata : Option Metadata)
    (text : Option (Option String)) : DocumentRecord :=
  let record := { record with metadata := metadata.getD record.metadata }
  match text with
  | none => record
  | some text => record.withText P policy documentId text

variable (index : VectorOnlyIndex)

/-- Put the updated record. New metadata goes through the indexes; a text-only update still marks the document. -/
def putUpdated (documentId : String) (record : DocumentRecord)
    (metadata : Option Metadata) (text : Option (Option String)) : VectorOnlyIndex :=
  let updated := updatedRecord P policy documentId record metadata text
  match metadata, text with
  | some _, _ => index.replaceDocument documentId updated
  | none, some _ =>
    { index with
      documents := index.documents.insert documentId updated
      pendingDeletes := index.pendingDeletes.erase documentId
      pendingUpserts := insert documentId index.pendingUpserts }
  | none, none => { index with documents := index.documents.insert documentId updated }

/-- Follow the sidecar payloads a text argument changes. -/
def trackText (documentId : String) (record : DocumentRecord)
    (text : Option (Option String)) : VectorOnlyIndex :=
  match text with
  | none => index
  | some text =>
    { index with
      pendingRawTextClears := trackClear index.pendingRawTextClears documentId
        (retainedText policy text).isSome record.text.isSome
      pendingLexicalClears := trackClear index.pendingLexicalClears documentId
        (captionTokens P policy text ≠ []) (record.tokenLists ≠ []) }

/-- The log record of an update: raw text only under `storeText`, tokens only under `indexText`. -/
def walPayload (documentId : String) (metadata : Option Metadata) (text : Option (Option String)) :
    WalOp :=
  .updateDocumentPayload documentId metadata
    (if policy.storeText then text else none)
    (if policy.indexText then
      text.map fun text => captionTokenLists ((text.map (tokenize P)).getD []) else none)

/-- Update a document's metadata or text. -/
def updateDocumentPayload (documentId : String)
    (metadata : Option Metadata) (text : Option (Option String)) : Outcome :=
  match index.requireVectorsMutable with
  | .error error => ⟨index, .error error⟩
  | .ok () =>
    match index.documents[documentId]? with
    | none => ⟨index, .error (invalid "document not found")⟩
    | some record =>
      let updated := trackText P policy (putUpdated P policy index documentId record metadata text)
        documentId record text
      let finalized :=
        if metadata.isSome then
          updated.finalizeFilterFields (index.changedFilterFields record.metadata ∪
            index.changedFilterFields (metadata.getD record.metadata))
        else updated
      ⟨{ finalized with generation := index.generation + 1 }, .ok {
        result := ⟨1, 0, 0, 0, index.generation + 1⟩
        wal := some (walPayload P policy documentId metadata text) }⟩

variable {P policy} {ids : Set String} {index : VectorOnlyIndex} {documentId : String}
  {record : DocumentRecord} {metadata : Option Metadata} {text : Option (Option String)}

/-- An update keeps the chunks. -/
@[simp] theorem updatedRecord_chunkIds :
    (updatedRecord P policy documentId record metadata text).chunkIds = record.chunkIds := by
  cases text <;> rfl

/-- A document put in place of one with the same chunk ids changes no chunk id. -/
theorem hasChunk_insert_same (hrec : documents[documentId]? = some record)
    (hids : updated.chunkIds = record.chunkIds) (other chunkId : String) :
    HasChunk (documents.insert documentId updated) other chunkId ↔ HasChunk documents other chunkId := by
  rw [hasChunk_insert]
  by_cases hself : other = documentId
  · subst hself
    simp [HasChunk, hrec, hids]
  · simp [hself]

theorem ownedChunks_insert_same (hrec : documents[documentId]? = some record)
    (hids : updated.chunkIds = record.chunkIds) :
    ownedChunks (documents.insert documentId updated) = ownedChunks documents := by
  ext chunkId
  simp only [mem_ownedChunks, hasChunk_insert_same hrec hids]

/-- A document put in place of one with the same chunk ids, past the indexes. -/
theorem Indexed.insert_same (h : Indexed index) (hrec : index.documents[documentId]? = some record)
    (hids : updated.chunkIds = record.chunkIds) :
    Indexed { index with documents := index.documents.insert documentId updated } := by
  constructor
  · intro other
    have hnodup := h.nodup other
    by_cases hself : documentId = other
    · subst hself
      rw [chunkIdsOf, hrec] at hnodup
      simpa [chunkIdsOf, hids] using hnodup
    · simpa [chunkIdsOf, getElem?_insert, hself] using hnodup
  · exact h.owner.congr (fun other chunkId => hasChunk_insert_same hrec hids other chunkId)
      fun _ => rfl
  · rw [h.allDocs]
    refine (Finset.insert_eq_of_mem ?_).symm.trans (keySet_insert _ _ _).symm
    exact mem_keySet.mpr ⟨record, hrec⟩

/-- Putting the updated record keeps the structures in step. -/
theorem Indexed.putUpdated (h : Indexed index) (hrec : index.documents[documentId]? = some record) :
    Indexed (putUpdated P policy index documentId record metadata text) := by
  have hnodup : record.chunkIds.Nodup := by
    have hnodup := h.nodup documentId
    rwa [chunkIdsOf, hrec] at hnodup
  have hins : ∀ updated : DocumentRecord, updated.chunkIds = record.chunkIds →
      Indexed { index with documents := index.documents.insert documentId updated } :=
    fun updated hids => h.insert_same hrec hids
  cases metadata with
  | some metadata =>
    apply h.replaceDocument
    · rwa [updatedRecord_chunkIds]
    · intro chunkId hchunk other hother
      rw [updatedRecord_chunkIds] at hchunk
      exact h.owner.unique hother ⟨record, hrec, hchunk⟩
  | none =>
    cases text with
    | some text =>
      have hidxd := hins (updatedRecord P policy documentId record none (some text))
        updatedRecord_chunkIds
      exact ⟨hidxd.nodup, hidxd.owner, hidxd.allDocs⟩
    | none => exact hins _ updatedRecord_chunkIds

theorem putUpdated_documents :
    (putUpdated P policy index documentId record metadata text).documents =
      index.documents.insert documentId (updatedRecord P policy documentId record metadata text) := by
  cases metadata with
  | some metadata => exact replaceDocument_documents
  | none => cases text <;> rfl

theorem putUpdated_puts : index.Puts (putUpdated P policy index documentId record metadata text) := by
  cases metadata with
  | some metadata => exact replaceDocument_puts
  | none => cases text <;> exact ⟨rfl, rfl, rfl⟩

/-- Putting the updated record keeps the invariant: the chunks and their rows stay. -/
theorem Consistent.putUpdated (h : Consistent P ids index) (hrec : index.documents[documentId]? = some record) :
    Consistent P ids (putUpdated P policy index documentId record metadata text) := by
  refine h.of_owned (h.indexed.putUpdated hrec) ?_ ?_ putUpdated_puts
  · rw [putUpdated_documents]
    exact ownedChunks_insert_same hrec updatedRecord_chunkIds
  · intro hempty
    simp [hempty] at hrec

/-- A payload update keeps what putting the updated record keeps. -/
theorem updateDocumentPayload_lands {Inv : VectorOnlyIndex → Prop} (hcore : OfCore Inv) (hstart : Inv index)
    (hput : ∀ record, index.documents[documentId]? = some record →
      Inv (putUpdated P policy index documentId record metadata text)) :
    Lands Inv index (updateDocumentPayload P policy index documentId metadata text) := by
  unfold updateDocumentPayload
  split
  · exact lands_of_failed hstart _
  · split
    · exact lands_of_failed hstart _
    · rename_i record hrec
      have hupd := hput record hrec
      generalize putUpdated P policy index documentId record metadata text = updated at hupd ⊢
      refine lands_of_ok (hcore _ _ hupd ?_) (.inr rfl) _
      cases metadata <;> cases text <;> rfl

/-- A payload update keeps the invariant. -/
theorem Consistent.updateDocumentPayload (h : Consistent P ids index) :
    Lands (Consistent P ids) index (updateDocumentPayload P policy index documentId metadata text) :=
  updateDocumentPayload_lands (fun _ _ h => h.of_core) h fun _ => h.putUpdated

end LodeDB.Engine
