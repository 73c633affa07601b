import LodeDB.Engine.Types
import LodeDB.Lib.Occurrence
import LodeDB.Lib.TreeMap
import LodeDB.Text.Hash

/-!
# The live TurboVec index

The kernel's id map holds one compact row per stable id; the native index adds the maps between
stable ids, chunk ids and document ids. Row bytes are whatever the kernel encodes: the calibration
is fitted by the first add and never refitted.
-/

namespace LodeDB.Engine

open TreeMapRules
open Text (stableUint64ForText stableUint64IdsForChunkIds StableOn)

variable (P : Primitives)

/-- A failure reported by the kernel. -/
def coreError (message : String) : CoreError := ⟨.internal, message⟩

/-- Compact rows by stable id, with the calibration they are encoded under. -/
structure IdMapIndex where
  rows : Std.ExtTreeMap UInt64 EncodedRow compare
  calibration : Option Calibration

namespace IdMapIndex

/-- The kernel's input check on a batch of vectors. -/
def checkBatch (entries : List (UInt64 × Embedding)) : Except CoreError Unit :=
  if (entries.map Prod.fst).Nodup then
    if entries.all fun entry => entry.2.all validCoord then .ok ()
    else .error (coreError "vector contains an invalid input value")
  else .error (coreError "id already present")

variable (index : IdMapIndex)

/-- Add new rows, fitting the calibration on the first non-empty add. -/
def addWithIds (entries : List (UInt64 × Embedding)) : Except CoreError IdMapIndex :=
  if entries.any fun entry => index.rows.contains entry.1 then .error (coreError "id already present")
  else do
    checkBatch entries
    if entries = [] then return index
    let calibration := index.calibration.getD (P.fitCalibration (entries.map Prod.snd))
    return ⟨writeAll index.rows (entries.map fun entry =>
      (entry.1, P.encodeVector calibration entry.2)), some calibration⟩

/-- Overwrite existing rows and append new ones under the frozen calibration. -/
def upsertWithIds (entries : List (UInt64 × Embedding)) : Except CoreError IdMapIndex :=
  if index.rows.isEmpty then index.addWithIds P entries
  else do
    checkBatch entries
    return { index with
      rows := writeAll index.rows (entries.map fun entry =>
        (entry.1, P.encodeVector (index.calibration.getD ⟨[], []⟩) entry.2)) }

/-- Remove rows, counting those that were present. -/
def removeMany (index : IdMapIndex) : List UInt64 → IdMapIndex × ℕ
  | [] => (index, 0)
  | stableId :: rest =>
    if index.rows.contains stableId then
      let (removed, count) := removeMany { index with rows := index.rows.erase stableId } rest
      (removed, count + 1)
    else removeMany index rest

/-- The row of every id, in order; an unknown id is an error. -/
def exportEncoded (stableIds : List UInt64) : Except CoreError (List EncodedRow) :=
  stableIds.mapM fun stableId =>
    match index.rows[stableId]? with
    | some row => .ok row
    | none => .error (coreError "unknown id")

/-- Upsert rows that are already encoded. -/
def addEncoded (entries : List (UInt64 × EncodedRow)) : Except CoreError IdMapIndex :=
  if (entries.map Prod.fst).Nodup then .ok { index with rows := writeAll index.rows entries }
  else .error (coreError "duplicate id")

end IdMapIndex

/-- The live index: the kernel's rows and the maps to chunk and document ids. -/
structure TurboVecNativeIndex where
  index : IdMapIndex
  chunkIdsByStableId : Std.ExtTreeMap UInt64 String compare
  documentIdsByStableId : Std.ExtTreeMap UInt64 String compare
  stableIdByChunkId : Std.ExtTreeMap String UInt64 compare
  dim : ℕ

namespace TurboVecNativeIndex

variable (live : TurboVecNativeIndex)

/-- Record the chunk and document of each stable id. -/
def attach (entries : List (UInt64 × String × String)) : TurboVecNativeIndex :=
  { live with
    chunkIdsByStableId := writeAll live.chunkIdsByStableId (entries.map fun entry => (entry.1, entry.2.1))
    documentIdsByStableId := writeAll live.documentIdsByStableId (entries.map fun entry => (entry.1, entry.2.2))
    stableIdByChunkId := writeAll live.stableIdByChunkId (entries.map fun entry => (entry.2.1, entry.1)) }

/-- A native index over a kernel index, from aligned ids. -/
def fromIdParts (index : IdMapIndex) (chunkDocumentIds : List (String × String))
    (stableIds : List UInt64) (dim : ℕ) : TurboVecNativeIndex :=
  attach ⟨index, ∅, ∅, ∅, dim⟩ (stableIds.zip chunkDocumentIds)

/-- The check that every embedding has the index's dimension. -/
def checkDim (dim : ℕ) (chunks : List CoreVectorChunk) : Except CoreError Unit :=
  if chunks.all fun chunk => chunk.embedding.length = dim then .ok ()
  else .error (invalid "chunk embeddings do not match native_dim")

/-- Build an index from chunk embeddings. -/
def build (chunks : List CoreVectorChunk) (nativeDim : ℕ) : Except CoreError TurboVecNativeIndex := do
  checkDim nativeDim chunks
  let stableIds := stableUint64IdsForChunkIds P (chunks.map (·.chunkId))
  let index ← IdMapIndex.addWithIds P ⟨∅, none⟩ (stableIds.zip (chunks.map (·.embedding)))
  return fromIdParts index (chunks.map fun chunk => (chunk.chunkId, chunk.documentId)) stableIds nativeDim

/-- The stable ids of the chunks that are present, first occurrences only. -/
def stableIdsForChunks (chunkIds : List String) : List UInt64 :=
  (chunkIds.filterMap (live.stableIdByChunkId[·]?)).eraseDups

/-- Upsert chunks without rebuilding existing rows. -/
def upsertChunks (chunks : List CoreVectorChunk) : Except CoreError TurboVecNativeIndex := do
  if chunks = [] then return live
  checkDim live.dim chunks
  let stableIds := stableUint64IdsForChunkIds P (chunks.map (·.chunkId))
  let index ← live.index.upsertWithIds P (stableIds.zip (chunks.map (·.embedding)))
  return attach { live with index := index }
    (stableIds.zip (chunks.map fun chunk => (chunk.chunkId, chunk.documentId)))

/-- Drop the maps' entries of one stable id. -/
def detach (stableId : UInt64) : TurboVecNativeIndex :=
  { live with
    chunkIdsByStableId := live.chunkIdsByStableId.erase stableId
    documentIdsByStableId := live.documentIdsByStableId.erase stableId
    stableIdByChunkId :=
      match live.chunkIdsByStableId[stableId]? with
      | some chunkId => live.stableIdByChunkId.erase chunkId
      | none => live.stableIdByChunkId }

/-- Remove chunks if they are present. -/
def removeChunks (chunkIds : List String) : TurboVecNativeIndex :=
  let stableIds := live.stableIdsForChunks chunkIds
  stableIds.foldl detach { live with index := (live.index.removeMany stableIds).1 }

end TurboVecNativeIndex

end LodeDB.Engine
