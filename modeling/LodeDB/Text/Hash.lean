import LodeDB.Core.Basic
import LodeDB.Core.Primitives
import Mathlib.Data.List.Nodup

/-!
# Content hashes and stable row ids
-/

namespace LodeDB.Text

variable (P : Primitives)

/-- The UTF-8 bytes of a string. -/
def utf8 (text : String) : List UInt8 := text.toByteArray.data.toList

/-- A byte as two lower-case hexadecimal digits. -/
def hexByte (byte : UInt8) : List Char :=
  [Nat.digitChar (byte.toNat / 16), Nat.digitChar (byte.toNat % 16)]

/-- The hexadecimal digest of a byte string. -/
def sha256Hex (bytes : List UInt8) : String :=
  String.ofList ((P.sha256Digest bytes).toList.flatMap hexByte)

/-- The digest of a text. -/
def sha256Text (value : String) : String := sha256Hex P (utf8 value)

/-- The little-endian bytes of one coordinate. -/
def coordinateBytes (coordinate : UInt32) : List UInt8 :=
  [coordinate.toUInt8, (coordinate >>> 8).toUInt8, (coordinate >>> 16).toUInt8, (coordinate >>> 24).toUInt8]

/-- The digest of a vector's little-endian bytes. -/
def sha256F32Le (vector : Embedding) : String := sha256Hex P (vector.flatMap coordinateBytes)

/-- The first eight digest bytes of a text, little-endian. -/
def stableUint64ForText (value : String) : UInt64 :=
  ((P.sha256Digest (utf8 value)).toList.take 8).foldr (fun byte high => high * 256 + byte.toUInt64) 0

/-- The maximal runs of characters that are not whitespace. -/
def splitWhitespace : List Char → List Char → List (List Char)
  | [], current => if current = [] then [] else [current]
  | c :: rest, current =>
    if isWhitespace c then
      if current = [] then splitWhitespace rest [] else current :: splitWhitespace rest []
    else splitWhitespace rest (current ++ [c])

/-- The digest of a chunk whose whitespace runs are collapsed, so whitespace changes reuse embeddings. -/
def normalizedChunkHash (text : String) : String :=
  sha256Text P (String.ofList ([' '].intercalate (splitWhitespace text.toList [])))

/-- Step a candidate past zero and past the used ids. The fuel is one more than the ids it can have to skip. -/
def repairCandidate (used : List UInt64) : ℕ → UInt64 → UInt64
  | 0, candidate => candidate
  | fuel + 1, candidate =>
    if candidate = 0 ∨ candidate ∈ used then repairCandidate used fuel (candidate + 1) else candidate

/-- Repair zero and repeated candidates, given the ids already assigned. -/
def repairFrom : List UInt64 → List UInt64 → List UInt64
  | _, [] => []
  | used, candidate :: rest =>
    let repaired := repairCandidate used (used.length + 2) candidate
    repaired :: repairFrom (repaired :: used) rest

/-- Repair zero and repeated candidates of one batch. -/
def repairStableUint64Candidates (candidates : List UInt64) : List UInt64 := repairFrom [] candidates

/-- The stable row ids of a batch of chunk ids. -/
def stableUint64IdsForChunkIds (chunkIds : List String) : List UInt64 :=
  repairStableUint64Candidates (chunkIds.map (stableUint64ForText P))

/-- A candidate that needs no repair is kept. -/
theorem repairCandidate_fresh {used : List UInt64} {candidate : UInt64} (fuel : ℕ)
    (hzero : candidate ≠ 0) (hfresh : candidate ∉ used) : repairCandidate used fuel candidate = candidate := by
  cases fuel with
  | zero => rfl
  | succ fuel => rw [repairCandidate, if_neg (not_or.mpr ⟨hzero, hfresh⟩)]

/-- Candidates that are distinct, unused and not zero are kept. -/
theorem repairFrom_fresh (used candidates : List UInt64) (hzero : ∀ c ∈ candidates, c ≠ 0)
    (hnodup : candidates.Nodup) (hused : ∀ c ∈ candidates, c ∉ used) : repairFrom used candidates = candidates := by
  induction candidates generalizing used with
  | nil => rfl
  | cons candidate rest ih =>
    rw [List.nodup_cons] at hnodup
    have hkept := repairCandidate_fresh (used.length + 2) (hzero candidate (by simp))
      (hused candidate (by simp))
    simp only [repairFrom, hkept]
    rw [ih (candidate :: used) (fun c hc => hzero c (by simp [hc])) hnodup.2]
    intro c hc hmem
    rcases List.mem_cons.mp hmem with rfl | hmem
    · exact hnodup.1 hc
    · exact hused c (by simp [hc]) hmem

/-- Chunk ids with distinct, nonzero 64-bit digests: the ids row repair leaves alone. -/
structure StableOn (ids : Set String) : Prop where
  injOn : ∀ a ∈ ids, ∀ b ∈ ids, stableUint64ForText P a = stableUint64ForText P b → a = b
  nonzero : ∀ a ∈ ids, stableUint64ForText P a ≠ 0

variable {P}

/-- Over collision-free ids the stable ids of a batch are the plain digests. -/
theorem StableOn.stableUint64IdsForChunkIds_eq {ids : Set String} (h : StableOn P ids)
    {chunkIds : List String} (hids : ∀ c ∈ chunkIds, c ∈ ids) (hnodup : chunkIds.Nodup) :
    stableUint64IdsForChunkIds P chunkIds = chunkIds.map (stableUint64ForText P) := by
  apply repairFrom_fresh
  · intro candidate hcand
    obtain ⟨c, hc, rfl⟩ := List.mem_map.mp hcand
    exact h.nonzero c (hids c hc)
  · exact List.Nodup.map_on (fun a ha b hb => h.injOn a (hids a ha) b (hids b hb)) hnodup
  · simp

end LodeDB.Text
