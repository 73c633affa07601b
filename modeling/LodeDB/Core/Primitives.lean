import Mathlib.Data.List.Basic

/-!
# What the engine takes from libraries

The digest, the Unicode lower-casing map, the vector kernel's calibration and row codec, and the
row codec of the original-precision sidecar. The engine only stores and compares what these
return, so they are parameters: every result holds for any choice of them.
-/

namespace LodeDB

/-- A vector, as the bit patterns of its `f32` coordinates. -/
abbrev Embedding := List UInt32

/-- One compact row: its packed codes and the bit pattern of its scale. -/
structure EncodedRow where
  codes : List UInt8
  scale : UInt32
  deriving DecidableEq

/-- The per-coordinate calibration the first add of an index fits. -/
structure Calibration where
  shift : List UInt32
  scale : List UInt32
  deriving DecidableEq

/-- Element types of the original-precision sidecar. -/
inductive TvvfDtype
  | float16
  | float32
  | int8
  deriving DecidableEq

/-- The bytes of a sidecar row: two or four for each coordinate, or one and a scale. -/
def rowStride (dtype : TvvfDtype) (dim : ℕ) : ℕ :=
  match dtype with
  | .float16 => dim * 2
  | .float32 => dim * 4
  | .int8 => dim + 4

/-- The library functions the engine calls. The sidecar's codec fills a row's width. -/
structure Primitives where
  sha256Digest : List UInt8 → Vector UInt8 32
  toLowercase : String → String
  fitCalibration : List Embedding → Calibration
  encodeVector : Calibration → Embedding → EncodedRow
  reconstructRow : Calibration → EncodedRow → Embedding
  calibrationFingerprint : Option Calibration → UInt64
  encodeRow : TvvfDtype → Embedding → List UInt8
  encodeRow_length : ∀ dtype embedding, (encodeRow dtype embedding).length = rowStride dtype embedding.length

/-- Library functions for concrete runs: a digest is the first 32 bytes. -/
def Primitives.sample : Primitives where
  sha256Digest bytes := Vector.ofFn fun position => bytes.getD position 0
  toLowercase text := text
  fitCalibration _ := ⟨[], []⟩
  encodeVector _ vector := ⟨[], vector.headD 0⟩
  reconstructRow _ row := [row.scale]
  calibrationFingerprint _ := 1
  encodeRow dtype embedding := List.replicate (rowStride dtype embedding.length) 0
  encodeRow_length _ _ := List.length_replicate

/-- The bit pattern of `1e16`, from which the kernel rejects a coordinate. -/
def maxInputMagnitude : UInt32 := 0x5a0e1bca

/-- A finite coordinate below the limit: bit patterns order as magnitudes do, infinities and NaNs above. -/
def validCoord (coordinate : UInt32) : Bool := (coordinate &&& 0x7fffffff) < maxInputMagnitude

end LodeDB
