import Mathlib.Algebra.Ring.Nat
import Mathlib.Data.List.Forall2
import Mathlib.Data.List.TakeDrop
import Mathlib.Tactic.Common

/-!
# Logs of checksummed frames

A log holds one frame after another: the length of a body, the body and a checksum of both. Appending is not atomic,
so a log may end in a piece of a frame. A scan drops it and returns the records of the whole frames; a frame that
fails its checksum with more bytes behind it is an error.
-/

namespace FramedLog

variable {fuel : ℕ}

/-- The bytes of a log. -/
abbrev Bytes := List UInt8

/-- How bodies are read and guarded. -/
structure Framing (Record E : Type) where
  decodeBody : Bytes → Except E Record
  checksum : Bytes → UInt32
  interior : E

/-- A 32-bit word, most significant byte first. A larger number keeps its low bits. -/
def word (value : ℕ) : Bytes :=
  [UInt8.ofNat (value / 2 ^ 24), UInt8.ofNat (value / 2 ^ 16), UInt8.ofNat (value / 2 ^ 8), UInt8.ofNat value]

/-- The value of bytes, most significant first. -/
def value (bytes : Bytes) : ℕ := bytes.foldl (fun value byte => value * 256 + byte.toNat) 0

/-- What stands at the start of some bytes. -/
inductive Head (Record E : Type)
  | stop
  | corrupt (error : E)
  | frame (record : Record) (size : ℕ) (rest : Bytes)

namespace Framing

variable {Record E : Type} (F : Framing Record E)

/-- The part of a frame its checksum covers. -/
def signed (body : Bytes) : Bytes := word body.length ++ body

/-- The frame of a body. -/
def frame (body : Bytes) : Bytes := signed body ++ word (F.checksum (signed body)).toNat

/-- The frames of bodies. -/
def frames (bodies : List Bytes) : Bytes := bodies.flatMap F.frame

/-- A body that fits a frame and holds a record. -/
structure Reads (body : Bytes) (record : Record) : Prop where
  fits : body.length < 2 ^ 32
  decode : F.decodeBody body = .ok record

/-- Look at the first frame. Bytes that end in it, or whose last frame fails its checksum, stop the scan. -/
def head (data : Bytes) : Head Record E :=
  if data.length < 4 then .stop
  else
    let frameEnd := 4 + value (data.take 4)
    let crcEnd := frameEnd + 4
    if data.length < crcEnd then .stop
    else if (F.checksum (data.take frameEnd)).toNat ≠ value ((data.drop frameEnd).take 4) then
      if data.length = crcEnd then .stop else .corrupt F.interior
    else
      match F.decodeBody ((data.take frameEnd).drop 4) with
      | .ok record => .frame record crcEnd (data.drop crcEnd)
      | .error error => .corrupt error

/-- Scan frame by frame, and return the records and the offset behind them. The fuel bounds the number of frames. -/
def scanFrames : ℕ → ℕ → Bytes → List Record → Except E (List Record × ℕ)
  | 0, offset, _, found => .ok (found, offset)
  | fuel + 1, offset, data, found =>
    match F.head data with
    | .stop => .ok (found, offset)
    | .corrupt error => .error error
    | .frame record size rest => scanFrames fuel (offset + size) rest (found ++ [record])

end Framing

/-! ## Words -/

@[simp] theorem length_word (n : ℕ) : (word n).length = 4 := rfl

theorem value_word {n : ℕ} (hn : n < 2 ^ 32) : value (word n) = n := by
  simp only [value, word, List.foldl_cons, List.foldl_nil, UInt8.toNat_ofNat']
  omega

/-- Four bytes are the word of their value, which fits. -/
theorem word_value {bytes : Bytes} (hlen : bytes.length = 4) :
    word (value bytes) = bytes ∧ value bytes < 2 ^ 32 := by
  obtain ⟨a, b, c, d, rfl⟩ := List.length_eq_four.mp hlen
  have ha := a.toNat_lt
  have hb := b.toNat_lt
  have hc := c.toNat_lt
  have hd := d.toNat_lt
  simp only [value, word, List.foldl_cons, List.foldl_nil, Nat.zero_mul, Nat.zero_add, List.cons.injEq, and_true,
    ← UInt8.toNat_inj, UInt8.toNat_ofNat']
  omega

variable {data rest : Bytes}

section Frames

variable {Record E : Type} {F : Framing Record E} {body : Bytes} {bodies : List Bytes} {record : Record}
  {records : List Record}

theorem length_signed (body : Bytes) : (Framing.signed body).length = 4 + body.length := by
  simp [Framing.signed]

theorem length_frame (body : Bytes) : (F.frame body).length = (Framing.signed body).length + 4 := by
  simp [Framing.frame]

@[simp] theorem frames_nil : F.frames [] = [] := rfl

@[simp] theorem frames_cons (body : Bytes) (bodies : List Bytes) :
    F.frames (body :: bodies) = F.frame body ++ F.frames bodies := rfl

/-! ## The first frame -/

@[simp] theorem head_nil : F.head [] = .stop := rfl

/-- Bytes that start with the length word of a body announce its frame. -/
theorem value_take_of_word (hfits : body.length < 2 ^ 32) (hdata : data = word body.length ++ rest) :
    4 + value (data.take 4) = (Framing.signed body).length := by
  rw [hdata, List.take_left' (length_word _), value_word hfits, length_signed]

/-- The scan finds a whole frame. -/
theorem head_frame (hreads : F.Reads body record) (rest : Bytes) :
    F.head (F.frame body ++ rest) = .frame record (F.frame body).length rest := by
  have hsigned : F.frame body ++ rest =
      Framing.signed body ++ (word (F.checksum (Framing.signed body)).toNat ++ rest) := by
    rw [Framing.frame, List.append_assoc]
  have hend : 4 + value ((F.frame body ++ rest).take 4) = (Framing.signed body).length := by
    apply value_take_of_word hreads.fits
    rw [hsigned, Framing.signed, List.append_assoc]
  have hlen : (F.frame body ++ rest).length = (Framing.signed body).length + 4 + rest.length := by
    rw [List.length_append, length_frame]
  have htake : (F.frame body ++ rest).take (Framing.signed body).length = Framing.signed body := by
    rw [hsigned, List.take_left]
  have hchecksum : value (((F.frame body ++ rest).drop (Framing.signed body).length).take 4) =
      (F.checksum (Framing.signed body)).toNat := by
    rw [hsigned, List.drop_left, List.take_left' (length_word _)]
    exact value_word (UInt32.toNat_lt _)
  have hrest : (F.frame body ++ rest).drop ((Framing.signed body).length + 4) = rest := by
    rw [← length_frame (F := F), List.drop_left]
  have hbody : (Framing.signed body).drop 4 = body := by
    rw [Framing.signed, List.drop_left' (length_word _)]
  have hsize := length_signed body
  simp only [Framing.head, hend, htake, hchecksum, hrest, hbody, hreads.decode, length_frame]
  rw [if_neg (by omega), if_neg (by omega), if_neg (by simp)]

/-- A piece of a frame stops the scan. -/
theorem head_take_frame (hfits : body.length < 2 ^ 32) {count : ℕ} (hcount : count < (F.frame body).length) :
    F.head ((F.frame body).take count) = .stop := by
  have hlen : ((F.frame body).take count).length = count := by
    rw [List.length_take]
    omega
  unfold Framing.head
  by_cases hshort : count < 4
  · rw [if_pos (by rwa [hlen])]
  rw [if_neg (by rwa [hlen])]
  have hend : 4 + value (((F.frame body).take count).take 4) = (Framing.signed body).length := by
    rw [List.take_take, Nat.min_eq_left (by omega)]
    exact value_take_of_word hfits (by rw [Framing.frame, Framing.signed, List.append_assoc])
  rw [length_frame] at hcount
  simp only [hend, hlen, if_pos hcount]

/-- Four bytes behind `count` others are a word. -/
private theorem take_word {data : Bytes} {count : ℕ} (hlen : count + 4 ≤ data.length) :
    (data.drop count).take 4 = word (value ((data.drop count).take 4)) :=
  (word_value (by rw [List.length_take, List.length_drop]; omega)).1.symm

/-- What the scan finds is a whole frame. -/
theorem eq_of_head_eq_frame {size : ℕ} (h : F.head data = .frame record size rest) :
    ∃ body, F.Reads body record ∧ data = F.frame body ++ rest ∧ size = (F.frame body).length := by
  unfold Framing.head at h
  split at h
  · cases h
  rename_i hword
  set bodyLen := value (data.take 4) with hbodyLen
  have hfour : (data.take 4).length = 4 := by
    rw [List.length_take]
    omega
  obtain ⟨hlead, hfits⟩ := word_value hfour
  dsimp only at h
  split at h
  · cases h
  rename_i hlong
  have hlen : ((data.take (4 + bodyLen)).drop 4).length = bodyLen := by
    rw [List.length_drop, List.length_take]
    omega
  have hsigned : data.take (4 + bodyLen) = Framing.signed ((data.take (4 + bodyLen)).drop 4) := by
    rw [Framing.signed, hlen, hbodyLen, hlead, ← hbodyLen]
    conv_lhs => rw [← List.take_append_drop 4 (data.take (4 + bodyLen)), List.take_take, Nat.min_eq_left (by omega)]
  split at h
  · split at h <;> cases h
  rename_i hchecksum
  rw [not_not] at hchecksum
  split at h
  · rename_i hdecode
    cases h
    refine ⟨(data.take (4 + bodyLen)).drop 4, ⟨by rwa [hlen], hdecode⟩, ?_, ?_⟩
    · rw [Framing.frame, ← hsigned, hchecksum, ← take_word (by omega), List.append_assoc,
        ← List.drop_drop (i := 4), List.take_append_drop, List.take_append_drop]
    · rw [length_frame, length_signed, hlen]
  · cases h

/-! ## Whole logs -/

theorem length_le_length_frames (bodies : List Bytes) : bodies.length ≤ (F.frames bodies).length := by
  induction bodies with
  | nil => simp
  | cons body bodies ih =>
    simp only [frames_cons, List.length_cons, List.length_append, length_frame]
    omega

/-- The scan finds the records of the frames in front of an end it stops at. -/
theorem scanFrames_frames (hreads : List.Forall₂ F.Reads bodies records) (hrest : F.head rest = .stop)
    (hfuel : bodies.length ≤ fuel) (offset : ℕ) (found : List Record) :
    F.scanFrames fuel offset (F.frames bodies ++ rest) found =
      .ok (found ++ records, offset + (F.frames bodies).length) := by
  induction hreads generalizing fuel offset found with
  | nil =>
    cases fuel with
    | zero => simp [Framing.scanFrames]
    | succ fuel => simp [Framing.scanFrames, hrest]
  | cons hfirst _ ih =>
    cases fuel with
    | zero => simp at hfuel
    | succ fuel =>
      rw [frames_cons, List.append_assoc, Framing.scanFrames, head_frame hfirst]
      dsimp only
      rw [ih (by simpa using hfuel), List.append_assoc, List.singleton_append, List.length_append, Nat.add_assoc]

/-- A scan that succeeds has read frame after frame, up to an end it stops at. -/
theorem eq_of_scanFrames_eq_ok {offset : ℕ} {found all : List Record} {stop : ℕ} (hfuel : data.length ≤ fuel)
    (h : F.scanFrames fuel offset data found = .ok (all, stop)) :
    ∃ bodies records rest, List.Forall₂ F.Reads bodies records ∧ data = F.frames bodies ++ rest ∧
      F.head rest = .stop ∧ all = found ++ records ∧ stop = offset + (F.frames bodies).length := by
  induction fuel generalizing offset data found with
  | zero =>
    obtain rfl := List.eq_nil_of_length_eq_zero (Nat.le_zero.mp hfuel)
    cases h
    exact ⟨[], [], [], .nil, rfl, head_nil, by simp, rfl⟩
  | succ fuel ih =>
    rw [Framing.scanFrames] at h
    split at h
    · rename_i hstop
      cases h
      exact ⟨[], [], data, .nil, rfl, hstop, by simp, rfl⟩
    · cases h
    · rename_i record size rest hframe
      obtain ⟨body, hreads, hdata, hsize⟩ := eq_of_head_eq_frame hframe
      have hlen := congrArg List.length hdata
      rw [List.length_append, length_frame] at hlen
      obtain ⟨bodies, records, tail, hall, hrest, htail, hfound, hend⟩ := ih (by omega) h
      refine ⟨body :: bodies, record :: records, tail, .cons hreads hall, ?_, htail, ?_, ?_⟩
      · rw [hdata, hrest, frames_cons, List.append_assoc]
      · rw [hfound, List.append_assoc, List.singleton_append]
      · rw [hend, hsize, frames_cons, List.length_append, Nat.add_assoc]

/-- A piece of a log is the frames that lie wholly in it, and an end the scan stops at. -/
theorem take_frames (hfits : ∀ body ∈ bodies, body.length < 2 ^ 32) (count : ℕ) :
    ∃ whole rest, (F.frames bodies).take count = F.frames (bodies.take whole) ++ rest ∧ F.head rest = .stop ∧
      whole ≤ bodies.length ∧ ∀ i < bodies.length, i < whole ↔ (F.frames (bodies.take (i + 1))).length ≤ count := by
  induction bodies generalizing count with
  | nil => exact ⟨0, [], by simp, head_nil, Nat.le_refl _, by simp⟩
  | cons body bodies ih =>
    by_cases hcount : count < (F.frame body).length
    · -- the cut falls into the first frame
      refine ⟨0, (F.frame body).take count, ?_, head_take_frame (hfits body List.mem_cons_self) hcount,
        Nat.zero_le _, fun i _ => ?_⟩
      · rw [frames_cons, List.take_append_of_le_length (Nat.le_of_lt hcount)]
        rfl
      · simp only [List.take_succ_cons, frames_cons, List.length_append]
        omega
    · obtain ⟨whole, rest, htake, hrest, hwhole, hmem⟩ :=
        ih (fun other hother => hfits other (List.mem_cons_of_mem _ hother)) (count - (F.frame body).length)
      refine ⟨whole + 1, rest, ?_, hrest, by simpa using hwhole, fun i hi => ?_⟩
      · rw [frames_cons, List.take_append, List.take_of_length_le (by omega), htake, List.take_succ_cons,
          frames_cons, List.append_assoc]
      · simp only [List.take_succ_cons, frames_cons, List.length_append]
        cases i with
        | zero =>
          simp only [List.take_zero, frames_nil, List.length_nil]
          omega
        | succ i =>
          have := hmem i (by simpa using hi)
          omega

end Frames

end FramedLog
