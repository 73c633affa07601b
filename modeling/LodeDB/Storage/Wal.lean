import LodeDB.Core.Json
import LodeDB.Lib.Except
import LodeDB.Lib.FramedLog
import LodeDB.Text.Utf8

/-!
# The bytes of the write-ahead log

A log is a fixed header and one frame per record. The body of a frame is the operation, a newline and the payload as
JSON, with the sequence number of a stamped record under a key of the payload. The file reader drops a torn last
frame; a segment is a complete log of at least one record, and its reader refuses anything else.
-/

namespace LodeDB.Storage.Wal

open FramedLog ExceptRules
open LodeDB.Text (utf8 fromUtf8)

variable {key : String} {entries : List (String × Value)}

/-- The external codecs: JSON printer and parser, checksum, UTF-8 error text. -/
structure Codec where
  toVec : Value → Except String Bytes
  fromSlice : Bytes → Except String Value
  crc32 : Bytes → UInt32
  utf8Error : Bytes → String

/-- One log record. -/
structure WalRecord where
  op : String
  payload : Value
  lsn : Option UInt64
  deriving DecidableEq

/-- What a scan returns: the records, the length they take and the length of the log. -/
structure WalScan where
  records : List WalRecord
  validLen : ℕ
  totalLen : ℕ
  deriving DecidableEq

/-- `EELWAL01`. -/
def walMagic : Bytes := [69, 69, 76, 87, 65, 76, 48, 49]

def walSchemaVersion : ℕ := 1

def walHeaderLen : ℕ := 12

/-- The header of a log. -/
def walHeader : Bytes := walMagic ++ word walSchemaVersion

/-- Put an entry into an object at its place in the key order, or over its key. -/
def insertEntry (key : String) (value : Value) (entries : List (String × Value)) : List (String × Value) :=
  entries.takeWhile (fun entry => entry.1 < key) ++
    (key, value) :: (entries.dropWhile (fun entry => entry.1 < key)).filter fun entry => entry.1 ≠ key

/-- Take the entries under a key out of an object. -/
def removeEntry (key : String) (entries : List (String × Value)) : List (String × Value) :=
  entries.filter fun entry => entry.1 ≠ key

/-- The entries of a payload with the sequence number of its record. -/
def stampEntries (lsn : Option UInt64) (entries : List (String × Value)) : List (String × Value) :=
  match lsn with
  | some lsn => insertEntry "lsn" (natural lsn.toNat) entries
  | none => entries

/-- The sequence number a value holds. A larger number is not one. -/
def asLsn (value : Value) : Option UInt64 :=
  value.asU64.bind fun number => if number < 2 ^ 64 then some (UInt64.ofNat number) else none

variable (codec : Codec)

/-- The body of a record. -/
def encodeBody (op : String) (payload : Value) (lsn : Option UInt64) : Except CoreError Bytes := do
  ensure (¬(op.isEmpty ∨ '\n' ∈ op.toList)) (corrupt "WAL record op must be non-empty and newline-free")
  match payload with
  | .object entries =>
    -- a key of the payload's own would be read back as the stamp
    ensure (lsn.isSome ∨ (entries.lookup "lsn").isNone) (corrupt ("unstamped WAL record payload must not carry a " ++
      "root-level `lsn` key; decode would misread it as the record's stamp"))
    match codec.toVec (.object (stampEntries lsn entries)) with
    | .ok text => return utf8 op ++ 10 :: text
    | .error error => throw (corrupt s!"WAL payload could not be encoded: {error}")
  | _ => throw (corrupt "WAL record payload must be a JSON object")

/-- The record a body holds. -/
def decodeBody (body : Bytes) : Except CoreError WalRecord :=
  match body.findIdx? (· == 10) with
  | none => throw (corrupt "WAL record body is missing its op header")
  | some newline =>
    match fromUtf8 (body.take newline) with
    | none => throw (corrupt s!"WAL record op is not UTF-8: {codec.utf8Error (body.take newline)}")
    | some op =>
      match codec.fromSlice (body.drop (newline + 1)) with
      | .error error => throw (corrupt s!"WAL record payload is not valid JSON: {error}")
      | .ok (.object entries) => return ⟨op, .object (removeEntry "lsn" entries), (entries.lookup "lsn").bind asLsn⟩
      | .ok _ => throw (corrupt "WAL record payload must be a JSON object")

/-- How the log frames its bodies. -/
def framing : Framing WalRecord CoreError where
  decodeBody := decodeBody codec
  checksum := codec.crc32
  interior := corrupt "WAL record failed CRC32 (interior corruption)"

/-- The frame of a record. -/
def encodeFrame (op : String) (payload : Value) (lsn : Option UInt64) : Except CoreError Bytes :=
  (encodeBody codec op payload lsn).map (framing codec).frame

/-- Scan a log, tolerant of a torn last frame. -/
def scanRecords (data : Bytes) : Except CoreError WalScan := do
  ensure (walHeaderLen ≤ data.length) (corrupt "WAL data is shorter than the file header")
  ensure (data.take walMagic.length = walMagic) (corrupt "not a LodeDB WAL file (bad magic)")
  let version := value ((data.drop 8).take 4)
  ensure (version = walSchemaVersion) (corrupt s!"unsupported WAL schema version: {version}")
  let (records, offset) ←
    (framing codec).scanFrames data.length walHeaderLen (data.drop walHeaderLen) []
  return ⟨records, offset, data.length⟩

/-- The log of some records, as one segment. -/
def encodeWalSegment (records : List WalRecord) : Except CoreError Bytes := do
  ensure (records ≠ []) (corrupt "a WAL segment requires at least one record")
  let frames ← records.mapM fun record => encodeFrame codec record.op record.payload record.lsn
  return walHeader ++ frames.flatten

/-- The records of a segment. -/
def decodeWalSegment (data : Bytes) : Except CoreError (List WalRecord) := do
  ensure (walHeaderLen ≤ data.length) (corrupt "WAL segment is shorter than the file header")
  let scan ← scanRecords codec data
  ensure (scan.validLen = scan.totalLen) (corrupt "WAL segment has a torn or corrupt trailing frame")
  ensure (scan.records ≠ []) (corrupt "WAL segment holds no records")
  return scan.records

/-! ## Bodies -/

variable {codec}

section

variable (h : entries.lookup key = none)

include h

theorem ne_of_lookup_eq_none {entry : String × Value} (hentry : entry ∈ entries) : entry.1 ≠ key := by
  rintro rfl
  simpa using List.lookup_eq_none_iff.mp h entry hentry

theorem removeEntry_of_lookup_eq_none : removeEntry key entries = entries :=
  List.filter_eq_self.mpr fun _ hentry => decide_eq_true (ne_of_lookup_eq_none h hentry)

theorem removeEntry_insertEntry (value : Value) : removeEntry key (insertEntry key value entries) = entries := by
  have hne : ∀ entry ∈ entries, decide (entry.1 ≠ key) = true := fun _ hentry =>
    decide_eq_true (ne_of_lookup_eq_none h hentry)
  rw [removeEntry, insertEntry, List.filter_append, List.filter_cons_of_neg (by simp),
    List.filter_eq_self.mpr fun entry hentry => hne entry ((List.dropWhile_suffix _).subset hentry), ← List.filter_append,
    List.takeWhile_append_dropWhile, List.filter_eq_self.mpr hne]

theorem lookup_insertEntry (value : Value) : (insertEntry key value entries).lookup key = some value := by
  have hbefore : (entries.takeWhile fun entry => entry.1 < key).lookup key = none := by
    rw [List.lookup_eq_none_iff] at h ⊢
    exact fun entry hentry => h entry ((List.takeWhile_prefix _).subset hentry)
  rw [insertEntry, List.lookup_append, hbefore, List.lookup_cons, beq_self_eq_true, Option.none_or]

end

theorem asLsn_natural (lsn : UInt64) : asLsn (natural lsn.toNat) = some lsn := by
  rw [asLsn, asU64_natural, Option.bind_some, if_pos lsn.toNat_lt, UInt64.ofNat_toNat]

/-- A stamp is taken out of a payload as it was put in. -/
theorem unstamp_stampEntries (h : entries.lookup "lsn" = none) (lsn : Option UInt64) :
    removeEntry "lsn" (stampEntries lsn entries) = entries ∧
      ((stampEntries lsn entries).lookup "lsn").bind asLsn = lsn := by
  cases lsn with
  | none => exact ⟨removeEntry_of_lookup_eq_none h, by rw [stampEntries, h, Option.bind_none]⟩
  | some lsn =>
    refine ⟨removeEntry_insertEntry h _, ?_⟩
    rw [stampEntries, lookup_insertEntry h, Option.bind_some, asLsn_natural]

/-- The payload a record's body renders. -/
def WalRecord.stamped (record : WalRecord) : Value :=
  match record.payload with
  | .object entries => .object (stampEntries record.lsn entries)
  | payload => payload

/-- A rendered value is parsed as itself. -/
def Codec.RoundTrips (codec : Codec) (value : Value) : Prop :=
  ∀ text, codec.toVec value = .ok text → codec.fromSlice text = .ok value

/-- The body of a record is read as the record. -/
theorem decodeBody_encodeBody {record : WalRecord} {body : Bytes} (hjson : codec.RoundTrips record.stamped)
    (hlsn : record.payload.get "lsn" = none)
    (h : encodeBody codec record.op record.payload record.lsn = .ok body) : decodeBody codec body = .ok record := by
  obtain ⟨op, payload, lsn⟩ := record
  simp only [encodeBody, bind_eq_ok, ensure_eq_ok] at h
  obtain ⟨-, hop, h⟩ := h
  cases payload with
  | object entries =>
    simp only [bind_eq_ok, ensure_eq_ok] at h
    obtain ⟨-, -, h⟩ := h
    split at h
    · rename_i text htext
      cases h
      have hnewline : (10 : UInt8) ∉ utf8 op := fun hmem => hop (.inr (Text.newline_mem_utf8.mp hmem))
      have hindex : (utf8 op ++ 10 :: text).findIdx? (· == 10) = some (utf8 op).length := by
        rw [List.findIdx?_append, List.findIdx?_eq_none_iff.mpr, List.findIdx?_cons]
        · simp
        · rintro byte hbyte
          simpa using fun heq : byte = 10 => hnewline (heq ▸ hbyte)
      have hnone : entries.lookup "lsn" = none := hlsn
      obtain ⟨hents, hstamp⟩ := unstamp_stampEntries hnone lsn
      have hparse : codec.fromSlice text = .ok (.object (stampEntries lsn entries)) := hjson text htext
      have hdrop : (utf8 op ++ 10 :: text).drop ((utf8 op).length + 1) = text := by
        rw [← List.drop_drop, List.drop_left, List.drop_one, List.tail_cons]
      simp only [decodeBody, hindex, List.take_left, Text.fromUtf8_utf8, hdrop, hparse, hents, hstamp]
      rfl
    · cases h
  | _ => cases h

/-! ## Headers -/

@[simp] theorem length_walHeader : walHeader.length = walHeaderLen := rfl

/-- The scan of a log behind its header. -/
theorem scanRecords_header (rest : Bytes) :
    scanRecords codec (walHeader ++ rest) =
      ((framing codec).scanFrames (walHeader ++ rest).length walHeaderLen rest []).map fun scan =>
        ⟨scan.1, scan.2, (walHeader ++ rest).length⟩ := by
  have hmagic : (walHeader ++ rest).take walMagic.length = walMagic := by
    rw [walHeader, List.append_assoc, List.take_left]
  have hver : value (((walHeader ++ rest).drop 8).take 4) = walSchemaVersion := rfl
  have hrest : (walHeader ++ rest).drop walHeaderLen = rest := List.drop_left' length_walHeader
  have hlen : walHeaderLen ≤ (walHeader ++ rest).length := by simp
  simp only [scanRecords, hver, hrest, ensure_of hlen, ensure_of hmagic, ok_bind]
  cases (framing codec).scanFrames (walHeader ++ rest).length walHeaderLen rest [] <;> rfl

/-- A scanned log starts with its header. -/
theorem eq_of_scanRecords_eq_ok {data : Bytes} {scan : WalScan} (h : scanRecords codec data = .ok scan) :
    ∃ rest, data = walHeader ++ rest := by
  simp only [scanRecords, bind_eq_ok, ensure_eq_ok] at h
  obtain ⟨-, hlen, -, hmagic, -, hver, -⟩ := h
  have hword : (data.drop 8).take 4 = word walSchemaVersion := by
    rw [← hver, (word_value _).1]
    rw [List.length_take, List.length_drop]
    change 12 ≤ data.length at hlen
    omega
  refine ⟨data.drop 12, ?_⟩
  calc data = data.take 8 ++ ((data.drop 8).take 4 ++ (data.drop 8).drop 4) := by
        rw [List.take_append_drop, List.take_append_drop]
    _ = walMagic ++ (word walSchemaVersion ++ data.drop 12) := by rw [hword, List.drop_drop]; rw [← hmagic]; rfl
    _ = walHeader ++ data.drop 12 := by rw [walHeader, List.append_assoc]

/-! ## Segments -/

variable {records : List WalRecord} {bodies : List Bytes} {data : Bytes}

/-- An encoded segment is the header and the frames of its bodies. -/
theorem eq_of_encodeWalSegment_eq_ok (h : encodeWalSegment codec records = .ok data) :
    records ≠ [] ∧ ∃ bodies,
      List.Forall₂ (fun record body => encodeBody codec record.op record.payload record.lsn = .ok body) records bodies ∧
      records.mapM (fun record => encodeFrame codec record.op record.payload record.lsn) =
        .ok (bodies.map (framing codec).frame) ∧ data = walHeader ++ (framing codec).frames bodies := by
  simp only [encodeWalSegment, bind_eq_ok, ensure_eq_ok] at h
  obtain ⟨-, hne, frames, hframes, hdata⟩ := h
  cases hdata
  have hbodies : ∃ bodies, List.Forall₂ (fun record body =>
      encodeBody codec record.op record.payload record.lsn = .ok body) records bodies ∧
      frames = bodies.map (framing codec).frame := by
    have hall := mapM_eq_ok.mp hframes
    clear hne hframes
    induction hall with
    | nil => exact ⟨[], .nil, rfl⟩
    | cons hfirst _ ih =>
      obtain ⟨bodies, hall, rfl⟩ := ih
      obtain ⟨body, hbody, rfl⟩ := map_eq_ok.mp hfirst
      exact ⟨body :: bodies, .cons hbody hall, rfl⟩
  obtain ⟨bodies, hall, rfl⟩ := hbodies
  exact ⟨hne, bodies, hall, hframes, rfl⟩

/-- The bodies of records that keep clear of the stamp's key are read as the records. -/
theorem reads_of_encodeBody (hlsn : ∀ record ∈ records, record.payload.get "lsn" = none)
    (hjson : ∀ record ∈ records, codec.RoundTrips record.stamped)
    (hfits : ∀ record ∈ records, ∀ body, encodeBody codec record.op record.payload record.lsn = .ok body →
      body.length < 2 ^ 32)
    (hbodies : List.Forall₂ (fun record body => encodeBody codec record.op record.payload record.lsn = .ok body)
      records bodies) : List.Forall₂ (framing codec).Reads bodies records := by
  induction hbodies with
  | nil => exact .nil
  | cons hbody _ ih =>
    rw [List.forall_mem_cons] at hlsn hjson hfits
    exact .cons ⟨hfits.1 _ hbody, decodeBody_encodeBody hjson.1 hlsn.1 hbody⟩ (ih hlsn.2 hjson.2 hfits.2)

/-- The scan of whole frames in front of an end it stops at. -/
theorem scanRecords_frames (hreads : List.Forall₂ (framing codec).Reads bodies records) {rest : Bytes}
    (hrest : (framing codec).head rest = .stop) :
    scanRecords codec (walHeader ++ ((framing codec).frames bodies ++ rest)) =
      .ok ⟨records, walHeaderLen + ((framing codec).frames bodies).length,
        (walHeader ++ ((framing codec).frames bodies ++ rest)).length⟩ := by
  have hfuel := length_le_length_frames (F := framing codec) bodies
  rw [scanRecords_header, scanFrames_frames hreads hrest (by simp only [List.length_append]; omega), List.nil_append]
  rfl

theorem decodeWalSegment_frames (hreads : List.Forall₂ (framing codec).Reads bodies records) (hne : records ≠ []) :
    decodeWalSegment codec (walHeader ++ (framing codec).frames bodies) = .ok records := by
  have hscan := scanRecords_frames hreads head_nil
  rw [List.append_nil] at hscan
  have hlen : walHeaderLen ≤ (walHeader ++ (framing codec).frames bodies).length := by simp
  have hvalid : walHeaderLen + ((framing codec).frames bodies).length =
      (walHeader ++ (framing codec).frames bodies).length := by simp
  simp only [decodeWalSegment, hscan, ensure_of hlen, ensure_of hvalid, ensure_of hne, ok_bind]
  rfl

/-- A decoded segment is the header and frames, each of which holds its record. -/
theorem eq_of_decodeWalSegment_eq_ok (h : decodeWalSegment codec data = .ok records) :
    ∃ bodies, bodies ≠ [] ∧ List.Forall₂ (framing codec).Reads bodies records ∧
      data = walHeader ++ (framing codec).frames bodies := by
  simp only [decodeWalSegment, bind_eq_ok, ensure_eq_ok] at h
  obtain ⟨-, -, scan, hscan, -, hvalid, -, hne, hrecs⟩ := h
  cases hrecs
  obtain ⟨rest, rfl⟩ := eq_of_scanRecords_eq_ok hscan
  rw [scanRecords_header] at hscan
  obtain ⟨⟨found, stop⟩, hframes, rfl⟩ := map_eq_ok.mp hscan
  obtain ⟨bodies, records, tail, hreads, rfl, -, hfound, rfl⟩ := eq_of_scanFrames_eq_ok (by simp) hframes
  obtain rfl : found = records := hfound
  have htail : tail = [] := by
    refine List.eq_nil_of_length_eq_zero ?_
    simp only [List.length_append, length_walHeader] at hvalid
    omega
  subst htail
  refine ⟨bodies, ?_, hreads, by rw [List.append_nil]⟩
  rintro rfl
  cases hreads
  exact hne rfl

/-- Encoded segments decode to their records; a piece of one scans to the records whose frames lie wholly in
it; and the bytes that decode are exactly the header followed by whole frames with decodable bodies. -/
theorem walSegment_codec (codec : Codec) :
    (∀ (records : List WalRecord) (data : Bytes), encodeWalSegment codec records = .ok data →
      (∀ record ∈ records, record.payload.get "lsn" = none) → (∀ record ∈ records, codec.RoundTrips record.stamped) →
      (∀ record ∈ records, ∀ body, encodeBody codec record.op record.payload record.lsn = .ok body →
        body.length < 2 ^ 32) → decodeWalSegment codec data = .ok records ∧
      ∃ frames, records.mapM (fun record => encodeFrame codec record.op record.payload record.lsn) = .ok frames ∧
        data = walHeader ++ frames.flatten ∧ ∀ count, walHeaderLen ≤ count → ∃ whole ≤ records.length,
          (∀ i < records.length, i < whole ↔ walHeaderLen + (frames.take (i + 1)).flatten.length ≤ count) ∧
          scanRecords codec (data.take count) = .ok ⟨records.take whole,
            walHeaderLen + (frames.take whole).flatten.length, (data.take count).length⟩) ∧
    ∀ data : Bytes, (∃ records, decodeWalSegment codec data = .ok records) ↔
      ∃ bodies : List Bytes, bodies ≠ [] ∧ data = walHeader ++ bodies.flatMap (framing codec).frame ∧
        ∀ body ∈ bodies, body.length < 2 ^ 32 ∧ ∃ record, decodeBody codec body = .ok record := by
  refine ⟨fun records data hencode hlsn hjson hfits => ?_, fun data => ⟨?_, ?_⟩⟩
  · obtain ⟨hne, bodies, hbodies, hframes, rfl⟩ := eq_of_encodeWalSegment_eq_ok hencode
    have hreads := reads_of_encodeBody hlsn hjson hfits hbodies
    refine ⟨decodeWalSegment_frames hreads hne, _, hframes, rfl, fun count hcount => ?_⟩
    have hlength := hbodies.length_eq
    have hshort : ∀ body ∈ bodies, body.length < 2 ^ 32 := fun body hbody =>
      (exists_forall₂.mp ⟨_, hreads⟩ body hbody).elim fun _ hread => hread.fits
    obtain ⟨whole, rest, htake, hrest, hwhole, hmem⟩ := take_frames (F := framing codec) hshort (count - walHeaderLen)
    have hdata : (walHeader ++ (framing codec).frames bodies).take count =
        walHeader ++ ((framing codec).frames (bodies.take whole) ++ rest) := by
      rw [List.take_append, List.take_of_length_le (by simpa using hcount), length_walHeader, htake]
    refine ⟨whole, by omega, fun i hi => ?_, ?_⟩
    · rw [← List.map_take, hmem i (by omega)]
      change ((framing codec).frames (bodies.take (i + 1))).length ≤ count - walHeaderLen ↔
        walHeaderLen + ((framing codec).frames (bodies.take (i + 1))).length ≤ count
      omega
    · rw [hdata, scanRecords_frames (List.forall₂_take _ hreads) hrest, ← List.map_take]
      rfl
  · rintro ⟨records, h⟩
    obtain ⟨bodies, hne, hreads, hdata⟩ := eq_of_decodeWalSegment_eq_ok h
    refine ⟨bodies, hne, hdata, fun body hbody => ?_⟩
    obtain ⟨record, hread⟩ := exists_forall₂.mp ⟨_, hreads⟩ body hbody
    exact ⟨hread.fits, record, hread.decode⟩
  · rintro ⟨bodies, hne, rfl, hbodies⟩
    have heach : ∀ body ∈ bodies, ∃ record, (framing codec).Reads body record := fun body hbody =>
      (hbodies body hbody).2.imp fun record hdecode => ⟨(hbodies body hbody).1, hdecode⟩
    obtain ⟨records, hreads⟩ := exists_forall₂.mpr heach
    refine ⟨records, decodeWalSegment_frames hreads ?_⟩
    rintro rfl
    cases hreads
    exact hne rfl

/-- A log cut back to its valid length goes on: it scans to its records, then those appended since. -/
theorem scanRecords_resumed {scan : WalScan} (hscan : scanRecords codec data = .ok scan)
    (hreads : List.Forall₂ (framing codec).Reads bodies records) :
    ∃ total, scanRecords codec (data.take scan.validLen ++ (framing codec).frames bodies) =
      .ok ⟨scan.records ++ records, total, total⟩ := by
  obtain ⟨rest, rfl⟩ := eq_of_scanRecords_eq_ok hscan
  rw [scanRecords_header] at hscan
  obtain ⟨⟨found, stop⟩, hframes, rfl⟩ := map_eq_ok.mp hscan
  obtain ⟨kept, held, tail, hkept, rfl, -, hfound, rfl⟩ := eq_of_scanFrames_eq_ok (by simp) hframes
  obtain rfl : found = held := hfound
  have hlog := scanRecords_frames (List.rel_append hkept hreads) head_nil
  refine ⟨walHeaderLen + ((framing codec).frames (kept ++ bodies)).length, ?_⟩
  dsimp only
  rw [← List.append_assoc walHeader, List.take_left' (by simp)]
  simpa [Framing.frames] using hlog

/-- A codec for empty objects, with the length as checksum. -/
def emptyObjects : Codec := ⟨fun _ => .ok [123, 125], fun _ => .ok (.object []), fun data => UInt32.ofNat data.length,
  fun _ => ""⟩

theorem walSegment_codec_two :
    let records : List WalRecord := [⟨"add", .object [], none⟩, ⟨"drop", .object [], none⟩]
    ∃ data, encodeWalSegment emptyObjects records = .ok data ∧ decodeWalSegment emptyObjects data = .ok records := by
  intro records
  have hencode : encodeWalSegment emptyObjects records = .ok (walHeader ++
      [0, 0, 0, 6, 97, 100, 100, 10, 123, 125, 0, 0, 0, 10] ++
      [0, 0, 0, 7, 100, 114, 111, 112, 10, 123, 125, 0, 0, 0, 11]) := by decide +kernel
  refine ⟨_, hencode, ((walSegment_codec emptyObjects).1 records _ hencode ?_ ?_ ?_).1⟩
  · decide +kernel
  · rintro record hrecord text htext
    cases htext
    rcases List.mem_pair.mp hrecord with rfl | rfl <;> rfl
  · intro record hrecord body hbody
    have hbodies : encodeBody emptyObjects "add" (.object []) none = .ok [97, 100, 100, 10, 123, 125] ∧
        encodeBody emptyObjects "drop" (.object []) none = .ok [100, 114, 111, 112, 10, 123, 125] := by decide +kernel
    rcases List.mem_pair.mp hrecord with rfl | rfl
    · cases hbodies.1.symm.trans hbody
      decide
    · cases hbodies.2.symm.trans hbody
      decide

/-- A log of one record and a piece of another frame, cut and appended to. -/
theorem scanRecords_resumed_torn :
    let add : Bytes := [97, 100, 100, 10, 123, 125]
    let log := walHeader ++ (framing emptyObjects).frames [add] ++ [0, 0, 0, 6, 97, 100]
    ∃ total, scanRecords emptyObjects (log.take 26 ++ (framing emptyObjects).frames [add]) =
      .ok ⟨[⟨"add", .object [], none⟩, ⟨"add", .object [], none⟩], total, total⟩ :=
  @scanRecords_resumed _ _ _ _ ⟨[⟨"add", .object [], none⟩], 26, 32⟩ (by decide +kernel)
    (.cons ⟨by decide, by decide +kernel⟩ .nil)

end LodeDB.Storage.Wal
