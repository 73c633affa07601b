import LodeDB.Core.Json
import LodeDB.Text.Chunk
import Mathlib.Algebra.Ring.Nat
import Mathlib.Data.Finset.Card

/-!
# Row ids and chunk ids

Repair steps a candidate row id past zero and past the ids already given out. As long as a batch is
shorter than the id space there is an id to step to, so a batch never gets one id twice. A chunk id
ends in two fields without a colon, so it determines the document it was made for.
-/

namespace LodeDB.Text

variable {used : List UInt64}

/-- The probing loop, started at a candidate, ends at an id. -/
inductive ProbesTo (used : List UInt64) : UInt64 → UInt64 → Prop
  | done {id : UInt64} (hzero : id ≠ 0) (hfresh : id ∉ used) : ProbesTo used id id
  | next {candidate id : UInt64} (hbad : candidate = 0 ∨ candidate ∈ used) (hrest : ProbesTo used (candidate + 1) id) :
      ProbesTo used candidate id

/-- The loop over the candidates ends with ids in their order. -/
inductive Repairs : List UInt64 → List UInt64 → List UInt64 → Prop
  | nil (used : List UInt64) : Repairs used [] []
  | cons {used rest ids : List UInt64} {candidate id : UInt64} (hid : ProbesTo used candidate id)
      (hrest : Repairs (id :: used) rest ids) : Repairs used (candidate :: rest) (id :: ids)

theorem ProbesTo.good {candidate id : UInt64} (h : ProbesTo used candidate id) : id ≠ 0 ∧ id ∉ used := by
  induction h with
  | done hzero hfresh => exact ⟨hzero, hfresh⟩
  | next _ _ ih => exact ih

/-- Probing ends if a good id is within its reach. -/
theorem probesTo_of_exists (fuel : ℕ) (candidate : UInt64)
    (hgood : ∃ i < fuel, candidate + UInt64.ofNat i ≠ 0 ∧ candidate + UInt64.ofNat i ∉ used) :
    ProbesTo used candidate (repairCandidate used fuel candidate) := by
  induction fuel generalizing candidate with
  | zero =>
    obtain ⟨i, hi, -⟩ := hgood
    exact absurd hi (Nat.not_lt_zero i)
  | succ fuel ih =>
    rw [repairCandidate]
    split
    · rename_i hbad
      obtain ⟨i, hi, hzero, hfresh⟩ := hgood
      cases i with
      | zero =>
        have hself : candidate + UInt64.ofNat 0 = candidate := UInt64.add_zero candidate
        rw [hself] at hzero hfresh
        exact absurd hbad (not_or.mpr ⟨hzero, hfresh⟩)
      | succ i =>
        have hnext : candidate + UInt64.ofNat (i + 1) = candidate + 1 + UInt64.ofNat i := by
          rw [UInt64.ofNat_add, UInt64.add_assoc, UInt64.add_comm (UInt64.ofNat i)]
          rfl
        rw [hnext] at hzero hfresh
        exact .next hbad (ih (candidate + 1) ⟨i, by omega, hzero, hfresh⟩)
    · rename_i hgood
      obtain ⟨hzero, hfresh⟩ := not_or.mp hgood
      exact .done hzero hfresh

/-- One more candidate than there are bad ids: one of them is good. -/
theorem probesTo_repairCandidate (used : List UInt64) (candidate : UInt64) (hroom : used.length + 1 < 2 ^ 64) :
    ProbesTo used candidate (repairCandidate used (used.length + 2) candidate) := by
  apply probesTo_of_exists
  have hinj : Set.InjOn (fun i => candidate + UInt64.ofNat i) (Finset.range (used.length + 2)) := by
    intro i hi j hj heq
    rw [Finset.coe_range, Set.mem_Iio] at hi hj
    have hsame := congrArg UInt64.toNat (UInt64.add_right_inj candidate |>.mp heq)
    rw [UInt64.toNat_ofNat', UInt64.toNat_ofNat', Nat.mod_eq_of_lt (by omega), Nat.mod_eq_of_lt (by omega)] at hsame
    exact hsame
  have hcard : (insert 0 used.toFinset).card <
      ((Finset.range (used.length + 2)).image fun i => candidate + UInt64.ofNat i).card := by
    rw [Finset.card_image_of_injOn hinj, Finset.card_range]
    have hinsert := Finset.card_insert_le 0 used.toFinset
    have hused := used.toFinset_card_le
    omega
  obtain ⟨found, hfound, hnew⟩ := Finset.exists_mem_notMem_of_card_lt_card hcard
  obtain ⟨i, hi, rfl⟩ := Finset.mem_image.mp hfound
  rw [Finset.mem_insert, not_or, List.mem_toFinset] at hnew
  exact ⟨i, Finset.mem_range.mp hi, hnew⟩

theorem repairs_repairFrom (used candidates : List UInt64) (hroom : used.length + candidates.length < 2 ^ 64) :
    Repairs used candidates (repairFrom used candidates) := by
  induction candidates generalizing used with
  | nil => exact .nil used
  | cons candidate rest ih =>
    rw [List.length_cons] at hroom
    exact .cons (probesTo_repairCandidate used candidate (by omega)) (ih _ (by rw [List.length_cons]; omega))

/-- Repaired ids are not zero, and distinct from each other and from the used ones. -/
theorem Repairs.nodup {candidates ids : List UInt64} (h : Repairs used candidates ids) :
    ids.Nodup ∧ ∀ id ∈ ids, id ≠ 0 ∧ id ∉ used := by
  induction h with
  | nil used => exact ⟨List.nodup_nil, fun id hid => absurd hid List.not_mem_nil⟩
  | cons hid hrest ih =>
    obtain ⟨hnodup, hgood⟩ := ih
    refine ⟨List.nodup_cons.mpr ⟨fun hmem => (hgood _ hmem).2 List.mem_cons_self, hnodup⟩, ?_⟩
    intro other hother
    rcases List.mem_cons.mp hother with rfl | hother
    · exact hid.good
    · exact ⟨(hgood other hother).1, fun hused => (hgood other hother).2 (List.mem_cons_of_mem _ hused)⟩

/-- Later candidates do not change the ids of the earlier ones. -/
theorem repairFrom_append (used candidates more : List UInt64) :
    ∃ later, repairFrom used (candidates ++ more) = repairFrom used candidates ++ later := by
  induction candidates generalizing used with
  | nil => exact ⟨_, rfl⟩
  | cons candidate rest ih =>
    obtain ⟨later, hlater⟩ := ih (repairCandidate used (used.length + 2) candidate :: used)
    exact ⟨later, congrArg (_ :: ·) hlater⟩

/-- **Repair of fewer than `2^64 - 1` candidates ends, with distinct nonzero ids in their order. It leaves
candidates that are distinct and not zero as they are, and further ones do not change what is assigned.** -/
theorem repairStableUint64Candidates_ends {candidates : List UInt64} (hroom : candidates.length < 2 ^ 64 - 1) :
    Repairs [] candidates (repairStableUint64Candidates candidates) ∧
      (repairStableUint64Candidates candidates).Nodup ∧ 0 ∉ repairStableUint64Candidates candidates ∧
      (candidates.Nodup → 0 ∉ candidates → repairStableUint64Candidates candidates = candidates) ∧
      ∀ more, ∃ later, repairStableUint64Candidates (candidates ++ more) =
        repairStableUint64Candidates candidates ++ later := by
  have hends := repairs_repairFrom [] candidates (by rw [List.length_nil]; omega)
  obtain ⟨hnodup, hgood⟩ := hends.nodup
  refine ⟨hends, hnodup, fun hzero => (hgood 0 hzero).1 rfl, ?_, repairFrom_append [] candidates⟩
  intro hdistinct hzero
  exact repairFrom_fresh [] candidates (fun c hc heq => hzero (heq ▸ hc)) hdistinct (by simp)

/-- Candidates that collide with each other and run past the last id. -/
theorem repairStableUint64Candidates_ends_wrapped :
    Repairs [] [0, 1, 1, 18446744073709551615, 18446744073709551615] [1, 2, 3, 18446744073709551615, 4] := by
  have heval : repairStableUint64Candidates [0, 1, 1, 18446744073709551615, 18446744073709551615] =
      [1, 2, 3, 18446744073709551615, 4] := by decide
  exact heval ▸ (repairStableUint64Candidates_ends (by decide)).1

/-- The row ids of one batch are distinct. -/
theorem stableUint64IdsForChunkIds_nodup (P : Primitives) {chunkIds : List String}
    (hroom : chunkIds.length < 2 ^ 64) : (stableUint64IdsForChunkIds P chunkIds).Nodup :=
  (repairs_repairFrom [] _ (by simpa using hroom)).nodup.1

theorem length_repairFrom (used candidates : List UInt64) :
    (repairFrom used candidates).length = candidates.length := by
  induction candidates generalizing used with
  | nil => rfl
  | cons candidate rest ih => simp [repairFrom, ih]

/-- What follows the last occurrence of a separator, and what is before it. -/
theorem append_cons_inj {α : Type*} {separator : α} {before other after rest : List α} (hafter : separator ∉ after)
    (hrest : separator ∉ rest) (h : before ++ separator :: after = other ++ separator :: rest) :
    before = other ∧ after = rest := by
  rcases List.append_eq_append_iff.mp h with ⟨gap, rfl, hgap⟩ | ⟨gap, rfl, hgap⟩
  · cases gap with
    | nil => exact ⟨(List.append_nil before).symm, (List.cons.inj hgap).2⟩
    | cons _ gap => exact absurd ((List.cons.inj hgap).2 ▸ by simp) hafter
  · cases gap with
    | nil => exact ⟨List.append_nil other, (List.cons.inj hgap).2.symm⟩
    | cons _ gap => exact absurd ((List.cons.inj hgap).2 ▸ by simp) hrest

theorem colon_notMem_sha256Hex (P : Primitives) (bytes : List UInt8) : ':' ∉ (sha256Hex P bytes).toList := by
  have hdigit : ∀ digit < 16, Nat.digitChar digit ≠ ':' := by decide
  rw [sha256Hex, String.toList_ofList, List.mem_flatMap]
  rintro ⟨byte, -, hbyte⟩
  have hrange := byte.toNat_lt
  simp only [hexByte, List.mem_cons, List.not_mem_nil, or_false] at hbyte
  rcases hbyte with hbyte | hbyte
  · exact hdigit _ (by omega) hbyte.symm
  · exact hdigit _ (by omega) hbyte.symm

theorem padded4_toList (number : ℕ) : (padded4 number).toList =
    List.replicate (4 - (toString number).length) '0' ++ Nat.toDigits 10 number := by
  rw [padded4, String.toList_append, String.toList_ofList, toString_toList]

theorem colon_notMem_padded4 (number : ℕ) : ':' ∉ (padded4 number).toList := by
  rw [padded4_toList, List.mem_append]
  rintro (hzero | hdigit)
  · cases List.eq_of_mem_replicate hzero
  · cases Nat.isDigit_of_mem_toDigits (by decide) (by decide) hdigit

theorem padded4_injective : Function.Injective padded4 := by
  intro left right h
  have hvalue (number : ℕ) : Nat.ofDigitChars 10 (padded4 number).toList 0 = number := by
    rw [padded4_toList, Nat.ofDigitChars_append, Nat.ofDigitChars_replicate_zero, Nat.mul_zero,
      Nat.ofDigitChars_ten_toDigits]
  rw [← hvalue left, h, hvalue]

/-- A chunk id made for a document. -/
def ChunkOf (P : Primitives) (documentId chunkId : String) : Prop :=
  ∃ piece occurrence, chunkId = chunkIdForHash documentId (normalizedChunkHash P piece) occurrence

/-- A chunk id tells its document, the first digits of its hash and its occurrence. -/
theorem chunkIdForHash_inj {P : Primitives} {documentId otherId piece other : String} {occurrence later : ℕ}
    (h : chunkIdForHash documentId (normalizedChunkHash P piece) occurrence =
      chunkIdForHash otherId (normalizedChunkHash P other) later) :
    documentId = otherId ∧ (normalizedChunkHash P piece).toList.take 12 = (normalizedChunkHash P other).toList.take 12 ∧
      occurrence = later := by
  have hhash (text : String) : ':' ∉ (normalizedChunkHash P text).toList.take 12 :=
    fun hmem => colon_notMem_sha256Hex P _ (List.mem_of_mem_take hmem)
  have hchars (documentId hash : String) (occurrence : ℕ) : (chunkIdForHash documentId hash occurrence).toList =
      (documentId.toList ++ ':' :: hash.toList.take 12) ++ ':' :: (padded4 occurrence).toList := by
    simp [chunkIdForHash, String.toList_append]
  have hids := congrArg String.toList h
  rw [hchars, hchars] at hids
  obtain ⟨hfront, hnum⟩ := append_cons_inj (colon_notMem_padded4 _) (colon_notMem_padded4 _) hids
  obtain ⟨hdoc, hdigits⟩ := append_cons_inj (hhash piece) (hhash other) hfront
  exact ⟨String.toList_inj.mp hdoc, hdigits, padded4_injective (String.toList_inj.mp hnum)⟩

end LodeDB.Text
