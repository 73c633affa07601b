import LodeDB.Text.Hash

/-!
# Reading UTF-8 back

The bytes of a text are read back as the text, and a byte below 128 in them is a character of its own.
-/

namespace LodeDB.Text

/-- The text some bytes are, if they are valid UTF-8. -/
def fromUtf8 (bytes : List UInt8) : Option String := String.fromUTF8? ⟨bytes.toArray⟩

theorem fromUtf8_utf8 (text : String) : fromUtf8 (utf8 text) = some text := by
  have hvalid := text.isValidUTF8
  simp [fromUtf8, utf8, String.fromUTF8?, String.fromUTF8, hvalid]

theorem utf8_eq_flatMap (text : String) : utf8 text = text.toList.flatMap String.utf8EncodeChar := by
  rw [utf8, ← String.utf8Encode_toList, List.utf8Encode]
  simp

/-- A character whose bytes hold one below 128 is that byte. -/
theorem toNat_eq_of_mem_utf8EncodeChar {byte : UInt8} {c : Char} (hbyte : byte.toNat < 128)
    (hmem : byte ∈ String.utf8EncodeChar c) : c.toNat = byte.toNat := by
  change c.val.toNat = byte.toNat
  unfold String.utf8EncodeChar at hmem
  dsimp only at hmem
  -- the bytes of a longer encoding are at least 128
  split at hmem
  · obtain rfl := List.mem_singleton.mp hmem
    rw [UInt8.toNat_ofNat']
    omega
  split at hmem
  · simp only [List.mem_cons, ← UInt8.toNat_inj, UInt8.toNat_ofNat', List.not_mem_nil, or_false] at hmem
    omega
  split at hmem
  all_goals
    simp only [List.mem_cons, ← UInt8.toNat_inj, UInt8.toNat_ofNat', List.not_mem_nil, or_false] at hmem
    omega

theorem newline_mem_utf8 {text : String} : (10 : UInt8) ∈ utf8 text ↔ '\n' ∈ text.toList := by
  rw [utf8_eq_flatMap, List.mem_flatMap]
  constructor
  · rintro ⟨c, hc, hmem⟩
    have hnat : c.toNat = '\n'.toNat := toNat_eq_of_mem_utf8EncodeChar (by decide) hmem
    rwa [Char.toNat_inj.mp hnat] at hc
  · intro hmem
    exact ⟨'\n', hmem, by decide⟩

end LodeDB.Text
