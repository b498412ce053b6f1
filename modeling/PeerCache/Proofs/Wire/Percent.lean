import Mathlib
import PeerCache.Wire.Percent

/-!
# Percent coding and back

What is written in percent coding is read back as it was (`decode_encode`, and for texts
`decodeText?_encodeText`), and consists of unreserved characters and percent signs only, so that it
is one segment of a path.

The two digits of a byte are taken at all 256 bytes; the rest is an induction on the bytes.
-/

namespace PeerCache.Percent

variable {b : UInt8} {bs : List UInt8}

/-! ## Bytes -/

/-- The two digits of a byte are read back, and make up the byte. -/
theorem hexDigits : ∀ b : UInt8, hexValue? (hexDigit (b >>> 4)) = some (b >>> 4) ∧
    hexValue? (hexDigit (b &&& 15)) = some (b &&& 15) ∧ (b >>> 4) <<< 4 ||| (b &&& 15) = b :=
  Text.forall_byte (by decide +kernel)

theorem isUnreserved_hexDigit : ∀ b : UInt8,
    isUnreserved (hexDigit (b >>> 4)) = true ∧ isUnreserved (hexDigit (b &&& 15)) = true :=
  Text.forall_byte (by decide +kernel)

/-- Unreserved characters are ASCII, and neither percent signs nor slashes. -/
theorem of_isUnreserved : ∀ b : UInt8, isUnreserved b = true → b < 128 ∧ b ≠ 37 ∧ b ≠ 47 :=
  Text.forall_byte (by decide +kernel)

/-! ## Reading what is written -/

theorem decode_cons (h : b ≠ 37) (rest : List UInt8) : decode (b :: rest) = b :: decode rest := by
  rw [decode]
  exact fun _ _ _ hb => absurd hb h

theorem decode_percent {h l hi lo : UInt8} (hh : hexValue? h = some hi) (hl : hexValue? l = some lo)
    (rest : List UInt8) : decode (37 :: h :: l :: rest) = (hi <<< 4 ||| lo) :: decode rest := by
  rw [decode, hh, hl]

theorem decode_encode (bs : List UInt8) : decode (encode bs) = bs := by
  induction bs with
  | nil => rw [encode, decode]
  | cons b bs ih =>
    unfold encode
    split
    · next h => rw [decode_cons (of_isUnreserved _ h).2.1, ih]
    · obtain ⟨hhi, hlo, hbyte⟩ := hexDigits b
      rw [decode_percent hhi hlo, hbyte, ih]

/-! ## What is written -/

theorem mem_encode (h : b ∈ encode bs) : b = 37 ∨ isUnreserved b = true := by
  induction bs with
  | nil => cases h
  | cons a bs ih =>
    unfold encode at h
    split at h
    · next ha =>
      rcases List.mem_cons.mp h with rfl | h
      · exact .inr ha
      · exact ih h
    · simp only [List.mem_cons] at h
      rcases h with rfl | rfl | rfl | h
      · exact .inl rfl
      · exact .inr (isUnreserved_hexDigit a).1
      · exact .inr (isUnreserved_hexDigit a).2
      · exact ih h

theorem encode_lt (h : b ∈ encode bs) : b < 128 := by
  rcases mem_encode h with rfl | h
  · decide
  · exact (of_isUnreserved _ h).1

/-! ## Texts -/

theorem bytes_encodeText (s : String) : Text.bytes (encodeText s) = encode (Text.bytes s) :=
  Text.bytes_ofBytes fun _ => encode_lt

/-- **A text comes back as it was.** -/
theorem decodeText?_encodeText (s : String) : decodeText? (encodeText s) = some s := by
  rw [decodeText?, bytes_encodeText, decode_encode, Text.ofBytes?_bytes]

theorem encodeText_injective {s t : String} (h : encodeText s = encodeText t) : s = t := by
  have hs := decodeText?_encodeText s
  rw [h, decodeText?_encodeText] at hs
  exact (Option.some.inj hs).symm

/-- A character of a segment is a percent sign or unreserved. -/
theorem mem_encodeText {s : String} {c : Char} (h : c ∈ (encodeText s).toList) :
    ∃ b : UInt8, c = Char.ofNat b.toNat ∧ (b = 37 ∨ isUnreserved b = true) := by
  rw [encodeText, String.toList_ofList, List.mem_map] at h
  obtain ⟨b, hb, rfl⟩ := h
  exact ⟨b, rfl, mem_encode hb⟩

/-- A text is one segment. -/
theorem slash_notMem_encodeText (s : String) : '/' ∉ (encodeText s).toList := by
  intro h
  obtain ⟨b, hb, hplain⟩ := mem_encodeText h
  have hslash : b = 47 := by
    rw [← UInt8.toNat_inj, ← Text.toNat_charOfByte, ← hb]
    rfl
  subst hslash
  revert hplain
  decide

end PeerCache.Percent
