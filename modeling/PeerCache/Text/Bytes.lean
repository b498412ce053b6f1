/-!
# Texts as bytes

A text and the bytes of its UTF-8 form.

    ofBytes? (bytes s) = some s                                     (ofBytes?_bytes)
    ofBytes? bs = some s → bytes s = bs                             (bytes_of_ofBytes?)
-/

namespace PeerCache.Text

def bytes (s : String) : List UInt8 := s.toByteArray.data.toList

/-- The text with these bytes, unless they are no UTF-8. -/
def ofBytes? (bs : List UInt8) : Option String := String.fromUTF8? ⟨bs.toArray⟩

theorem ofBytes?_bytes (s : String) : ofBytes? (bytes s) = some s := by
  have h : (⟨(bytes s).toArray⟩ : ByteArray) = s.toByteArray := by simp [bytes]
  simp only [ofBytes?, h, String.fromUTF8?, s.isValidUTF8, ↓reduceDIte]
  rfl

theorem bytes_of_ofBytes? {bs : List UInt8} {s : String} (h : ofBytes? bs = some s) :
    bytes s = bs := by
  simp only [ofBytes?, String.fromUTF8?] at h
  split at h
  · cases h; simp [bytes, String.fromUTF8]
  · cases h

/-! ## Bytes as characters -/

/-- What holds of 256 bytes holds of all. -/
theorem forall_byte {p : UInt8 → Prop} (h : ∀ n < 256, p (UInt8.ofNat n)) (b : UInt8) : p b := by
  have hb := h b.toNat b.toNat_lt
  rwa [UInt8.ofNat_toNat] at hb

theorem bytes_ofList (cs : List Char) : bytes (String.ofList cs) = cs.flatMap String.utf8EncodeChar := by
  rw [bytes, String.toByteArray_ofList, List.utf8Encode, List.toList_data_toByteArray]

theorem toNat_charOfByte (b : UInt8) : (Char.ofNat b.toNat).toNat = b.toNat := by
  have hb := b.toNat_lt
  unfold Char.ofNat
  rw [dif_pos (.inl (by omega))]
  rfl

/-- An ASCII character is one byte. -/
theorem utf8EncodeChar_charOfByte {b : UInt8} (h : b < 128) :
    String.utf8EncodeChar (Char.ofNat b.toNat) = [b] := by
  have hval : (Char.ofNat b.toNat).val.toNat = b.toNat := toNat_charOfByte b
  have hb : b.toNat < 128 := UInt8.lt_iff_toNat_lt.mp h
  generalize Char.ofNat b.toNat = c at hval
  have hle : c.val ≤ 127 := UInt32.le_iff_toNat_le.mpr (by rw [hval]; exact Nat.le_of_lt_succ hb)
  rw [String.utf8EncodeChar_eq_singleton (Char.utf8Size_eq_one_iff.mpr hle), List.cons.injEq]
  refine ⟨UInt8.toNat_inj.mp ?_, rfl⟩
  rw [UInt32.toNat_toUInt8, hval]
  exact Nat.mod_eq_of_lt b.toNat_lt

/-- ASCII bytes are those of the text that they spell. -/
theorem bytes_ofBytes {bs : List UInt8} (h : ∀ b ∈ bs, b < 128) :
    bytes (String.ofList (bs.map fun b => Char.ofNat b.toNat)) = bs := by
  rw [bytes_ofList, List.flatMap_map]
  induction bs with
  | nil => rfl
  | cons b bs ih =>
    obtain ⟨hb, hbs⟩ := List.forall_mem_cons.mp h
    rw [List.flatMap_cons, utf8EncodeChar_charOfByte hb, ih hbs]
    rfl

end PeerCache.Text
