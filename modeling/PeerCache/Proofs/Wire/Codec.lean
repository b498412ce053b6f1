import Mathlib
import PeerCache.Proofs.Wire.Naming

/-!
# Paths and what they name

What percent coding says, apart from the functions that write and read it: `Spelling` is the bytes that
stand for a byte, and `Reads` relates the bytes of a segment to the bytes that it stands for, which a
percent sign without two digits behind it does for itself.  A path names a group and a key if it is
its beginning and two segments that stand for them (`Path.Names`).

    encode bs = bs.flatMap spelling                                             (encode_eq_flatMap)
    decode bs = out            ↔ Reads bs out                                        (decode_eq_iff)
    split? path start = some … ↔ Names path start group key                        (split?_eq_names)

Main statement: `Path.codec`.
-/

namespace PeerCache

theorem Text.bytes_append (s t : String) : Text.bytes (s ++ t) = Text.bytes s ++ Text.bytes t := by
  simp [Text.bytes]

namespace Percent

variable {b : UInt8} {n : Nat}

/-! ## Digits -/

/-- A small or a capital hexadecimal digit, and its value. -/
def IsDigit (b : UInt8) (n : Nat) : Prop :=
  (Text.bytes "0123456789abcdef")[n]? = some b ∨ (Text.bytes "0123456789ABCDEF")[n]? = some b

/-- The digits as bytes, spelled out once, since each of the 256 bytes is compared with them. -/
theorem bytes_small : Text.bytes "0123456789abcdef" =
    [48, 49, 50, 51, 52, 53, 54, 55, 56, 57, 97, 98, 99, 100, 101, 102] := by decide +kernel

theorem bytes_capital : Text.bytes "0123456789ABCDEF" =
    [48, 49, 50, 51, 52, 53, 54, 55, 56, 57, 65, 66, 67, 68, 69, 70] := by decide +kernel

theorem IsDigit.lt (h : IsDigit b n) : n < 16 := by
  rw [IsDigit, bytes_small, bytes_capital] at h
  rcases h with h | h
  · exact (List.getElem?_eq_some_iff.mp h).1
  · exact (List.getElem?_eq_some_iff.mp h).1

theorem IsDigit.hexValue?_eq (h : IsDigit b n) : hexValue? b = some (UInt8.ofNat n) := by
  have hall : ∀ n < 16, ((Text.bytes "0123456789abcdef")[n]?.bind hexValue? = some (UInt8.ofNat n)) ∧
      ((Text.bytes "0123456789ABCDEF")[n]?.bind hexValue? = some (UInt8.ofNat n)) := by
    rw [bytes_small, bytes_capital]
    decide
  obtain ⟨hsmall, hcapital⟩ := hall n h.lt
  rcases h with h | h
  · rwa [h] at hsmall
  · rwa [h] at hcapital

theorem isDigit_of_hexValue? {v : UInt8} (h : hexValue? b = some v) : IsDigit b v.toNat := by
  have hall : ∀ b : UInt8, hexValue? b = none ∨ IsDigit b ((hexValue? b).getD 0).toNat := by
    simp only [IsDigit, bytes_small, bytes_capital]
    exact Text.forall_byte (by decide +kernel)
  have hdigit := (hall b).resolve_left (by rw [h]; exact Option.some_ne_none v)
  rwa [h] at hdigit

/-- Two digits make up a byte. -/
theorem byte_of_digits {hi lo : Nat} (hhi : hi < 16) (hlo : lo < 16) :
    UInt8.ofNat hi <<< 4 ||| UInt8.ofNat lo = UInt8.ofNat (16 * hi + lo) := by
  have hall : ∀ hi < 16, ∀ lo < 16,
      UInt8.ofNat hi <<< 4 ||| UInt8.ofNat lo = UInt8.ofNat (16 * hi + lo) := by decide +kernel
  exact hall hi hhi lo hlo

/-! ## Reading -/

/-- Two digits begin these bytes. -/
def Digits (bs : List UInt8) : Prop := ∃ h l rest hi lo, bs = h :: l :: rest ∧ IsDigit h hi ∧ IsDigit l lo

/-- The bytes of a segment, and the bytes that it stands for. -/
inductive Reads : List UInt8 → List UInt8 → Prop
  | done : Reads [] []
  /-- Whatever is no percent sign stands for itself, a plus sign as well. -/
  | plain {b : UInt8} {bs out : List UInt8} (hb : b ≠ 37) (rest : Reads bs out) : Reads (b :: bs) (b :: out)
  | digits {h l : UInt8} {hi lo : Nat} {bs out : List UInt8} (hh : IsDigit h hi) (hl : IsDigit l lo)
      (rest : Reads bs out) : Reads (37 :: h :: l :: bs) (UInt8.ofNat (16 * hi + lo) :: out)
  /-- So does a percent sign that two digits do not follow. -/
  | sign {bs out : List UInt8} (hno : ¬ Digits bs) (rest : Reads bs out) : Reads (37 :: bs) (37 :: out)

variable {h l : UInt8} {bs out : List UInt8}

theorem decode_digits {hi lo : Nat} (hh : IsDigit h hi) (hl : IsDigit l lo) (rest : List UInt8) :
    decode (37 :: h :: l :: rest) = UInt8.ofNat (16 * hi + lo) :: decode rest := by
  rw [decode_percent hh.hexValue?_eq hl.hexValue?_eq, byte_of_digits hh.lt hl.lt]

theorem decode_sign (hno : ¬ Digits bs) : decode (37 :: bs) = 37 :: decode bs := by
  rcases bs with _ | ⟨h, _ | ⟨l, rest⟩⟩
  · rw [decode]
    rintro _ _ _ - ⟨⟩
  · rw [decode]
    rintro _ _ _ - ⟨⟩
  · rw [decode]
    split
    · next hi lo hh hl =>
      exact absurd ⟨h, l, rest, _, _, rfl, isDigit_of_hexValue? hh, isDigit_of_hexValue? hl⟩ hno
    · rfl

theorem Reads.decode_eq (hr : Reads bs out) : decode bs = out := by
  induction hr with
  | done => rw [decode]
  | plain hb _ ih => rw [decode_cons hb, ih]
  | digits hh hl _ ih => rw [decode_digits hh hl, ih]
  | sign hno _ ih => rw [decode_sign hno, ih]

theorem reads_decode (bs : List UInt8) : Reads bs (decode bs) := by
  induction bs using decode.induct with
  | case1 h l rest hi lo hl hh ih =>
    have hdh := isDigit_of_hexValue? hh
    have hdl := isDigit_of_hexValue? hl
    rw [decode_digits hdh hdl]
    exact .digits hdh hdl ih
  | case2 h l rest hno ih =>
    have hdigits : ¬ Digits (h :: l :: rest) := by
      rintro ⟨_, _, _, hi, lo, heq, hh, hl⟩
      cases heq
      exact hno _ _ hh.hexValue?_eq hl.hexValue?_eq
    rw [decode_sign hdigits]
    exact .sign hdigits ih
  | case3 b rest hno ih =>
    by_cases hb : b = 37
    · subst hb
      have hdigits : ¬ Digits rest := by
        rintro ⟨h, l, rest', _, _, rfl, -, -⟩
        exact hno h l rest' rfl rfl
      rw [decode_sign hdigits]
      exact .sign hdigits ih
    · rw [decode_cons hb]
      exact .plain hb ih
  | case4 => rw [decode]; exact .done

theorem decode_eq_iff : decode bs = out ↔ Reads bs out :=
  ⟨fun h => h ▸ reads_decode bs, Reads.decode_eq⟩

theorem decodeText?_eq_some {s t : String} :
    decodeText? s = some t ↔ Reads (Text.bytes s) (Text.bytes t) := by
  rw [← decode_eq_iff, decodeText?]
  exact ⟨fun h => (Text.bytes_of_ofBytes? h).symm, fun h => by rw [h, Text.ofBytes?_bytes]⟩

/-! ## Writing -/

/-- The bytes that stand for themselves. -/
def unreserved : List UInt8 :=
  Text.bytes "ABCDEFGHIJKLMNOPQRSTUVWXYZabcdefghijklmnopqrstuvwxyz0123456789-_.~"

theorem mem_unreserved : b ∈ unreserved ↔ isUnreserved b = true := by
  have hvalues : unreserved.map UInt8.toNat =
      List.range' 65 26 ++ List.range' 97 26 ++ List.range' 48 10 ++ [45, 95, 46, 126] := by decide +kernel
  have hmem : b ∈ unreserved ↔ b.toNat ∈ unreserved.map UInt8.toNat := by
    simp only [List.mem_map, UInt8.toNat_inj, exists_eq_right]
  have hall : ∀ b : UInt8, b.toNat ∈ List.range' 65 26 ++ List.range' 97 26 ++ List.range' 48 10 ++
      [45, 95, 46, 126] ↔ isUnreserved b = true := Text.forall_byte (by decide +kernel)
  rw [hmem, hvalues, hall]

/-- The bytes that stand for a byte. -/
def spelling (b : UInt8) : List UInt8 :=
  if b ∈ unreserved then [b]
  else 37 :: [b.toNat / 16, b.toNat % 16].filterMap fun n => (Text.bytes "0123456789ABCDEF")[n]?

theorem spelling_eq (b : UInt8) :
    spelling b = if isUnreserved b then [b] else [37, hexDigit (b >>> 4), hexDigit (b &&& 15)] := by
  have hdigits : ∀ b : UInt8, [b.toNat / 16, b.toNat % 16].filterMap (fun n =>
      (Text.bytes "0123456789ABCDEF")[n]?) = [hexDigit (b >>> 4), hexDigit (b &&& 15)] := by
    simp only [bytes_capital]
    exact Text.forall_byte (by decide +kernel)
  simp only [spelling, mem_unreserved, hdigits]

theorem encode_eq_flatMap (bs : List UInt8) : encode bs = bs.flatMap spelling := by
  induction bs with
  | nil => rw [encode, List.flatMap_nil]
  | cons b bs ih =>
    rw [List.flatMap_cons, spelling_eq, encode, ih]
    split
    · rfl
    · rfl

end Percent

namespace Path

/-- A path that consists of its beginning and the segments of a group and a key. -/
def Names (path start group key : String) : Prop :=
  ∃ a b : String, path = start ++ a ++ "/" ++ b ∧ '/' ∉ a.toList ∧ '/' ∉ b.toList ∧
    Percent.Reads (Text.bytes a) (Text.bytes group) ∧ Percent.Reads (Text.bytes b) (Text.bytes key)

variable {path start group key : String}

theorem split?_eq_names : split? path start = some (group, key) ↔ Names path start group key := by
  simp only [split?_eq_some, Percent.decodeText?_eq_some]
  rfl

theorem split?_eq_none : split? path start = none ↔ ∀ group key, ¬ Names path start group key := by
  rw [Option.eq_none_iff_forall_ne_some, Prod.forall]
  exact forall₂_congr fun group key => not_congr split?_eq_names

theorem ofKey_inj {group' key' : String} :
    ofKey start group key = ofKey start group' key' ↔ group = group' ∧ key = key' := by
  constructor
  · intro h
    have hsplit := split?_ofKey start group key
    rw [h, split?_ofKey, Option.some.injEq, Prod.mk.injEq] at hsplit
    exact ⟨hsplit.1.symm, hsplit.2.symm⟩
  · rintro ⟨rfl, rfl⟩
    rfl

theorem bytes_ofKey (start group key : String) : Text.bytes (ofKey start group key) =
    Text.bytes start ++ (Text.bytes group).flatMap Percent.spelling ++
      47 :: (Text.bytes key).flatMap Percent.spelling := by
  have hslash : Text.bytes "/" = [47] := by decide +kernel
  rw [ofKey, Text.bytes_append, Text.bytes_append, Text.bytes_append, Percent.bytes_encodeText,
    Percent.bytes_encodeText, Percent.encode_eq_flatMap, Percent.encode_eq_flatMap, hslash,
    List.append_assoc _ [47], List.singleton_append]

/-- **A path names one group and one key, or none.**  For every beginning, and for the one of the peer
protocol, the path of a group and a key is read as these two, so that no two pairs have one path.  A path
is read as a group and a key exactly if it is the beginning and two segments without a slash that stand
for them, and is refused if there are none. -/
theorem codec (start : String) :
    (∀ group key, Text.bytes (ofKey start group key) =
      Text.bytes start ++ (Text.bytes group).flatMap Percent.spelling ++
        47 :: (Text.bytes key).flatMap Percent.spelling) ∧
    (∀ group key, split? (ofKey start group key) start = some (group, key)) ∧
    (∀ group key, split? (peer group key) peerPrefix = some (group, key)) ∧
    (∀ group key group' key', ofKey start group key = ofKey start group' key' ↔
      group = group' ∧ key = key') ∧
    (∀ path group key, split? path start = some (group, key) ↔ Names path start group key) ∧
    ∀ path, split? path start = none ↔ ∀ group key, ¬ Names path start group key :=
  ⟨bytes_ofKey start, split?_ofKey start, split?_ofKey peerPrefix, fun _ _ _ _ => ofKey_inj,
    fun _ _ _ => split?_eq_names, fun _ => split?_eq_none⟩

/-- The percent sign of a key is written as one, and read back as it was. -/
example : ofKey clientPrefix "my group" "%2F+" = "/cache/my%20group/%252F%2B" ∧
    split? "/cache/my%20group/%252F+" clientPrefix = some ("my group", "%2F+") := by decide +kernel

end Path

end PeerCache
