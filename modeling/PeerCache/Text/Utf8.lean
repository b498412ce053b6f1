/-!
# Reading bytes as text

Bytes that should be UTF-8 but may not be.  `lossy` reads what it can and puts U+FFFD for each
longest piece that begins a character but does not complete one, and for each byte that cannot
begin one.
-/

namespace PeerCache.Utf8

/-- What the first byte of a character says: how many bytes follow, the bounds of the next one,
and the bits it carries itself. -/
structure Lead where
  follow : Nat
  low : UInt8 := 0x80
  high : UInt8 := 0xBF
  bits : Nat

def lead? (b : UInt8) : Option Lead :=
  if b < 0x80 then some { follow := 0, bits := b.toNat }
  else if 0xC2 ≤ b && b ≤ 0xDF then some { follow := 1, bits := b.toNat - 0xC0 }
  else if b == 0xE0 then some { follow := 2, low := 0xA0, bits := 0 }
  else if b == 0xED then some { follow := 2, high := 0x9F, bits := 0xD }
  else if 0xE1 ≤ b && b ≤ 0xEF then some { follow := 2, bits := b.toNat - 0xE0 }
  else if b == 0xF0 then some { follow := 3, low := 0x90, bits := 0 }
  else if b == 0xF4 then some { follow := 3, high := 0x8F, bits := 4 }
  else if 0xF1 ≤ b && b ≤ 0xF3 then some { follow := 3, bits := b.toNat - 0xF0 }
  else none

def replacement : Char := Char.ofNat 0xFFFD

/-- Completes a character of which `bits` are known, and counts the bytes it takes; without a
character, the bytes that belong to the unfinished one. -/
def complete (follow : Nat) (low high : UInt8) (bits taken : Nat) (bytes : List UInt8) :
    Option Char × Nat :=
  match follow, bytes with
  | 0, _ => (some (Char.ofNat bits), taken)
  | _ + 1, [] => (none, taken)
  | n + 1, b :: rest =>
    if low ≤ b && b ≤ high then
      complete n 0x80 0xBF (bits * 64 + (b.toNat - 0x80)) (taken + 1) rest
    else (none, taken)

def lossyChars : List UInt8 → List Char
  | [] => []
  | b :: rest =>
    match lead? b with
    | none => replacement :: lossyChars rest
    | some l =>
      let (c, taken) := complete l.follow l.low l.high l.bits 0 rest
      c.getD replacement :: lossyChars (rest.drop taken)
termination_by bytes => bytes.length
decreasing_by
  · simp
  · simp only [List.length_drop, List.length_cons]; omega

def lossy (bytes : ByteArray) : String :=
  (String.fromUTF8? bytes).getD (String.ofList (lossyChars bytes.data.toList))

end PeerCache.Utf8
