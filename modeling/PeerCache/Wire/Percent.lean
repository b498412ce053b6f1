import PeerCache.Text.Bytes

/-!
# Percent coding

Any byte string written with visible ASCII characters: the unreserved characters `A-Z a-z 0-9 - _ . ~`
stand for themselves, every other byte is `%` and two upper-case hexadecimal digits.  Reading is
lenient: a `%` that two hexadecimal digits do not follow stands for itself.

    decode (encode bytes) = bytes
-/

namespace PeerCache.Percent

/-! ## Algorithm -/

def isUnreserved (b : UInt8) : Bool :=
  (65 ≤ b && b ≤ 90) || (97 ≤ b && b ≤ 122) || (48 ≤ b && b ≤ 57) || b == 45 || b == 95 || b == 46 ||
    b == 126

/-- The digit of a value below 16. -/
def hexDigit (n : UInt8) : UInt8 := if n < 10 then 48 + n else 55 + n

/-- The value of a hexadecimal digit, small or capital. -/
def hexValue? (b : UInt8) : Option UInt8 :=
  if 48 ≤ b && b ≤ 57 then some (b - 48)
  else if 65 ≤ b && b ≤ 70 then some (b - 55)
  else if 97 ≤ b && b ≤ 102 then some (b - 87)
  else none

def encode : List UInt8 → List UInt8
  | [] => []
  | b :: rest =>
    if isUnreserved b then b :: encode rest
    else 37 :: hexDigit (b >>> 4) :: hexDigit (b &&& 15) :: encode rest

def decode : List UInt8 → List UInt8
  | 37 :: h :: l :: rest =>
    match hexValue? h, hexValue? l with
    | some hi, some lo => (hi <<< 4 ||| lo) :: decode rest
    | _, _ => 37 :: decode (h :: l :: rest)
  | b :: rest => b :: decode rest
  | [] => []
termination_by bytes => bytes.length

/-- A text as one segment of a path. -/
def encodeText (s : String) : String :=
  String.ofList ((encode (Text.bytes s)).map fun b => Char.ofNat b.toNat)

/-- The text that a segment stands for, unless its bytes are no UTF-8. -/
def decodeText? (s : String) : Option String :=
  Text.ofBytes? (decode (Text.bytes s))

end PeerCache.Percent
