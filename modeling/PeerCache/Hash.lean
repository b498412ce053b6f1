import PeerCache.Text.Bytes

/-!
# The 64-bit hash of keys and ring points

A seeded, non-cryptographic hash of a byte string (the 64-bit member of the xxHash family).
Input of at least 32 bytes runs through four lanes, 32 bytes a round; what is left is mixed in
by words of eight, then four, then single bytes, and the result is avalanched.  Arithmetic is
modulo `2 ^ 64`, so the words are `UInt64`.

Every node computes the same hash of the same bytes: this is what makes ownership agree.
-/

namespace PeerCache.Hash

/-! ## Algorithm -/

def prime1 : UInt64 := 0x9E3779B185EBCA87
def prime2 : UInt64 := 0xC2B2AE3D27D4EB4F
def prime3 : UInt64 := 0x165667B19E3779F9
def prime4 : UInt64 := 0x85EBCA77C2B2AE63
def prime5 : UInt64 := 0x27D4EB2F165667C5

/-- Rotation to the left by `r` places, `0 < r < 64`. -/
def rotl (x r : UInt64) : UInt64 := (x <<< r) ||| (x >>> (64 - r))

/-- The little-endian word of a byte string. -/
def word (bytes : List UInt8) : UInt64 :=
  bytes.foldr (fun b acc => (acc <<< 8) ||| b.toUInt64) 0

/-- The eight bytes of a word, least significant first. -/
def wordBytes (n : UInt64) : List UInt8 :=
  (List.range 8).map fun i => (n >>> (8 * UInt64.ofNat i)).toUInt8

def mixLane (acc input : UInt64) : UInt64 := rotl (acc + input * prime2) 31 * prime1

def mergeLane (acc lane : UInt64) : UInt64 := (acc ^^^ mixLane 0 lane) * prime1 + prime4

/-- The four running sums of the long part. -/
structure Lanes where
  a : UInt64
  b : UInt64
  c : UInt64
  d : UInt64

def Lanes.start (seed : UInt64) : Lanes :=
  ⟨seed + prime1 + prime2, seed + prime2, seed, seed - prime1⟩

def Lanes.absorb (l : Lanes) (block : List UInt8) : Lanes :=
  ⟨mixLane l.a (word (block.take 8)), mixLane l.b (word ((block.drop 8).take 8)),
    mixLane l.c (word ((block.drop 16).take 8)), mixLane l.d (word ((block.drop 24).take 8))⟩

def Lanes.join (l : Lanes) : UInt64 :=
  let sum := rotl l.a 1 + rotl l.b 7 + rotl l.c 12 + rotl l.d 18
  mergeLane (mergeLane (mergeLane (mergeLane sum l.a) l.b) l.c) l.d

/-- All whole blocks of 32 bytes, and the bytes after them. -/
def Lanes.run (l : Lanes) (bytes : List UInt8) : Lanes × List UInt8 :=
  if 32 ≤ bytes.length then (l.absorb (bytes.take 32)).run (bytes.drop 32) else (l, bytes)
termination_by bytes.length
decreasing_by simp only [List.length_drop]; omega

def tailBytes (h : UInt64) (bytes : List UInt8) : UInt64 :=
  bytes.foldl (fun h b => rotl (h ^^^ (b.toUInt64 * prime5)) 11 * prime1) h

def tailHalf (h : UInt64) (bytes : List UInt8) : UInt64 :=
  if 4 ≤ bytes.length then
    tailBytes (rotl (h ^^^ (word (bytes.take 4) * prime1)) 23 * prime2 + prime3) (bytes.drop 4)
  else tailBytes h bytes

/-- The bytes after the last whole block: words of eight, at most one of four, single bytes. -/
def tail (h : UInt64) (bytes : List UInt8) : UInt64 :=
  if 8 ≤ bytes.length then
    tail (rotl (h ^^^ mixLane 0 (word (bytes.take 8))) 27 * prime1 + prime4) (bytes.drop 8)
  else tailHalf h bytes
termination_by bytes.length
decreasing_by simp only [List.length_drop]; omega

def avalanche (h : UInt64) : UInt64 :=
  let h := (h ^^^ (h >>> 33)) * prime2
  let h := (h ^^^ (h >>> 29)) * prime3
  h ^^^ (h >>> 32)

/-- The hash of a byte string under a seed. -/
def ofBytes (seed : UInt64) (bytes : List UInt8) : UInt64 :=
  let size := UInt64.ofNat bytes.length
  if 32 ≤ bytes.length then
    let (lanes, rest) := (Lanes.start seed).run bytes
    avalanche (tail (lanes.join + size) rest)
  else avalanche (tail (seed + prime5 + size) bytes)

/-- The hash of the UTF-8 bytes of a text. -/
def ofText (seed : UInt64) (s : String) : UInt64 := ofBytes seed (Text.bytes s)

end PeerCache.Hash
