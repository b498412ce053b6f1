import PeerCache.Cache.Capacity
import PeerCache.Cache.Entry
import PeerCache.Hash

/-!
# Shards

One slice of a tier: its slots in order of use, the most recent first.  A slot carries the tick
of its last insertion or live hit, so that a tier can compare the tails of its shards.

A shard counts its entries and their bytes as they come and go (`count`, `bytes`), beside the
list.  It has no bound of its own.

Looking up an expired entry uses it like any other, so it moves to the front; only its tick stays.
-/

namespace PeerCache

structure Slot where
  key : String
  entry : Entry
  tick : Nat
  deriving DecidableEq, Inhabited

namespace Slot

/-- Bytes of key and value. -/
def bytes (s : Slot) : Nat := s.key.utf8ByteSize + s.entry.size

def cost (c : Capacity) (s : Slot) : Nat := c.cost s.key.utf8ByteSize s.entry.size

end Slot

/-- What a lookup in a shard finds. -/
inductive Lookup where
  | hit (entry : Entry)
  /-- Present but expired; the caller drops it. -/
  | expired
  | miss
  deriving DecidableEq

structure Shard where
  /-- Most recently used first. -/
  slots : List Slot := []
  count : Nat := 0
  bytes : Nat := 0
  deriving DecidableEq, Inhabited

namespace Shard

/-! ## Algorithm -/

/-- The seed of the hash that picks a shard; not the ring's. -/
def seed : UInt64 := 0x9E3779B97F4A7C15

def hashKey (key : String) : UInt64 := Hash.ofText seed key

def isEmpty (s : Shard) : Bool := s.count == 0

def find? (s : Shard) (key : String) : Option Slot := s.slots.find? (·.key == key)

/-- The slots of all other keys. -/
def others (s : Shard) (key : String) : List Slot := s.slots.filter (·.key != key)

/-- The counters after a slot has left. -/
def forget (s : Shard) (slot : Slot) : Shard :=
  { s with count := s.count - 1, bytes := s.bytes - slot.bytes }

def get (s : Shard) (key : String) (now : Instant) (tick : Nat) : Shard × Lookup :=
  match s.find? key with
  | none => (s, .miss)
  | some slot =>
    if slot.entry.isExpiredAt now then ({ s with slots := slot :: s.others key }, .expired)
    else ({ s with slots := { slot with tick } :: s.others key }, .hit slot.entry)

/-- Neither recency nor expiry matters. -/
def peek (s : Shard) (key : String) : Option Entry := (s.find? key).map (·.entry)

def remove (s : Shard) (key : String) : Shard × Option Entry :=
  match s.find? key with
  | none => (s, none)
  | some slot => (({ s with slots := s.others key }).forget slot, some slot.entry)

/-- Removes a key only if it is still there and expired. -/
def removeExpired (s : Shard) (key : String) (now : Instant) : Shard × Option Entry :=
  match s.find? key with
  | some slot => if slot.entry.isExpiredAt now then s.remove key else (s, none)
  | none => (s, none)

/-- Puts an entry in front, and gives the one it replaces. -/
def insert (s : Shard) (key : String) (entry : Entry) (tick : Nat) : Shard × Option Entry :=
  let (rest, old) := s.remove key
  let slot : Slot := ⟨key, entry, tick⟩
  ({ slots := slot :: rest.slots, count := rest.count + 1, bytes := rest.bytes + slot.bytes }, old)

/-- The tick of the least recently used entry. -/
def oldestTick? (s : Shard) : Option Nat := s.slots.getLast?.map (·.tick)

/-- Takes out the least recently used entry. -/
def popOldest? (s : Shard) : Option (Slot × Shard) :=
  s.slots.getLast?.map fun slot => (slot, ({ s with slots := s.slots.dropLast }).forget slot)

/-- What all entries together take of a capacity. -/
def totalCost (s : Shard) (c : Capacity) : Nat := s.slots.foldr (fun x n => x.cost c + n) 0

end Shard

end PeerCache
