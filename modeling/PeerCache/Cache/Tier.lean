import PeerCache.Cache.Shard
import PeerCache.Cache.Tally

/-!
# Tiers

A bounded store in order of use.  A tier has a power-of-two number of shards, and a key lies in
the shard that its hash selects; one budget covers them all.  Every insertion and every lookup
takes a tick of the tier's clock, so the least recently used entry of the whole tier is the tail
with the smallest tick, and eviction takes that one until the use fits the bound.

Expiry is lazy: a lookup that finds an expired entry drops it and counts as a miss, and an entry
that was expired when eviction took it counts as an expiration.

An entry that costs more than the whole bound is refused, and an older value under its key goes.
-/

namespace PeerCache

/-- Which tier of a group: owned keys, or copies of keys that others own. -/
inductive TierKind where
  | main
  | hot
  deriving Repr, DecidableEq

namespace TierKind

def name : TierKind → String
  | main => "main"
  | hot => "hot"

def debugText : TierKind → String
  | main => "Main"
  | hot => "Hot"

end TierKind

/-- The bound of a tier and the number of shards asked for. -/
structure TierConfig where
  capacity : Capacity
  shards : Nat := 16
  deriving Repr, DecidableEq

namespace TierConfig

/-- The number of shards there will be: a power of two, at least one. -/
def shardCount (c : TierConfig) : Nat := (max 1 c.shards).nextPowerOfTwo

def debugText (c : TierConfig) : String :=
  "TierConfig \x7b capacity: " ++ c.capacity.debugText ++ ", shards: " ++ toString c.shards ++ " \x7d"

end TierConfig

structure Tier where
  kind : TierKind
  shards : List Shard
  capacity : Capacity
  /-- The cost of all entries in the unit of the capacity. -/
  used : Nat := 0
  clock : Nat := 0
  tally : Tally := {}
  deriving DecidableEq

namespace Tier

/-! ## Algorithm -/

def create (kind : TierKind) (c : TierConfig) : Tier :=
  { kind, shards := List.replicate c.shardCount {}, capacity := c.capacity }

def shardIndex (t : Tier) (key : String) : Nat := (Shard.hashKey key).toNat % t.shards.length

def shardOf (t : Tier) (key : String) : Shard := t.shards.getD (t.shardIndex key) {}

def setShard (t : Tier) (key : String) (s : Shard) : Tier :=
  { t with shards := t.shards.set (t.shardIndex key) s }

/-- The smallest tick at a tail, and the first shard that has it. -/
def oldestTail? : List Shard → Option (Nat × Nat)
  | [] => none
  | s :: rest =>
    match s.oldestTick?, oldestTail? rest with
    | none, none => none
    | none, some (tick, i) => some (tick, i + 1)
    | some tick, none => some (tick, 0)
    | some tick, some (other, i) => if tick ≤ other then some (tick, 0) else some (other, i + 1)

/-- Takes out the least recently used entry of the tier. -/
def popOldest? (t : Tier) : Option (Slot × Tier) := do
  let (_, i) ← oldestTail? t.shards
  let shard ← t.shards[i]?
  let (slot, rest) ← shard.popOldest?
  some (slot, { t with shards := t.shards.set i rest })

/-- The use after an entry of some cost has gone. -/
def release (t : Tier) (cost : Nat) : Tier := { t with used := t.used - cost }

def costOf (t : Tier) (key : String) (e : Entry) : Nat := t.capacity.cost key.utf8ByteSize e.size

/-- One entry less, counted by whether it had expired. -/
def reclaim (t : Tier) (slot : Slot) (now : Instant) : Tier :=
  let t := t.release (slot.cost t.capacity)
  { t with tally := if slot.entry.isExpiredAt now then t.tally.expire 1 else t.tally.evict 1 }

/-- Evicts at most `fuel` entries, until the use fits the bound. -/
def evictUpTo (now : Instant) : Nat → Tier → Tier
  | 0, t => t
  | fuel + 1, t =>
    if t.used ≤ t.capacity.amount then t
    else match t.popOldest? with
      | none => t
      | some (slot, rest) => evictUpTo now fuel (rest.reclaim slot now)

/-- The number of slots in all shards. -/
def slotCount (t : Tier) : Nat := t.shards.foldr (fun s n => s.slots.length + n) 0

/-- Evicts until the use fits the bound; one step for every entry is enough. -/
def evictToFit (t : Tier) (now : Instant) : Tier := evictUpTo now t.slotCount t

/-- Every lookup takes a tick, whatever it finds. -/
def get (t : Tier) (key : String) (now : Instant) : Tier × Option Entry :=
  let (shard, found) := (t.shardOf key).get key now t.clock
  let t := { t.setShard key shard with clock := t.clock + 1 }
  match found with
  | .hit e => ({ t with tally := t.tally.hit }, some e)
  | .miss => ({ t with tally := t.tally.miss }, none)
  | .expired =>
    match (t.shardOf key).removeExpired key now with
    | (rest, some e) =>
      let t := (t.setShard key rest).release (t.costOf key e)
      ({ t with tally := (t.tally.expire 1).miss }, none)
    | (_, none) => ({ t with tally := t.tally.miss }, none)

/-- Drops an older value under the key, uncounted. -/
def discard (t : Tier) (key : String) : Tier :=
  match (t.shardOf key).remove key with
  | (rest, some old) => (t.setShard key rest).release (t.costOf key old)
  | (_, none) => t

/-- Places a new entry and takes its cost, before anything is evicted. -/
def place (t : Tier) (key : String) (e : Entry) : Tier :=
  let (shard, old) := (t.shardOf key).insert key e t.clock
  let t := { t.setShard key shard with clock := t.clock + 1 }
  let t := match old with
    | some o => t.release (t.costOf key o)
    | none => t
  { t with used := t.used + t.costOf key e }

/-- Stores a value; false if it is larger than the tier. -/
def put (t : Tier) (key : String) (value : ByteArray) (expireAt : Option Instant) (now : Instant) :
    Tier × Bool :=
  let e : Entry := ⟨value, expireAt⟩
  if t.capacity.amount < t.costOf key e then
    let t := t.discard key
    ({ t with tally := t.tally.reject }, false)
  else
    let t := (t.place key e).evictToFit now
    ({ t with tally := t.tally.put }, true)

def remove (t : Tier) (key : String) : Tier × Option Entry :=
  match (t.shardOf key).remove key with
  | (rest, some e) =>
    let t := (t.setShard key rest).release (t.costOf key e)
    ({ t with tally := t.tally.remove }, some e)
  | (_, none) => (t, none)

/-- A live entry, without use or count. -/
def peek (t : Tier) (key : String) (now : Instant) : Option Entry :=
  ((t.shardOf key).peek key).filter fun e => !e.isExpiredAt now

def contains (t : Tier) (key : String) (now : Instant) : Bool := (t.peek key now).isSome

/-- Changes the bound; in a new unit, all entries are measured again. -/
def resize (t : Tier) (c : Capacity) (now : Instant) : Tier :=
  let used := if c.sameUnit t.capacity then t.used else t.shards.foldr (fun s n => s.totalCost c + n) 0
  ({ t with used, capacity := c }).evictToFit now

/-- Entries held, expired ones included. -/
def size (t : Tier) : Nat := t.shards.foldr (fun s n => s.count + n) 0

def isEmpty (t : Tier) : Bool := t.shards.all (·.isEmpty)

def bytesStored (t : Tier) : Nat := t.shards.foldr (fun s n => s.bytes + n) 0

def stats (t : Tier) : TierStats :=
  { t.tally.stats with
    items := t.size, bytesStored := t.bytesStored, capacity := t.capacity.amount,
    capacityUnit := t.capacity.unit }

def debugText (t : Tier) : String :=
  "TierCache \x7b tier: " ++ t.kind.debugText ++ ", shards: " ++ toString t.shards.length ++
    ", capacity: " ++ t.capacity.debugText ++ ", items: " ++ toString t.size ++ " \x7d"

end Tier

/-- The two tiers of a group. -/
structure TierPair where
  main : Tier
  hot : Tier
  deriving DecidableEq

namespace TierPair

def create (main hot : TierConfig) : TierPair := ⟨Tier.create .main main, Tier.create .hot hot⟩

def tier (p : TierPair) : TierKind → Tier
  | .main => p.main
  | .hot => p.hot

def setTier (p : TierPair) (k : TierKind) (t : Tier) : TierPair :=
  match k with
  | .main => { p with main := t }
  | .hot => { p with hot := t }

/-- Removes a key from both; true if either held it. -/
def remove (p : TierPair) (key : String) : TierPair × Bool :=
  let (main, m) := p.main.remove key
  let (hot, h) := p.hot.remove key
  (⟨main, hot⟩, m.isSome || h.isSome)

def debugText (p : TierPair) : String :=
  "TieredCache \x7b main: " ++ p.main.debugText ++ ", hot: " ++ p.hot.debugText ++ " \x7d"

end TierPair

end PeerCache
