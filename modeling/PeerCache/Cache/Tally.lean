/-!
# Tallies

What a tier counts of its own work, and the statistics made of it.  Totals are kept exactly;
a reading is a word of 64 bits, so it is taken modulo `2 ^ 64`.
-/

namespace PeerCache

/-- Counters of one tier. -/
structure Tally where
  hits : Nat := 0
  misses : Nat := 0
  puts : Nat := 0
  /-- Entries larger than the tier could ever hold. -/
  rejected : Nat := 0
  evictions : Nat := 0
  expirations : Nat := 0
  removals : Nat := 0
  deriving Repr, DecidableEq, Inhabited

/-- Hits among hits and misses, to the nearest double; zero of none. -/
def hitRatio (hits misses : Nat) : Float :=
  if hits + misses = 0 then 0.0 else Float.ofNat hits / Float.ofNat (hits + misses)

/-- What is reported of one tier. -/
structure TierStats where
  hits : Nat
  misses : Nat
  puts : Nat
  rejected : Nat
  evictions : Nat
  expirations : Nat
  removals : Nat
  /-- Entries held now. -/
  items : Nat := 0
  /-- Bytes of keys and values held now. -/
  bytesStored : Nat := 0
  capacity : Nat := 0
  capacityUnit : String := ""
  deriving Repr, DecidableEq

namespace TierStats

def hitRatio (s : TierStats) : Float := PeerCache.hitRatio s.hits s.misses

end TierStats

namespace Tally

def hit (t : Tally) : Tally := { t with hits := t.hits + 1 }
def miss (t : Tally) : Tally := { t with misses := t.misses + 1 }
def put (t : Tally) : Tally := { t with puts := t.puts + 1 }
def reject (t : Tally) : Tally := { t with rejected := t.rejected + 1 }
def evict (t : Tally) (n : Nat) : Tally := { t with evictions := t.evictions + n }
def expire (t : Tally) (n : Nat) : Tally := { t with expirations := t.expirations + n }
def remove (t : Tally) : Tally := { t with removals := t.removals + 1 }

/-- A total as it is read. -/
def word (n : Nat) : Nat := n % 0x10000000000000000

/-- The counters alone; sizes are filled in by the tier. -/
def stats (t : Tally) : TierStats :=
  { hits := word t.hits, misses := word t.misses, puts := word t.puts, rejected := word t.rejected,
    evictions := word t.evictions, expirations := word t.expirations, removals := word t.removals }

end Tally

end PeerCache
