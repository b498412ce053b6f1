import PeerCache.Json.Basic
import PeerCache.Registry

/-!
# Snapshots

What is known of every group of a node at one moment, in order of the groups' names, and its JSON
document.
-/

namespace PeerCache

structure Snapshot where
  group : String
  ring : RingStats
  main : TierStats
  hot : TierStats
  counters : GroupCounters
  coordinator : CoordinatorStats

namespace Snapshot

def ofGroup (g : Group) (m : Membership) : Snapshot :=
  { group := g.name, ring := m.stats, main := g.cache.main.stats, hot := g.cache.hot.stats,
    counters := g.counters, coordinator := g.coordinator.stats }

/-- Hits among the gets that have been looked up. -/
def hitRatio (s : Snapshot) : Float := PeerCache.hitRatio s.counters.hits s.counters.misses

/-- One snapshot per group, in order of the names. -/
def all (r : Registry) (m : Membership) : List Snapshot :=
  (r.groups.map fun g => ofGroup g m).mergeSort fun a b => !(b.group < a.group)

end Snapshot

/-! ## JSON -/

namespace RingStats

def toJson (s : RingStats) : Json :=
  .ofFields [("peers", .ofNat s.peers), ("virtual_replicas", .ofNat s.virtualReplicas),
    ("points", .ofNat s.points), ("owned_fraction", .ofFloat (Ring.fraction s.share))]

end RingStats

namespace TierStats

def toJson (s : TierStats) : Json :=
  .ofFields [("hits", .ofNat s.hits), ("misses", .ofNat s.misses), ("hit_ratio", .ofFloat s.hitRatio),
    ("puts", .ofNat s.puts), ("rejected", .ofNat s.rejected), ("evictions", .ofNat s.evictions),
    ("expirations", .ofNat s.expirations), ("removals", .ofNat s.removals), ("items", .ofNat s.items),
    ("bytes_stored", .ofNat s.bytesStored), ("capacity", .ofNat s.capacity),
    ("capacity_unit", .ofText s.capacityUnit)]

end TierStats

namespace CoordinatorStats

def toJson (s : CoordinatorStats) : Json :=
  .ofFields [("in_flight", .ofNat s.inFlight), ("loads", .ofNat s.loads),
    ("coalesced", .ofNat s.coalesced)]

end CoordinatorStats

namespace Snapshot

/-- A number for each tier. -/
def perTier (main hot : Nat) : Json := .ofFields [("main", .ofNat main), ("hot", .ofNat hot)]

def countersJson (s : Snapshot) : Json :=
  let c := s.counters
  .ofFields [("gets", .ofNat c.gets), ("hits", .ofNat c.hits), ("misses", .ofNat c.misses),
    ("hit_ratio", .ofFloat s.hitRatio), ("backfills", .ofNat c.backfills),
    ("backfill_errors", .ofNat c.backfillErrors), ("peer_fetches", .ofNat c.peerFetches),
    ("peer_fetch_errors", .ofNat c.peerFetchErrors), ("peer_requests", .ofNat c.peerRequests),
    ("sets", .ofNat c.sets), ("removes", .ofNat c.removes),
    ("evictions", perTier s.main.evictions s.hot.evictions),
    ("bytes_stored", perTier s.main.bytesStored s.hot.bytesStored),
    ("coordinator", s.coordinator.toJson)]

def toJson (s : Snapshot) : Json :=
  .ofFields [("group", .ofText s.group), ("ring", s.ring.toJson), ("main", s.main.toJson),
    ("hot", s.hot.toJson), ("counters", s.countersJson)]

/-- The document of a list of snapshots. -/
def document (ss : List Snapshot) : String := (Json.list (ss.map toJson)).pretty

end Snapshot

end PeerCache
