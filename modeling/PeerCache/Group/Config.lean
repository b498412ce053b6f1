import PeerCache.Cache.Tier
import PeerCache.Error
import PeerCache.Group.Backfill
import PeerCache.Text.Printable

/-!
# Group configurations

What a group is registered with.  Both tiers have to be bounded in one unit; unless a bound is
given for the hot tier, it is an eighth of the main one, and at least one.
-/

namespace PeerCache

structure GroupConfig where
  name : String
  main : TierConfig := { capacity := Capacity.standardMain }
  hot : TierConfig := { capacity := Capacity.standardHot }
  /-- The lifetime of cached values; without one they stay until evicted. -/
  itemExpiration : Option Duration := none
  backfill : Option Backfill := none

namespace GroupConfig

/-- Bounds the main tier, and the hot tier by an eighth. -/
def withCapacity (g : GroupConfig) (c : Capacity) : GroupConfig :=
  { g with main := { capacity := c }, hot := { capacity := c.withAmount (max 1 (c.amount / 8)) } }

def withHotCapacity (g : GroupConfig) (c : Capacity) : GroupConfig := { g with hot := { capacity := c } }

def withItemExpiration (g : GroupConfig) (ttl : Duration) : GroupConfig :=
  { g with itemExpiration := some ttl }

def withBackfill (g : GroupConfig) (b : Backfill) : GroupConfig := { g with backfill := some b }

/-- Asks for a number of shards in both tiers. -/
def withShards (g : GroupConfig) (n : Nat) : GroupConfig :=
  { g with main := { g.main with shards := n }, hot := { g.hot with shards := n } }

def validate (g : GroupConfig) : Except Error Unit :=
  if g.name == "" then .error .nameRequired
  else if !g.main.capacity.sameUnit g.hot.capacity then
    .error (.config ("group '" ++ g.name ++ "' mixes capacity units: main in " ++
      g.main.capacity.unit ++ ", hot in " ++ g.hot.capacity.unit))
  else .ok ()

def debugText (g : GroupConfig) : String :=
  let ttl := match g.itemExpiration with
    | none => "None"
    | some d => "Some(" ++ d.text ++ ")"
  "CacheGroupConfig \x7b name: " ++ Text.quoted g.name ++ ", main: " ++ g.main.debugText ++
    ", hot: " ++ g.hot.debugText ++ ", item_expiration: " ++ ttl ++ ", backfill: " ++
    (if g.backfill.isSome then "true" else "false") ++ " \x7d"

end GroupConfig

end PeerCache
