import PeerCache.Coordinator.Calls
import PeerCache.Group.Config
import PeerCache.Membership

/-!
# Cache groups

A named read-through cache on one node.  Owned keys live in the main tier and come from the
group's backfill; keys of other peers live in the hot tier and come from their owner.  A value set
here lives in the main tier, whoever owns the key.

## A get, step by step

    admit       a request of another peer: is the key owned here?
    lookup      owner, then the tier of that owner, then set values      found, or missing
                (countGet, probe and glance are its parts)
    join        the coordinator: start a load, or wait for one
    beginLoad   the first step of a load: found after all, or ask the backfill, or fetch
    settle      the source has answered: store and count
    release     the load ends and its flight is dropped

Each step is one function on the group, so that any interleaving of callers, loads and writes is a
sequence of them.  Failures are never cached.  The present is an argument everywhere.
-/

namespace PeerCache

/-- The part of a configuration that registering the group again replaces. -/
structure Settings where
  itemExpiration : Option Duration
  backfill : Option Backfill

structure GroupCounters where
  gets : Nat := 0
  hits : Nat := 0
  misses : Nat := 0
  backfills : Nat := 0
  backfillErrors : Nat := 0
  peerFetches : Nat := 0
  peerFetchErrors : Nat := 0
  /-- Requests of other peers. -/
  peerRequests : Nat := 0
  sets : Nat := 0
  removes : Nat := 0
  deriving Repr, DecidableEq

structure Group where
  name : String
  settings : Settings
  cache : TierPair
  coordinator : Coordinator := {}
  counters : GroupCounters := {}

/-- A load as its get has started it: the owner is the one of that moment. -/
structure Load where
  number : Nat
  key : String
  owner : Peer
  deriving Repr, DecidableEq

/-- What a get finds in the tiers. -/
inductive Found where
  | value (v : ByteArray)
  | missing (owner : Peer)

/-- How far a get comes at once: to an answer, or to waiting for a load, which may be new. -/
inductive Begun where
  | answer (outcome : Outcome)
  | waiting (load : Nat) (started : Option Load)

/-- How far the first step of a load comes. -/
inductive LoadStep where
  | ended (e : Ending)
  | ask (source : Backfill) (expireAt : Option Instant)
  | fetch (owner : Peer) (expireAt : Option Instant)

namespace Group

/-! ## Creation -/

def create (c : GroupConfig) : Group :=
  { name := c.name, settings := ⟨c.itemExpiration, c.backfill⟩, cache := TierPair.create c.main c.hot }

/-- New settings and bounds; entries stay as far as they fit. -/
def reconfigure (g : Group) (c : GroupConfig) (now : Instant) : Group :=
  { g with
    settings := ⟨c.itemExpiration, c.backfill⟩
    cache := ⟨g.cache.main.resize c.main.capacity now, g.cache.hot.resize c.hot.capacity now⟩ }

/-! ## Reading -/

def countGet (g : Group) : Group := { g with counters := { g.counters with gets := g.counters.gets + 1 } }

def countHit (g : Group) : Group := { g with counters := { g.counters with hits := g.counters.hits + 1 } }

def countMiss (g : Group) : Group :=
  { g with counters := { g.counters with misses := g.counters.misses + 1 } }

/-- The tier where keys belong that are owned here, or elsewhere. -/
def home (isLocal : Bool) : TierKind := if isLocal then .main else .hot

/-- Looks into one tier. -/
def probe (g : Group) (kind : TierKind) (key : String) (now : Instant) : Group × Option ByteArray :=
  let (tier, found) := (g.cache.tier kind).get key now
  ({ g with cache := g.cache.setTier kind tier }, found.map (·.value))

/-- What the main tier holds, without using it. -/
def glance (g : Group) (key : String) (now : Instant) : Option ByteArray :=
  (g.cache.main.peek key now).map (·.value)

/-- Looks where the key belongs: in the main tier if it is owned, otherwise in the hot tier and
then, without using it, in the main tier. -/
def lookupTiers (g : Group) (isLocal : Bool) (key : String) (now : Instant) :
    Group × Option ByteArray :=
  match g.probe (home isLocal) key now with
  | (g, some v) => (g, some v)
  | (g, none) => (g, if isLocal then none else g.glance key now)

/-- The part of a get before the coordinator. -/
def lookup (g : Group) (m : Membership) (key : String) (now : Instant) : Group × Found :=
  let owner := m.ownerOf key
  let (g, found) := g.countGet.lookupTiers (m.isLocal owner) key now
  match found with
  | some v => (g.countHit, .value v)
  | none => (g.countMiss, .missing owner)

/-- The part of a get in the coordinator. -/
def join (g : Group) (key : String) (owner : Peer) : Group × Begun :=
  let (c, ticket) := g.coordinator.join g.name key
  ({ g with coordinator := c },
    .waiting ticket.load (if ticket.starts then some ⟨ticket.load, key, owner⟩ else none))

/-- A get, up to where it answers or waits. -/
def get (g : Group) (m : Membership) (key : String) (now : Instant) : Group × Begun :=
  match g.lookup m key now with
  | (g, .value v) => (g, .answer (.ok v))
  | (g, .missing owner) => g.join key owner

/-- Counts a request of another peer, and refuses a key that is owned elsewhere. -/
def accept (g : Group) (m : Membership) (key : String) : Group × Option Error :=
  let g := { g with counters := { g.counters with peerRequests := g.counters.peerRequests + 1 } }
  let owner := m.ownerOf key
  (g, if m.isLocal owner then none else some (.notOwned g.name key owner.addr))

/-- A get for another peer: only owned keys are served. -/
def servePeer (g : Group) (m : Membership) (key : String) (now : Instant) : Group × Begun :=
  match g.accept m key with
  | (g, none) => g.get m key now
  | (g, some e) => (g, .answer (.error e))

/-! ## Loading -/

/-- The expiry of values without one of their own. -/
def defaultExpiry (g : Group) (now : Instant) : Option Instant :=
  Expiration.default.resolve g.settings.itemExpiration now

/-- The first step of a load.  A load that ended just before may have stored the value already. -/
def beginLoad (g : Group) (m : Membership) (l : Load) (now : Instant) : Group × LoadStep :=
  let expireAt := g.defaultExpiry now
  if m.isLocal l.owner then
    match g.cache.main.peek l.key now with
    | some e => (g, .ended (.returned (.ok e.value)))
    | none =>
      match g.settings.backfill with
      | none => (g, .ended (.returned (.error (.noBackfill g.name))))
      | some b =>
        ({ g with counters := { g.counters with backfills := g.counters.backfills + 1 } },
          .ask b expireAt)
  else
    ({ g with counters := { g.counters with peerFetches := g.counters.peerFetches + 1 } },
      .fetch l.owner expireAt)

/-- Puts a value into a tier; one that is too large is not cached. -/
def store (g : Group) (kind : TierKind) (key : String) (v : ByteArray) (expireAt : Option Instant)
    (now : Instant) : Group :=
  { g with cache := g.cache.setTier kind ((g.cache.tier kind).put key v expireAt now).1 }

def countBackfillError (g : Group) : Group :=
  { g with counters := { g.counters with backfillErrors := g.counters.backfillErrors + 1 } }

def countFetchError (g : Group) : Group :=
  { g with counters := { g.counters with peerFetchErrors := g.counters.peerFetchErrors + 1 } }

/-- The backfill has answered a load. -/
def settleBackfill (g : Group) (l : Load) (expireAt : Option Instant) (a : Answer) (now : Instant) :
    Group × Ending :=
  match a with
  | .value v => (g.store .main l.key v expireAt now, .returned (.ok v))
  | .missing => (g.countBackfillError, .returned (.error (.itemNotFound g.name l.key)))
  | .failed text => (g.countBackfillError, .returned (.error (.backfill g.name l.key text)))
  | .panicked => (g, .panicked)

/-- The owner has answered a load. -/
def settleFetch (g : Group) (l : Load) (expireAt : Option Instant) (e : Ending) (now : Instant) :
    Group × Ending :=
  match e with
  | .returned (.ok v) => (g.store .hot l.key v expireAt now, .returned (.ok v))
  | .returned (.error err) => (g.countFetchError, .returned (.error err))
  | .panicked => (g, .panicked)

/-- The load has ended. -/
def release (g : Group) (l : Load) : Group :=
  { g with coordinator := g.coordinator.drop g.name l.key l.number }

/-! ## Writing -/

/-- Stores a value in the main tier and drops a copy in the hot tier. -/
def setWith (g : Group) (key : String) (v : ByteArray) (e : Expiration) (now : Instant) : Group :=
  let g := { g with counters := { g.counters with sets := g.counters.sets + 1 } }
  let expireAt := e.resolve g.settings.itemExpiration now
  let g := { g with cache := { g.cache with hot := (g.cache.hot.remove key).1 } }
  g.store .main key v expireAt now

def set (g : Group) (key : String) (v : ByteArray) (now : Instant) : Group := g.setWith key v .default now

/-- Drops a key from both tiers; true if it was in one. -/
def removeLocal (g : Group) (key : String) : Group × Bool :=
  let g := { g with counters := { g.counters with removes := g.counters.removes + 1 } }
  let (cache, removed) := g.cache.remove key
  ({ g with cache }, removed)

def debugText (g : Group) : String :=
  "CacheGroup \x7b name: " ++ Text.quoted g.name ++ ", cache: " ++ g.cache.debugText ++ " \x7d"

end Group

end PeerCache
