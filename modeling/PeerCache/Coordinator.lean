/-!
# The coordinator

Merges concurrent loads of one key.  While a load of a key runs there is a flight for it; a caller
who asks meanwhile joins the flight instead of starting a load of its own (`join`), and the flight
is dropped when the load ends (`drop`), so that the next caller starts afresh.

Loads are numbered in the order in which they start.  A load only drops its own flight.
-/

namespace PeerCache

/-- A load in progress, and how many callers have asked for it. -/
structure Flight where
  load : Nat
  group : String
  key : String
  waiters : Nat
  deriving Repr, DecidableEq

/-- What a caller is told: the load it waits for, and whether it has to start it. -/
structure Ticket where
  load : Nat
  starts : Bool
  deriving Repr, DecidableEq

structure CoordinatorStats where
  /-- Loads running now. -/
  inFlight : Nat
  /-- Loads started. -/
  loads : Nat
  /-- Callers who joined a load that another had started. -/
  coalesced : Nat
  deriving Repr, DecidableEq

structure Coordinator where
  flights : List Flight := []
  nextLoad : Nat := 0
  loads : Nat := 0
  coalesced : Nat := 0
  deriving Repr, DecidableEq

namespace Flight

def isFor (f : Flight) (group key : String) : Bool := f.group == group && f.key == key

end Flight

namespace Coordinator

/-! ## Algorithm -/

def flight? (c : Coordinator) (group key : String) : Option Flight :=
  c.flights.find? (·.isFor group key)

/-- Counts one more caller of a flight. -/
def countWaiter (group key : String) (f : Flight) : Flight :=
  if f.isFor group key then { f with waiters := f.waiters + 1 } else f

/-- Joins the flight of a key, or starts one. -/
def join (c : Coordinator) (group key : String) : Coordinator × Ticket :=
  match c.flight? group key with
  | some f =>
    ({ c with flights := c.flights.map (countWaiter group key), coalesced := c.coalesced + 1 },
      ⟨f.load, false⟩)
  | none =>
    ({ c with flights := ⟨c.nextLoad, group, key, 1⟩ :: c.flights, nextLoad := c.nextLoad + 1,
              loads := c.loads + 1 }, ⟨c.nextLoad, true⟩)

/-- Drops the flight of a key if it belongs to this load. -/
def drop (c : Coordinator) (group key : String) (load : Nat) : Coordinator :=
  { c with flights := c.flights.filter fun f => !(f.isFor group key && f.load == load) }

/-- Callers that have asked for the load of a key, if one is running. -/
def waiters? (c : Coordinator) (group key : String) : Option Nat :=
  (c.flight? group key).map (·.waiters)

def inFlight (c : Coordinator) : Nat := c.flights.length

def stats (c : Coordinator) : CoordinatorStats := ⟨c.inFlight, c.loads, c.coalesced⟩

def debugText (c : Coordinator) : String :=
  "RequestCoordinator \x7b stats: CoordinatorStats \x7b in_flight: " ++ toString c.inFlight ++
    ", loads: " ++ toString c.loads ++ ", coalesced: " ++ toString c.coalesced ++ " \x7d \x7d"

end Coordinator

end PeerCache
