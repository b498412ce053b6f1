import Mathlib
import PeerCache.Proofs.Group.Steps

/-!
# The traffic of a group

A group with everybody who has ever asked it for a key, and every load it has ever started, as a machine
that takes its steps in any order.  A get is one step up to its answer or to where it waits; a load takes
three, and the group may do anything between them.

    a call      waiting → received | abandoned
    a load      queued → asking | fetching → ended → released, or queued → ended → released

Each step that reads the ring has a membership of its own, so the ring may be another one each time, and a
request of another peer may be accepted under one ring (`Event.accept`) and go on as a get under the next.
What a source or a peer answers is open.  Calls and loads stay in their lists for good.
-/

namespace PeerCache

/-- Where a load can turn to for a value. -/
inductive Source where
  | backfill
  | owner
  deriving DecidableEq

/-- How far a load has come.  One that ends at once has turned to no source: the main tier has the value
after all, or there is no backfill. -/
inductive Course where
  | queued
  | asking (expireAt : Option Instant)
  | fetching (expireAt : Option Instant)
  | ended (source : Option Source) (e : Ending)
  | released (source : Option Source) (e : Ending)

namespace Course

def source? : Course → Option Source
  | queued => none
  | asking _ => some .backfill
  | fetching _ => some .owner
  | ended x _ | released x _ => x

def ending? : Course → Option Ending
  | ended _ e | released _ e => some e
  | _ => none

def isReleased : Course → Bool
  | released .. => true
  | _ => false

end Course

/-- A load with how far it has come. -/
structure GroupLoad where
  load : Load
  course : Course := .queued

/-- What can happen to a load. -/
inductive Turn where
  | begin (m : Membership) (now : Instant)
  | answered (a : Answer) (now : Instant)
  | fetched (e : Ending) (now : Instant)
  | release

namespace GroupLoad

/-- The next step of a load: the group after it, and how far the load has come. -/
def advance? (t : GroupLoad) (g : Group) (turn : Turn) : Option (Group × Course) :=
  match t.course, turn with
  | .queued, .begin m now =>
    match g.beginLoad m t.load now with
    | (g, .ended e) => some (g, .ended none e)
    | (g, .ask _ expireAt) => some (g, .asking expireAt)
    | (g, .fetch _ expireAt) => some (g, .fetching expireAt)
  | .asking expireAt, .answered a now =>
    let (g, e) := g.settleBackfill t.load expireAt a now
    some (g, .ended (some .backfill) e)
  | .fetching expireAt, .fetched e now =>
    let (g, e) := g.settleFetch t.load expireAt e now
    some (g, .ended (some .owner) e)
  | .ended x e, .release => some (g.release t.load, .released x e)
  | _, _ => none

/-- What callers of the load are told; nothing before it is released. -/
def outcome? (t : GroupLoad) (group : String) : Option Outcome :=
  match t.course with
  | .released _ e => some (e.outcome group t.load.key)
  | _ => none

end GroupLoad

structure Traffic where
  group : Group
  /-- All loads ever started, by their numbers. -/
  loads : List GroupLoad := []
  /-- All calls that have ever waited for a load. -/
  calls : List Call := []

namespace Traffic

/-! ## Steps -/

inductive Event where
  | get (caller : String) (m : Membership) (key : String) (now : Instant)
  /-- A request of another peer. -/
  | serve (caller : String) (m : Membership) (key : String) (now : Instant)
  /-- Its first part alone; what follows, unless it is refused, is a get. -/
  | accept (m : Membership) (key : String)
  | turn (load : Nat) (turn : Turn)
  | receive (call : Nat)
  | giveUp (call : Nat)
  | set (key : String) (v : ByteArray) (e : Expiration) (now : Instant)
  | remove (key : String)
  | reconfigure (c : GroupConfig) (now : Instant)

/-- The same loads and calls at a group that has changed. -/
def on (s : Traffic) (g : Group) : Traffic := { s with group := g }

/-- What a get leaves behind: a call that waits, perhaps for a new load, or nothing. -/
def enter (s : Traffic) (caller key : String) : Group × Begun → Traffic
  | (g, .answer _) => s.on g
  | (g, .waiting n started) =>
    { group := g
      loads := s.loads ++ (started.map fun l => (⟨l, .queued⟩ : GroupLoad)).toList
      calls := s.calls ++ [⟨caller, g.name, key, n, .waiting⟩] }

/-- A load takes its turn; nothing if it is not its turn. -/
def advance (s : Traffic) (n : Nat) (turn : Turn) : Traffic :=
  match s.loads[n]?.bind fun t => t.advance? s.group turn with
  | some (g, c) => { s.on g with loads := s.loads.modify n fun t => { t with course := c } }
  | none => s

def outcomeOf? (s : Traffic) (n : Nat) : Option Outcome := s.loads[n]?.bind (·.outcome? s.group.name)

def step (s : Traffic) : Event → Traffic
  | .get caller m key now => s.enter caller key (s.group.get m key now)
  | .serve caller m key now => s.enter caller key (s.group.servePeer m key now)
  | .accept m key => s.on (s.group.accept m key).1
  | .turn n turn => s.advance n turn
  | .receive i => { s with calls := s.calls.modify i fun c => c.hear (s.outcomeOf? c.load) }
  | .giveUp i => { s with calls := s.calls.modify i (·.giveUp) }
  | .set key v e now => s.on (s.group.setWith key v e now)
  | .remove key => s.on (s.group.removeLocal key).1
  | .reconfigure c now => s.on (s.group.reconfigure c now)

def run (s : Traffic) (es : List Event) : Traffic := es.foldl step s

/-- A new group, which nobody has asked for anything. -/
def start (c : GroupConfig) : Traffic := { group := Group.create c }

variable {s : Traffic}

/-! ## What a step can do -/

/-- A load that takes its turn. -/
theorem advance_cases (s : Traffic) (n : Nat) (turn : Turn) :
    s.advance n turn = s ∨ ∃ t g c, s.loads[n]? = some t ∧ t.advance? s.group turn = some (g, c) ∧
      s.advance n turn = { s.on g with loads := s.loads.modify n fun t => { t with course := c } } := by
  unfold advance
  cases ht : s.loads[n]? with
  | none => exact .inl rfl
  | some t =>
    cases hc : t.advance? s.group turn with
    | none => exact .inl (by simp only [Option.bind_some, hc])
    | some p => exact .inr ⟨t, p.1, p.2, rfl, hc, by simp only [Option.bind_some, hc]⟩

/-- A get does not depend on the group that the machine has otherwise. -/
theorem enter_on (s : Traffic) (g : Group) (caller key : String) (r : Group × Begun) :
    (s.on g).enter caller key r = s.enter caller key r := by
  rcases r with ⟨h, o | ⟨n, started⟩⟩
  · rfl
  · rfl

/-- A request of another peer is accepted, and refused or a get. -/
theorem step_serve (s : Traffic) (caller : String) (m : Membership) (key : String) (now : Instant) :
    s.step (.serve caller m key now) = s.step (.accept m key) ∨
      s.step (.serve caller m key now) = (s.step (.accept m key)).step (.get caller m key now) := by
  show s.enter caller key (s.group.servePeer m key now) = _ ∨ s.enter caller key (s.group.servePeer m key now) = _
  rw [Group.servePeer_eq]
  cases (s.group.accept m key).2 with
  | none => exact .inr (s.enter_on _ caller key _).symm
  | some e => exact .inl rfl

end Traffic

end PeerCache
