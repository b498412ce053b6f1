import Mathlib
import PeerCache.Group.Basic

/-!
# Clusters in any order

Nodes that share a group, and everything that is under way between them, as a machine that can take
its steps in any order.  It is made of the steps of a group alone; what is left open is who moves
next, at what time, and what becomes of a message.

    a request    arrived → asking → looking → glancing → missed → waiting → answered
    a load       queued → asking | fetching → ended → released

A request may be answered early, by a refusal or by what a tier holds, and abandoned at any time.

A request of another node starts as arrived and has to be accepted; a get of a client starts as
asking.  A load that fetches sends its request to a node with the owner's address, where it is a
request like any other, and takes its answer, or ends as the transport says.  Requests and loads
stay in their lists for good; what changes is how far they have come.
-/

namespace PeerCache

/-- A node with its group. -/
structure Member where
  membership : Membership
  files : FileTree := FileTree.empty
  group : Group

inductive RequestPhase where
  /-- A request of another node that has not been accepted yet. -/
  | arrived
  | asking
  /-- The owner is settled for this get, whatever the ring is later. -/
  | looking (owner : Peer)
  /-- The hot tier has nothing, but the main tier may hold a value that was set. -/
  | glancing (owner : Peer)
  | missed (owner : Peer)
  | waiting (load : Nat)
  | answered (o : Outcome)
  | abandoned

namespace RequestPhase

/-- There is still somebody who waits for the answer. -/
def isOpen : RequestPhase → Bool
  | answered _ | abandoned => false
  | _ => true

end RequestPhase

/-- A get of a client, or a request of another node, at a node. -/
structure Request where
  host : Nat
  key : String
  fromPeer : Bool
  phase : RequestPhase

inductive LoadPhase where
  | queued
  | asking (source : Backfill) (expireAt : Option Instant)
  /-- The owner is asked; `request` is the request at a node, once it has got there. -/
  | fetching (owner : Peer) (expireAt : Option Instant) (request : Option Nat)
  /-- The outcome is there, and so is the flight. -/
  | ended (e : Ending)
  | released (e : Ending)

structure LoadTask where
  host : Nat
  load : Load
  phase : LoadPhase := .queued

structure Cluster where
  members : List Member
  requests : List Request := []
  loads : List LoadTask := []
  /-- Removals on their way: the peer that is told, and the key. -/
  removals : List (Peer × String) := []

namespace Member

/-! ## Steps at a node -/

/-- The next step of a request: the group after it, how far it has come, and a load that starts. -/
def advance? (m : Member) (q : Request) (now : Instant) :
    Option (Group × RequestPhase × Option Load) :=
  match q.phase with
  | .arrived =>
    match m.group.accept m.membership q.key with
    | (g, none) => some (g, .asking, none)
    | (g, some e) => some (g, .answered (.error e), none)
  | .asking => some (m.group.countGet, .looking (m.membership.ownerOf q.key), none)
  | .looking owner =>
    match m.group.probe (Group.home (m.membership.isLocal owner)) q.key now with
    | (g, some v) => some (g.countHit, .answered (.ok v), none)
    | (g, none) =>
      if m.membership.isLocal owner then some (g.countMiss, .missed owner, none)
      else some (g, .glancing owner, none)
  | .glancing owner =>
    match m.group.glance q.key now with
    | some v => some (m.group.countHit, .answered (.ok v), none)
    | none => some (m.group.countMiss, .missed owner, none)
  | .missed owner =>
    match m.group.join q.key owner with
    | (g, .answer o) => some (g, .answered o, none)
    | (g, .waiting n started) => some (g, .waiting n, started)
  | _ => none

/-- The next step of a load, unless it waits for another node. -/
def work? (m : Member) (t : LoadTask) (now : Instant) : Option (Group × LoadPhase) :=
  match t.phase with
  | .queued =>
    match m.group.beginLoad m.membership t.load now with
    | (g, .ended e) => some (g, .ended e)
    | (g, .ask source expireAt) => some (g, .asking source expireAt)
    | (g, .fetch owner expireAt) => some (g, .fetching owner expireAt none)
  | .asking source expireAt =>
    let (g, e) := m.group.settleBackfill t.load expireAt (source.fetch m.files t.load.key) now
    some (g, .ended e)
  | .ended e => some (m.group.release t.load, .released e)
  | _ => none

/-- A load whose fetch has ended. -/
def settle? (m : Member) (t : LoadTask) (e : Ending) (now : Instant) : Option (Group × LoadPhase) :=
  match t.phase with
  | .fetching _ expireAt _ =>
    let (g, e) := m.group.settleFetch t.load expireAt e now
    some (g, .ended e)
  | _ => none

/-- Registers the group again; a configuration that is refused, or of another group, changes nothing. -/
def register (m : Member) (c : GroupConfig) (now : Instant) : Member :=
  match c.validate with
  | .ok _ => if c.name == m.group.name then { m with group := m.group.reconfigure c now } else m
  | .error _ => m

/-- A peer list with a bad address changes nothing. -/
def setPeers (m : Member) (addrs : List String) : Member :=
  match m.membership.setPeers addrs with
  | .ok membership => { m with membership }
  | .error _ => m

end Member

namespace Cluster

/-! ## Parts of a cluster -/

def setGroup (s : Cluster) (i : Nat) (g : Group) : Cluster :=
  { s with members := s.members.modify i fun m => { m with group := g } }

def setRequest (s : Cluster) (r : Nat) (p : RequestPhase) : Cluster :=
  { s with requests := s.requests.modify r fun q => { q with phase := p } }

def setLoad (s : Cluster) (n : Nat) (p : LoadPhase) : Cluster :=
  { s with loads := s.loads.modify n fun t => { t with phase := p } }

def addRequest (s : Cluster) (q : Request) : Cluster := { s with requests := s.requests ++ [q] }

def addLoad (s : Cluster) (t : LoadTask) : Cluster := { s with loads := s.loads ++ [t] }

/-- The load that has a number at a node. -/
def loadOf? (s : Cluster) (host number : Nat) : Option LoadTask :=
  s.loads.find? fun t => t.host == host && t.load.number == number

/-! ## Steps -/

def advance? (s : Cluster) (r : Nat) (now : Instant) : Option Cluster := do
  let q ← s.requests[r]?
  let m ← s.members[q.host]?
  let (g, p, started) ← m.advance? q now
  let s := (s.setGroup q.host g).setRequest r p
  some (match started with
    | some l => s.addLoad { host := q.host, load := l }
    | none => s)

/-- A request that waits for a load that is released gets its outcome. -/
def hear? (s : Cluster) (r : Nat) : Option Cluster := do
  let q ← s.requests[r]?
  match q.phase with
  | .waiting n =>
    let m ← s.members[q.host]?
    let t ← s.loadOf? q.host n
    match t.phase with
    | .released e => some (s.setRequest r (.answered (e.outcome m.group.name t.load.key)))
    | _ => none
  | _ => none

def abandon? (s : Cluster) (r : Nat) : Option Cluster := do
  let q ← s.requests[r]?
  if q.phase.isOpen then some (s.setRequest r .abandoned) else none

def work? (s : Cluster) (n : Nat) (now : Instant) : Option Cluster := do
  let t ← s.loads[n]?
  let m ← s.members[t.host]?
  let (g, p) ← m.work? t now
  some ((s.setGroup t.host g).setLoad n p)

/-- The request of a load reaches a node with the owner's address. -/
def deliver? (s : Cluster) (n j : Nat) : Option Cluster := do
  let t ← s.loads[n]?
  let m ← s.members[j]?
  match t.phase with
  | .fetching owner expireAt none =>
    if m.membership.isLocal owner then
      some ((s.setLoad n (.fetching owner expireAt (some s.requests.length))).addRequest
        ⟨j, t.load.key, true, .arrived⟩)
    else none
  | _ => none

/-- The fetch of a load ends. -/
def endFetch? (s : Cluster) (n : Nat) (e : Ending) (now : Instant) : Option Cluster := do
  let t ← s.loads[n]?
  let m ← s.members[t.host]?
  let (g, p) ← m.settle? t e now
  some ((s.setGroup t.host g).setLoad n p)

/-- The answer to the request of a load reaches it, unchanged. -/
def respond? (s : Cluster) (n : Nat) (now : Instant) : Option Cluster := do
  let t ← s.loads[n]?
  match t.phase with
  | .fetching _ _ (some r) =>
    let q ← s.requests[r]?
    match q.phase with
    | .answered o => s.endFetch? n (.returned o) now
    | _ => none
  | _ => none

def removeLocal? (s : Cluster) (i : Nat) (key : String) : Option Cluster := do
  let m ← s.members[i]?
  some (s.setGroup i (m.group.removeLocal key).1)

/-- A removal that all other peers of the node are told of. -/
def remove? (s : Cluster) (i : Nat) (key : String) : Option Cluster := do
  let m ← s.members[i]?
  let s ← s.removeLocal? i key
  some { s with removals := s.removals ++ m.membership.others.map fun p => (p, key) }

/-- A removal reaches a node with the address of the peer that is told. -/
def deliverRemoval? (s : Cluster) (d j : Nat) : Option Cluster := do
  let (p, key) ← s.removals[d]?
  let m ← s.members[j]?
  if m.membership.isLocal p then ({ s with removals := s.removals.eraseIdx d }).removeLocal? j key
  else none

def set? (s : Cluster) (i : Nat) (key : String) (v : ByteArray) (e : Expiration) (now : Instant) :
    Option Cluster := do
  let m ← s.members[i]?
  some (s.setGroup i (m.group.setWith key v e now))

inductive Event where
  /-- A client asks a node for a key. -/
  | get (host : Nat) (key : String)
  /-- Another peer, of this cluster or not, asks a node for a key. -/
  | serve (host : Nat) (key : String)
  | advance (request : Nat) (now : Instant)
  | hear (request : Nat)
  | abandon (request : Nat)
  | work (load : Nat) (now : Instant)
  | deliver (load host : Nat)
  | respond (load : Nat) (now : Instant)
  /-- A fetch ends by other means than the answer of a node of the cluster. -/
  | endFetch (load : Nat) (e : Ending) (now : Instant)
  | remove (host : Nat) (key : String)
  | removeLocal (host : Nat) (key : String)
  | deliverRemoval (removal host : Nat)
  | loseRemoval (removal : Nat)
  | set (host : Nat) (key : String) (v : ByteArray) (e : Expiration) (now : Instant)
  | setPeers (host : Nat) (addrs : List String)
  | register (host : Nat) (c : GroupConfig) (now : Instant)

/-- One step; nothing if it is not possible. -/
def step? (s : Cluster) : Event → Option Cluster
  | .get i key => some (s.addRequest ⟨i, key, false, .asking⟩)
  | .serve i key => some (s.addRequest ⟨i, key, true, .arrived⟩)
  | .advance r now => s.advance? r now
  | .hear r => s.hear? r
  | .abandon r => s.abandon? r
  | .work n now => s.work? n now
  | .deliver n j => s.deliver? n j
  | .respond n now => s.respond? n now
  | .endFetch n e now => s.endFetch? n e now
  | .remove i key => s.remove? i key
  | .removeLocal i key => s.removeLocal? i key
  | .deliverRemoval d j => s.deliverRemoval? d j
  | .loseRemoval d => some { s with removals := s.removals.eraseIdx d }
  | .set i key v e now => s.set? i key v e now
  | .setPeers i addrs => some { s with members := s.members.modify i (·.setPeers addrs) }
  | .register i c now => some { s with members := s.members.modify i (·.register c now) }

/-- A step that is not possible changes nothing. -/
def run (s : Cluster) (es : List Event) : Cluster := es.foldl (fun s e => (s.step? e).getD s) s

end Cluster

/-- A node before anything has happened: its view of the ring, its files, its group's configuration. -/
structure Founder where
  membership : Membership
  files : FileTree := FileTree.empty
  config : GroupConfig

namespace Cluster

/-- Nodes with empty groups, and nothing under way. -/
def start (founders : List Founder) : Cluster :=
  { members := founders.map fun h => ⟨h.membership, h.files, Group.create h.config⟩ }

end Cluster

end PeerCache
