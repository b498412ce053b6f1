import PeerCache.Hash
import PeerCache.Peer

/-!
# The hash ring

Which peer owns a key.  Every peer stands on the ring of 64-bit hashes at a number of points, its
virtual replicas; a key belongs to the first point at or clockwise after its hash, past the top
of the ring to the lowest point.

A ring is built from a set of peers: order and repetition in the given list do not matter
(`members`), and equal positions are ordered by address, then by replica (`Point.le`).

The share of a peer is the length of the arcs that end in its points; an arc begins after the
point before.  A ring with two or more peers and no points has no first arc to begin with, so the
share there is `none`.
-/

namespace PeerCache

/-! ## Algorithm -/

/-- Points per peer. -/
structure RingConfig where
  virtualReplicas : Nat
  deriving Repr, DecidableEq

namespace RingConfig

def defaultReplicas : Nat := 50

/-- Fewer points than this leave the shares badly skewed. -/
def minReplicas : Nat := 40

def standard : RingConfig := ⟨defaultReplicas⟩

def validate (c : RingConfig) : Except Error Unit :=
  if c.virtualReplicas < minReplicas then
    .error (.config ("virtual_replicas must be at least " ++ toString minReplicas ++ ", got " ++
      toString c.virtualReplicas))
  else .ok ()

end RingConfig

/-- A virtual replica of a peer at its place on the ring. -/
structure Point where
  position : UInt64
  peer : Peer
  replica : Nat
  deriving Repr, DecidableEq

namespace Point

/-- By position, then address, then replica. -/
def le (p q : Point) : Bool :=
  if p.position < q.position then true
  else if q.position < p.position then false
  else if p.peer.addr < q.peer.addr then true
  else if q.peer.addr < p.peer.addr then false
  else p.replica ≤ q.replica

end Point

/-- Peers strictly ordered by address, and their points in order. -/
structure Ring where
  peers : List Peer
  points : List Point
  virtualReplicas : Nat
  deriving Repr

namespace Ring

/-- The seed of every hash on the ring; all nodes share it. -/
def seed : UInt64 := 0x67726f7570636163

def hashKey (key : String) : UInt64 := Hash.ofText seed key

/-- A replica is hashed as the address, a colon and its number in eight bytes. -/
def hashReplica (peer : Peer) (replica : Nat) : UInt64 :=
  Hash.ofBytes seed (Text.bytes peer.addr ++ [58] ++ Hash.wordBytes (UInt64.ofNat replica))

/-- Puts a peer at its place in an ordered list, unless it is there. -/
def insertMember (p : Peer) : List Peer → List Peer
  | [] => [p]
  | q :: rest =>
    if p.addr < q.addr then p :: q :: rest
    else if p.addr = q.addr then q :: rest
    else q :: insertMember p rest

/-- The peers of a list, each once, in order of their addresses. -/
def members (peers : List Peer) : List Peer := peers.foldl (fun acc p => insertMember p acc) []

def placed (replicas : Nat) (peer : Peer) : List Point :=
  (List.range replicas).map fun m => ⟨hashReplica peer m, peer, m⟩

def build (peers : List Peer) (replicas : Nat) : Ring :=
  let ms := members peers
  ⟨ms, (ms.flatMap (placed replicas)).mergeSort Point.le, replicas⟩

/-- The point that a hash falls to: one on the hash itself (the last if there are several), else
the next one clockwise, else the lowest. -/
def pointAt? (points : List Point) (hash : UInt64) : Option Point :=
  let (upTo, above) := points.span fun p => p.position ≤ hash
  match upTo.getLast? with
  | some p => if p.position = hash then some p else above.head? <|> points.head?
  | none => points.head?

/-- The owner of a key; only a ring without points has none. -/
def lookup (r : Ring) (key : String) : Option Peer := (pointAt? r.points (hashKey key)).map (·.peer)

def contains (r : Ring) (peer : Peer) : Bool := r.peers.contains peer

def size (r : Ring) : Nat := r.points.length

def isEmpty (r : Ring) : Bool := r.points.isEmpty

/-- The number of hashes on the arcs that end in a point of `peer`, where the first arc begins
after `before`. -/
def arcs (peer : Peer) (before : UInt64) : List Point → Nat
  | [] => 0
  | p :: rest => (if p.peer = peer then (p.position - before).toNat else 0) + arcs peer p.position rest

/-- The number of all hashes. -/
def circle : Nat := 0x10000000000000000

/-- How many hashes a peer owns: none if it is no member, all if it is alone. -/
def share? (r : Ring) (peer : Peer) : Option Nat :=
  if !r.contains peer then some 0
  else if r.peers.length = 1 then some circle
  else r.points.getLast?.map fun last => arcs peer last.position r.points

/-- A share as a fraction of the ring, to the nearest double. -/
def fraction (share : Nat) : Float := Float.ofNat share / Float.ofNat circle

end Ring

/-- What is reported of a ring. -/
structure RingStats where
  peers : Nat
  virtualReplicas : Nat
  points : Nat
  /-- The share of the reporting node. -/
  share : Nat
  deriving Repr, DecidableEq

namespace Ring

def stats? (r : Ring) (localPeer : Peer) : Option RingStats :=
  (r.share? localPeer).map fun s => ⟨r.peers.length, r.virtualReplicas, r.points.length, s⟩

end Ring

end PeerCache
