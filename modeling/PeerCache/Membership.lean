import PeerCache.Ring
import PeerCache.Text.Printable
import PeerCache.Time.Instant

/-!
# Membership

One node's view of the cluster: its own address, its ring and the time it gives its peers.  The
node itself is always on its ring, and a peer list with one bad address changes nothing.
-/

namespace PeerCache

/-- How long a node waits for its peers. -/
structure Timeouts where
  fetchMillis : Nat := 2000
  broadcastMillis : Nat := 500
  deriving Repr, DecidableEq

structure Membership where
  localPeer : Peer
  ringConfig : RingConfig
  timeouts : Timeouts
  ring : Ring

namespace Membership

/-! ## Algorithm -/

/-- A cluster of one node. -/
def create (addr : String) (config : RingConfig) (timeouts : Timeouts) : Except Error Membership := do
  config.validate
  let p ← Peer.parse addr
  .ok ⟨p, config, timeouts, Ring.build [p] config.virtualReplicas⟩

/-- A cluster of one node with standard settings. -/
def standalone (addr : String) : Except Error Membership := create addr RingConfig.standard {}

/-- The given peers, with the node itself in any case. -/
def withLocal (m : Membership) (peers : List Peer) : List Peer :=
  if peers.contains m.localPeer then peers else peers ++ [m.localPeer]

/-- Replaces the peers; the first bad address is the error. -/
def setPeers (m : Membership) (addrs : List String) : Except Error Membership := do
  let peers ← addrs.mapM Peer.parse
  .ok { m with ring := Ring.build (m.withLocal peers) m.ringConfig.virtualReplicas }

def peers (m : Membership) : List Peer := m.ring.peers

def isLocal (m : Membership) (p : Peer) : Bool := p == m.localPeer

/-- The owner of a key; on a ring without points this node. -/
def ownerOf (m : Membership) (key : String) : Peer := (m.ring.lookup key).getD m.localPeer

/-- All peers but this node. -/
def others (m : Membership) : List Peer := m.ring.peers.filter fun p => !m.isLocal p

/-- A ring with points gives every peer a share; of any other nothing is owned. -/
def stats (m : Membership) : RingStats :=
  (m.ring.stats? m.localPeer).getD ⟨m.ring.peers.length, m.ring.virtualReplicas, 0, 0⟩

def debugText (m : Membership) : String :=
  "Cluster \x7b local: Peer \x7b addr: " ++ Text.quoted m.localPeer.addr ++ " \x7d, peers: " ++
    toString m.ring.peers.length ++ ", ring_config: RingConfig \x7b virtual_replicas: " ++
    toString m.ringConfig.virtualReplicas ++ " \x7d \x7d"

end Membership

end PeerCache
