import PeerCache.Registry

/-!
# Nodes

One member of the cluster: its view of the ring, its groups, and the files its groups may read.
What a node does with a group goes through the group's name; a name without a group is an error.
-/

namespace PeerCache

structure Node where
  membership : Membership
  registry : Registry := {}
  files : FileTree := FileTree.empty
  /-- The node is shutting down: it answers what has begun and takes nothing new. -/
  draining : Bool := false

namespace Node

/-! ## Groups by name -/

/-- Puts a changed group back. -/
def putGroup (n : Node) (g : Group) : Node := { n with registry := n.registry.update g }

/-- Applies a change to the group of a name, if there is one. -/
def mapGroup (n : Node) (name : String) (f : Group → Group) : Node :=
  { n with registry := n.registry.modify name f }

/-- Does something with the group of a name. -/
def withGroup {α : Type} (n : Node) (name : String) (f : Group → Group × α) : Node × Except Error α :=
  match n.registry.get name with
  | .ok g =>
    let (g, a) := f g
    (n.putGroup g, .ok a)
  | .error e => (n, .error e)

/-- How far something with a group comes; without the group it is at its end. -/
def begin (n : Node) (name : String) (f : Group → Group × Begun) : Node × Begun :=
  match n.withGroup name f with
  | (n, .ok b) => (n, b)
  | (n, .error e) => (n, .answer (.error e))

def get (n : Node) (group key : String) (now : Instant) : Node × Begun :=
  n.begin group fun g => g.get n.membership key now

def servePeer (n : Node) (group key : String) (now : Instant) : Node × Begun :=
  n.begin group fun g => g.servePeer n.membership key now

def setPeers (n : Node) (addrs : List String) : Except Error Node := do
  .ok { n with membership := ← n.membership.setPeers addrs }

def add (n : Node) (c : GroupConfig) (now : Instant) : Except Error Node := do
  .ok { n with registry := ← n.registry.add c now }

/-- The peers that are told to drop a key. -/
def audience (n : Node) : List Peer := n.membership.others

end Node

end PeerCache
