import PeerCache.Network.Run

/-!
# Calls from outside

What can be begun in a network: reading and removing through a node, asking a peer directly, and
requests of clients.  Each of them returns the number of a call, to be settled and looked up; a
read that is answered at once has its result already.
-/

namespace PeerCache.Network

/-! ## Through a node -/

/-- Begins something with a node that may have to wait for a load. -/
def begin (net : Network) (i : Nat) (group : String) (f : Node → Node × Begun) : Network × Nat :=
  let (net, call) := net.newNumber
  match net.node? i with
  | none => (net, call)
  | some n =>
    let (n, b) := f n
    ((net.setNode i n).attend i group (.call call) b, call)

def get (net : Network) (now : Instant) (i : Nat) (group key : String) : Network × Nat :=
  net.begin i group fun n => n.get group key now

def servePeer (net : Network) (now : Instant) (i : Nat) (group key : String) : Network × Nat :=
  net.begin i group fun n => n.servePeer group key now

/-- Tells the audience of a node to drop a key of some group. -/
def broadcast (net : Network) (i : Nat) (group key : String) : Network × Nat :=
  let (net, call) := net.newNumber
  (net.tell i call group key, call)

/-- Drops a key from a node, and tells its audience; true if the node held it. -/
def remove (net : Network) (i : Nat) (group key : String) : Except Error (Network × Nat × Bool) := do
  match net.node? i with
  | none => .error (.cacheNotFound group)
  | some n =>
    let g ← n.registry.get group
    let (g, held) := g.removeLocal key
    let (net, call) := (net.setNode i (n.putGroup g)).broadcast i group key
    .ok (net, call, held)

/-! ## To a peer -/

/-- Sends a request to a peer at once. -/
def ask (net : Network) (now : Instant) (q : PeerRequest) (t : Transport) (patience : Nat)
    (errand : Nat → Errand) : Network × Nat :=
  let (net, call) := net.newNumber
  let (net, id) := net.openExchange (.peer q t) (errand call) (some patience)
  match net.exchange? id with
  | some x => (net.send now x, call)
  | none => (net, call)

/-- A fetch as the loads of a node make it. -/
def fetchFrom (net : Network) (now : Instant) (i : Nat) (peer : Peer) (group key : String) :
    Network × Nat :=
  match net.host? i with
  | none => net.newNumber
  | some h =>
    net.ask now ⟨.fetch, peer, group, key⟩ h.transport h.node.membership.timeouts.fetchMillis .fetch

/-- A fetch or a removal by a client of its own. -/
def askOutside (net : Network) (now : Instant) (q : PeerRequest) (patience : Nat) : Network × Nat :=
  net.ask now q .http patience (match q.verb with
    | .fetch => .fetch
    | .remove => .remove)

/-! ## Of clients -/

/-- Sends a client's request to a node. -/
def request (net : Network) (i : Nat) (r : Http.Request) : Network × Nat :=
  let (net, call) := net.newNumber
  let (net, id) := net.openExchange (.client i r) (.request call) none
  (net.post (.serve id), call)

/-- The response to a call, if there was one. -/
def response? (net : Network) (call : Nat) : Option Http.Response :=
  match net.result? call with
  | some (.arrival (.response r)) => some r
  | _ => none

/-- Shuts a node down while a request is on its way: that is answered, and nothing after it. -/
def shutdown (net : Network) (now : Instant) (i : Nat) (pending : Http.Request) :
    Network × Option Http.Response :=
  let net := net.mapNode i fun n => { n with draining := true }
  let (net, call) := net.request i pending
  let net := net.settle now call
  ({ net with hosts := net.hosts.modify i fun h => { h with listening := false } }, net.response? call)

end PeerCache.Network
