import PeerCache.Node.Server

/-!
# Networks of nodes

Several nodes, the peers that are no nodes of the network, and everything under way between them.
What happens is a sequence of small steps; what can go on stands in a queue, first come, first
served, and what waits stands in two lists:

    queue       tasks that can go on: loads that begin, requests on their way, responses
    exchanges   requests that have not been answered, each with its deadline
    waiting     callers and exchanges that wait for a load of a node

A call is something begun from outside, known by its number.  It is settled when nothing is under
way on its behalf (`isSettled`); what came of it is in `results`.

The clock counts milliseconds and moves only when nothing else can (`Network/Run`).
-/

namespace PeerCache

/-- What stands at an address where no node of the network is. -/
inductive Stranger where
  | answers (r : Http.Response)
  /-- Takes the request and never answers. -/
  | silent
  | absent

/-- What a scripted peer does with a fetch. -/
inductive Scripted where
  | ends (e : Ending)
  | silent

/-- How a node reaches its peers. -/
inductive Transport where
  /-- Peers answer from a script, at once. -/
  | scripted (script : PeerRequest → Scripted)
  | http

/-- A node in its place. -/
structure Host where
  node : Node
  transport : Transport
  /-- The node takes requests. -/
  listening : Bool

/-- On whose behalf an exchange is made, and what its end means. -/
inductive Errand where
  /-- A load of a node fetches from the owner. -/
  | load (host : Nat) (group : String) (load : Load) (expireAt : Option Instant)
  | fetch (call : Nat)
  | remove (call : Nat)
  /-- A removal whose end nobody asks about. -/
  | notify (call : Nat)
  | request (call : Nat)

namespace Errand

/-- The call that waits for the end of the exchange itself. -/
def call? : Errand → Option Nat
  | load .. => none
  | fetch c | remove c | notify c | request c => some c

end Errand

/-- What an exchange asks, and whom. -/
inductive Message where
  | peer (q : PeerRequest) (transport : Transport)
  | client (host : Nat) (r : Http.Request)

structure Exchange where
  id : Nat
  message : Message
  errand : Errand
  /-- How long the sender waits, in milliseconds. -/
  patience : Option Nat
  deadline : Option Nat

/-- Who waits for a load. -/
inductive Waiter where
  | call (number : Nat)
  | exchange (id : Nat)
  deriving DecidableEq

structure Waiting where
  host : Nat
  group : String
  load : Nat
  who : Waiter

inductive Task where
  | load (host : Nat) (group : String) (l : Load)
  | send (exchange : Nat)
  | serve (exchange : Nat)
  | receive (exchange : Nat) (a : Arrival)

/-- What came of a call. -/
inductive Result where
  | outcome (o : Outcome)
  | removed (r : Except Error Unit)
  | arrival (a : Arrival)

structure Network where
  hosts : List Host
  strangers : String → Stranger := fun _ => .absent
  clock : Nat := 0
  queue : List Task := []
  exchanges : List Exchange := []
  waiting : List Waiting := []
  results : List (Nat × Result) := []
  /-- A line for each request to a peer, the last one first. -/
  log : List String := []
  /-- The next number of a call or an exchange. -/
  next : Nat := 0

namespace Network

/-! ## Hosts -/

def host? (net : Network) (i : Nat) : Option Host := net.hosts[i]?

def node? (net : Network) (i : Nat) : Option Node := (net.host? i).map (·.node)

def setNode (net : Network) (i : Nat) (n : Node) : Network :=
  { net with hosts := net.hosts.modify i fun h => { h with node := n } }

def mapNode (net : Network) (i : Nat) (f : Node → Node) : Network :=
  { net with hosts := net.hosts.modify i fun h => { h with node := f h.node } }

/-- The host that listens at an address. -/
def listenerAt? (net : Network) (addr : String) : Option Nat :=
  net.hosts.findIdx? fun h => h.listening && h.node.membership.localPeer.addr == addr

/-- Whether an address is a node's, listening or not. -/
def isNodeAddress (net : Network) (addr : String) : Bool :=
  net.hosts.any fun h => h.node.membership.localPeer.addr == addr

/-! ## Calls -/

def newNumber (net : Network) : Network × Nat := ({ net with next := net.next + 1 }, net.next)

def post (net : Network) (t : Task) : Network := { net with queue := net.queue ++ [t] }

def record (net : Network) (call : Nat) (r : Result) : Network :=
  { net with results := net.results ++ [(call, r)] }

def result? (net : Network) (call : Nat) : Option Result := net.results.lookup call

/-- Nothing is under way on behalf of a call. -/
def isSettled (net : Network) (call : Nat) : Bool :=
  !net.waiting.any (fun w => w.who == .call call) &&
    !net.exchanges.any fun x => x.errand.call? == some call

def note (net : Network) (line : String) : Network := { net with log := line :: net.log }

/-- The lines of the log in order of their text, and an empty log. -/
def takeLog (net : Network) : Network × List String :=
  ({ net with log := [] }, net.log.mergeSort fun a b => !(b < a))

/-! ## Exchanges -/

def exchange? (net : Network) (id : Nat) : Option Exchange := net.exchanges.find? (·.id == id)

/-- Registers an exchange whose sender is patient for so long. -/
def openExchange (net : Network) (m : Message) (e : Errand) (patience : Option Nat) : Network × Nat :=
  let (net, id) := net.newNumber
  ({ net with
     exchanges := net.exchanges ++ [⟨id, m, e, patience, patience.map (net.clock + ·)⟩] }, id)

def closeExchange (net : Network) (id : Nat) : Network :=
  { net with exchanges := net.exchanges.filter (·.id != id) }

/-- The exchange whose deadline comes first. -/
def earliest? : List Exchange → Option (Nat × Exchange)
  | [] => none
  | x :: rest =>
    match x.deadline, earliest? rest with
    | none, r => r
    | some d, none => some (d, x)
    | some d, some (d', y) => if d ≤ d' then some (d, x) else some (d', y)

end Network

end PeerCache
