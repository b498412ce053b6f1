import PeerCache.CommandLine.LogFilter
import PeerCache.CommandLine.Options
import PeerCache.GroupsFile
import PeerCache.Node
import PeerCache.SocketAddress

/-!
# Starting a node

From options to a node that listens, with the log of it, and from a whole command line to what is
seen of the process: its exit code, its log, and what it prints besides.

A start goes in this order, and the first error ends it: the ring, the node's own address, its
peers, its groups, the address to listen on.
-/

namespace PeerCache.CommandLine

/-- The target of the program's log records. -/
def logTarget : String := "groupcached"

/-- A node, and the address it listens on. -/
structure Started where
  node : Node
  address : SocketAddress

/-- What stands in the log before anything is tried. -/
def greeting (o : Options) : List String :=
  ["Starting groupcache node", "  Listen address: " ++ o.listen, "  Self address: " ++ o.selfAddr,
    "  Virtual replicas: " ++ toString o.virtualReplicas,
    "  Fetch timeout: " ++ toString o.fetchMillis ++ "ms"]

/-- Stands in the log when the node is told to stop. -/
def interruption : String := "Shutdown signal received"

/-- Stands in the log when all that had begun is answered. -/
def completion : String := "Node shutdown complete"

def membership (o : Options) : Except Error Membership := do
  let m ← Membership.create o.selfAddr ⟨o.virtualReplicas⟩ ⟨o.fetchMillis, o.broadcastMillis⟩
  m.setPeers o.peers

/-- The node with the groups of its file, and a line about them. -/
def withGroups (n : Node) (file : Option String) (read : String → Except ReadFault ByteArray)
    (now : Instant) : Except Error (Node × String) := do
  match file with
  | none => .ok (n, "No groups file given; serving no groups")
  | some path =>
    match GroupsFile.ofContent path (read path) with
    | .error f => .error f.error
    | .ok f =>
      let n ← (← f.toConfigs).foldlM (fun n c => n.add c now) n
      .ok (n, "Loaded " ++ toString n.registry.size ++ " groups from " ++ path)

/-- Prepares a node, up to the address it is to listen on: the log so far, and the node or an
error. -/
def prepare (o : Options) (read : String → Except ReadFault ByteArray) (now : Instant) :
    List String × Except Error Started :=
  let log := greeting o
  match membership o with
  | .error e => (log, .error e)
  | .ok m =>
    let log := log ++ ["Cluster has " ++ toString m.peers.length ++ " peers"]
    match withGroups { membership := m } o.groupsFile read now with
    | .error e => (log, .error e)
    | .ok (n, line) =>
      let log := log ++ [line]
      (log, (SocketAddress.parse o.listen).map (Started.mk n))

/-- Starts a node: it is prepared and listens. -/
def start (o : Options) (read : String → Except ReadFault ByteArray) (now : Instant) :
    List String × Except Error Started :=
  let (log, prepared) := prepare o read now
  (log, do
    let s ← prepared
    s.address.listen
    .ok s)

/-! ## What is printed -/

/-- A text of an error that is no message: the cause and its parts. -/
def causeText : Error → String
  | .nameRequired => "NameRequired"
  | .invalidPeer addr reason =>
    "InvalidPeer \x7b addr: " ++ Text.quoted addr ++ ", reason: " ++ Text.quoted reason ++ " \x7d"
  | .config text => "Config(" ++ Text.quoted text ++ ")"
  | .internal text => "Internal(" ++ Text.quoted text ++ ")"
  | e => e.message

def failureLine (e : Error) : String := "Error: " ++ causeText e

def versionLine : String := "groupcache 0.1.0"

def description : String :=
  "Distributed read-through cache groups with consistent hashing and request coalescing"

/-- What is seen of a process. -/
structure Run where
  exit : Nat
  /-- Log records, all of the level `info`. -/
  log : List String := []
  /-- Lines of standard output that are no log records. -/
  output : List String := []
  errors : List String := []
  deriving Repr, DecidableEq

/-- A command line that does not start a node. -/
def Stop.run : Stop → Run
  | help => { exit := 0, output := [description] }
  | version => { exit := 0, output := [versionLine] }
  | fault f => { exit := 2, errors := ["error: " ++ f.message] }

/-- A process that is told to stop as soon as it listens. -/
def run (arguments : List String) (lookup : String → Option String)
    (read : String → Except ReadFault ByteArray) (now : Instant) : Run :=
  match Options.read arguments lookup with
  | .error s => s.run
  | .ok o =>
    let setting := (lookup "RUST_LOG").getD ""
    let shown (lines : List String) : List String :=
      if LogFilter.shows o.logLevel setting .info logTarget then lines else []
    let complaints := LogFilter.complaints setting
    match start o read now with
    | (log, .error e) => { exit := 1, log := shown log, errors := complaints ++ [failureLine e] }
    | (log, .ok _) => { exit := 0, log := shown (log ++ [interruption, completion]), errors := complaints }

end PeerCache.CommandLine
