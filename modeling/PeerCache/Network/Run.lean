import PeerCache.Network.Basic

/-!
# What happens in a network

The steps of a network (`Network.step?`): the first task of the queue is done, or, if there is
none, the clock moves to the next deadline and that exchange ends without an answer.

    load        a load begins, and ends at once unless it has to fetch
    send        a request goes on its way; a scripted peer answers at once
    serve       a request reaches a node, which answers or waits for one of its loads
    receive     a response reaches the sender

`settle` runs a network until a call is settled.
-/

namespace PeerCache.Network

/-! ## Loads -/

/-- Tells one who waits for a load what came of it. -/
def deliver (net : Network) (o : Outcome) : Waiter → Network
  | .call c => net.record c (.outcome o)
  | .exchange id => net.post (.receive id (.response (Server.ofOutcome o)))

/-- A load ends: it is released, and all who wait for it are told in the order they came. -/
def endLoad (net : Network) (i : Nat) (group : String) (l : Load) (e : Ending) : Network :=
  let net := net.mapNode i fun n => n.mapGroup group fun g => g.release l
  let (told, rest) := net.waiting.partition fun w => w.host == i && w.group == group && w.load == l.number
  told.foldl (fun net w => net.deliver (e.outcome group l.key) w.who) { net with waiting := rest }

/-- The fetch of a load has ended. -/
def endFetch (net : Network) (now : Instant) (i : Nat) (group : String) (l : Load)
    (expireAt : Option Instant) (e : Ending) : Network :=
  match (net.node? i).bind fun n => n.registry.find? group with
  | none => net
  | some g =>
    let (g, e) := g.settleFetch l expireAt e now
    (net.mapNode i fun n => n.putGroup g).endLoad i group l e

/-- Registers one who waits, and begins a load if it is new; or tells the outcome at once. -/
def attend (net : Network) (i : Nat) (group : String) (who : Waiter) : Begun → Network
  | .answer o => net.deliver o who
  | .waiting load started =>
    let net := { net with waiting := net.waiting ++ [⟨i, group, load, who⟩] }
    match started with
    | some l => net.post (.load i group l)
    | none => net

/-! ## Exchanges -/

/-- The end of a fetch. -/
def concludeFetch (net : Network) (now : Instant) (q : PeerRequest) (errand : Errand) (e : Ending) :
    Network :=
  match errand with
  | .load i group l expireAt => net.endFetch now i group l expireAt e
  | .fetch c => net.record c (.outcome (e.outcome q.group q.key))
  | _ => net

/-- The end of a removal. -/
def concludeRemoval (net : Network) (errand : Errand) (r : Except Error Unit) : Network :=
  match errand with
  | .remove c => net.record c (.removed r)
  | _ => net

/-- A request to a peer ends with an error of the sender's own. -/
def fail (net : Network) (now : Instant) (q : PeerRequest) (errand : Errand) (e : Error) : Network :=
  match q.verb with
  | .fetch => net.concludeFetch now q errand (.returned (.error e))
  | .remove => net.concludeRemoval errand (.error e)

/-- The end of an exchange with what has arrived. -/
def conclude (net : Network) (now : Instant) (x : Exchange) (a : Arrival) : Network :=
  let net := net.closeExchange x.id
  match x.message, x.errand with
  | .peer q _, errand =>
    match q.verb with
    | .fetch => net.concludeFetch now q errand (.returned (q.fetchOutcome a))
    | .remove => net.concludeRemoval errand (q.removeOutcome a)
  | .client .., .request c => net.record c (.arrival a)
  | .client .., _ => net

/-- The end of an exchange whose time is up. -/
def expire (net : Network) (now : Instant) (x : Exchange) : Network :=
  let net := net.closeExchange x.id
  match x.message, x.errand with
  | .peer q _, errand => net.fail now q errand (.timeout q.peer.addr (x.patience.getD 0))
  | .client .., .request c => net.record c (.arrival .closed)
  | .client .., _ => net

def scriptedLine (q : PeerRequest) : String :=
  (match q.verb with
    | .fetch => "fetch "
    | .remove => "remove ") ++ q.peer.addr ++ " " ++ q.group ++ " " ++ q.key

/-- A request to a scripted peer; a removal is heard and that is all. -/
def sendScripted (net : Network) (now : Instant) (x : Exchange) (q : PeerRequest)
    (script : PeerRequest → Scripted) : Network :=
  let net := net.note (scriptedLine q)
  match q.verb with
  | .remove => (net.closeExchange x.id).concludeRemoval x.errand (.ok ())
  | .fetch =>
    match script q with
    | .ends e => (net.closeExchange x.id).concludeFetch now q x.errand e
    | .silent => net

def send (net : Network) (now : Instant) (x : Exchange) : Network :=
  match x.message with
  | .client .. => net.post (.serve x.id)
  | .peer q (.scripted script) => net.sendScripted now x q script
  | .peer q .http =>
    match q.url? with
    | none => (net.closeExchange x.id).fail now q x.errand q.unsendable
    | some u => (net.note (q.httpLine u)).post (.serve x.id)

/-- Requests that tell the audience of a node to drop a key, on behalf of a call. -/
def tell (net : Network) (i : Nat) (call : Nat) (group key : String) : Network :=
  match net.host? i with
  | none => net
  | some h =>
    h.node.audience.foldl (fun net peer =>
      let (net, id) := net.openExchange (.peer ⟨.remove, peer, group, key⟩ h.transport) (.notify call)
        (some h.node.membership.timeouts.broadcastMillis)
      net.post (.send id)) net

/-- A node does what a request asks. -/
def serveAt (net : Network) (now : Instant) (x : Exchange) (i : Nat) (r : Http.Request) : Network :=
  match net.host? i with
  | none => net.post (.receive x.id .closed)
  | some h =>
    if !h.listening then net.post (.receive x.id .closed)
    else
      let (n, reply) := Server.handle h.node r now
      let net := net.setNode i n
      match reply with
      | .respond response => net.post (.receive x.id (.response response))
      | .wait group load started => net.attend i group (.exchange x.id) (.waiting load started)
      | .tell response group key =>
        (net.tell i (x.errand.call?.getD x.id) group key).post (.receive x.id (.response response))

/-- A request reaches its destination. -/
def serve (net : Network) (now : Instant) (x : Exchange) : Network :=
  match x.message with
  | .client i r => net.serveAt now x i r
  | .peer q _ =>
    match q.url? with
    | none => net.post (.receive x.id .closed)
    | some u =>
      match net.listenerAt? u.authority with
      | some i => net.serveAt now x i { method := q.verb.method, target := u.path }
      | none =>
        if net.isNodeAddress u.authority then net.post (.receive x.id .closed)
        else match net.strangers u.authority with
          | .answers r => net.post (.receive x.id (.response r))
          | .silent => net
          | .absent => net.post (.receive x.id .closed)

/-- The first step of a load, and the rest of it unless it has to fetch. -/
def beginLoad (net : Network) (now : Instant) (i : Nat) (group : String) (l : Load) : Network :=
  match net.host? i with
  | none => net
  | some h =>
    match h.node.withGroup group fun g => g.beginLoad h.node.membership l now with
    | (_, .error _) => net
    | (n, .ok (.ended e)) => (net.setNode i n).endLoad i group l e
    | (n, .ok (.ask source expireAt)) =>
      let answer := source.fetch n.files l.key
      match n.withGroup group fun g => g.settleBackfill l expireAt answer now with
      | (n, .ok e) => (net.setNode i n).endLoad i group l e
      | (_, .error _) => net
    | (n, .ok (.fetch owner expireAt)) =>
      let net := net.setNode i n
      let (net, id) := net.openExchange (.peer ⟨.fetch, owner, group, l.key⟩ h.transport)
        (.load i group l expireAt) (some n.membership.timeouts.fetchMillis)
      match net.exchange? id with
      | some x => net.send now x
      | none => net

/-! ## Running -/

def runTask (net : Network) (now : Instant) : Task → Network
  | .load i group l => net.beginLoad now i group l
  | .send id => ((net.exchange? id).map (net.send now)).getD net
  | .serve id => ((net.exchange? id).map (net.serve now)).getD net
  | .receive id a => ((net.exchange? id).map fun x => net.conclude now x a).getD net

/-- The next step; a network without one is at rest. -/
def step? (net : Network) (now : Instant) : Option Network :=
  match net.queue with
  | t :: rest => some ({ net with queue := rest }.runTask now t)
  | [] => (earliest? net.exchanges).map fun (d, x) => { net with clock := max net.clock d }.expire now x

/-- Runs at most `fuel` steps, until a call is settled. -/
def runUntilSettled (now : Instant) (call : Nat) : Nat → Network → Network
  | 0, net => net
  | fuel + 1, net =>
    if net.isSettled call then net
    else match net.step? now with
      | some net => runUntilSettled now call fuel net
      | none => net

/-- More steps than can be taken: whatever is under way takes at most eight of them and one
request to each member of a ring. -/
def stepBound (net : Network) : Nat :=
  8 * (1 + net.queue.length + net.exchanges.length + net.waiting.length) *
    net.hosts.foldr (fun h n => 8 * h.node.membership.peers.length + n) 8

/-- Runs until a call is settled. -/
def settle (net : Network) (now : Instant) (call : Nat) : Network :=
  runUntilSettled now call net.stepBound net

end PeerCache.Network
