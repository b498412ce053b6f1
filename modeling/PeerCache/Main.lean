import PeerCache.CommandLine.LogRecord
import PeerCache.CommandLine.Startup
import PeerCache.Http.Framing
import PeerCache.Node.Server
import Std.Async.DNS
import Std.Async.Signal
import Std.Async.TCP
import Std.Async.Timer
import Std.Sync.Mutex

/-!
# The program

Runs one node: reads the command line and the environment, listens, answers each connection, asks
peers in time, reads files, writes the log, and stops when it is interrupted.

All that a node decides happens in steps on its value, one at a time (`Live.change`).  A load runs
on its own between its steps, and whoever waits for it waits for one promise.
-/

namespace PeerCache.Live

open Std.Async
open CommandLine (Options LogLevel LogRecord)

/-! ## Surroundings -/

def present : IO Instant := do
  return ⟨(← Std.Time.Timestamp.now).toNanosecondsSinceUnixEpoch.val⟩

/-- The present as the log shows it. -/
def moment : IO String := do
  let t := Std.Time.PlainDateTime.ofWallTime (.ofTimestamp (← Std.Time.Timestamp.now) .zero)
  let two (n : Nat) : String := String.ofList (Duration.padded 2 n)
  let date := toString t.date.year ++ "-" ++ two t.date.month.val.toNat ++ "-" ++ two t.date.day.val.toNat
  let time := two t.time.hour.val.toNat ++ ":" ++ two t.time.minute.val.toNat ++ ":" ++
    two t.time.second.val.toNat
  return date ++ "T" ++ time ++ "." ++
    String.ofList (Duration.padded 6 (t.time.nanosecond.val.toNat / 1000)) ++ "Z"

/-- Where records go, if they are shown. -/
structure Log where
  level : String
  setting : String
  json : Bool

def Log.write (log : Log) (level : LogLevel) (message : String) : IO Unit := do
  if CommandLine.LogFilter.shows log.level log.setting level CommandLine.logTarget then
    IO.println (LogRecord.line ⟨← moment, level, CommandLine.logTarget, message⟩ log.json)
    (← IO.getStdout).flush

/-- Why a file could not be read. -/
def faultOf (e : IO.Error) : ReadFault :=
  match e with
  | .noFileOrDirectory .. => .missing
  | .inappropriateType _ 20 _ => .notDirectory
  | .inappropriateType .. => .isDirectory
  | .permissionDenied .. => .denied
  | .invalidArgument _ 36 _ => .nameTooLong
  | _ => .missing

/-- The file at a path of this machine. -/
def readFile (path : String) : IO (Except ReadFault ByteArray) := do
  if path.toList.contains (Char.ofNat 0) then return .error .nul
  try
    return .ok (← IO.FS.readBinFile path)
  catch e => return .error (faultOf e)

/-- The answer of a source. -/
def askSource (source : Backfill) (key : String) : IO Answer := do
  match source with
  | .directory root => Backfill.fetchBelow readFile root key
  | _ => return source.fetch .empty key

/-! ## Peers -/

def endpoint (s : SocketAddress) : Std.Net.SocketAddress :=
  match s.host with
  | .four a b c d =>
    .v4 ⟨.ofParts a.toUInt8 b.toUInt8 c.toUInt8 d.toUInt8, s.port.toUInt16⟩
  | .six gs _ =>
    let g (i : Nat) : UInt16 := (gs.getD i 0).toUInt16
    .v6 ⟨.ofParts (g 0) (g 1) (g 2) (g 3) (g 4) (g 5) (g 6) (g 7), s.port.toUInt16⟩

/-- Where a peer can be reached; a host name may have several addresses, of which the first counts. -/
def locate (p : Peer) : Async (Option Std.Net.SocketAddress) := do
  match SocketAddress.read? p.addr, Peer.splitLastColon p.addr.toList with
  | some s, _ => return some (endpoint s)
  | none, none => return none
  | none, some (host, port) =>
    let port := ((Peer.readPort? port).getD 0).toUInt16
    let addresses ← DNS.getAddrInfo (String.ofList host) ""
    match addresses.toList with
    | .v4 a :: _ => return some (.v4 ⟨a, port⟩)
    | .v6 a :: _ => return some (.v6 ⟨a, port⟩)
    | [] => return none

/-- The bytes that are taken from a connection at once. -/
def portion : UInt64 := 1048576

/-- Reads a response until it is whole. -/
partial def receive (socket : TCP.Socket.Client) (come : ByteArray) : Async Arrival := do
  let more ← socket.recv? portion
  let come := come ++ more.getD .empty
  match Http.Framing.response come more.isNone with
  | .whole r _ => return .response r
  | .refused => return .closed
  | .more => if more.isNone then return .closed else receive socket come

/-- Sends a request to its peer and waits for the response. -/
def exchange (q : PeerRequest) (u : Http.Url) : Async Arrival := do
  try
    match ← locate q.peer with
    | none => return .closed
    | some address =>
      let socket ← TCP.Socket.Client.mk
      socket.connect address
      socket.send (Http.Framing.requestBytes u.authority ⟨q.verb.method, u.path, [], .empty⟩)
      receive socket .empty
  catch _ => return .closed

/-- What comes from a peer in time. -/
def askPeer (q : PeerRequest) (millis : Nat) : Async (Except Error Arrival) := do
  match q.url? with
  | none => return .error q.unsendable
  | some u =>
    let late : Async (Option Arrival) := do
      sleep (.ofNat millis)
      return none
    match ← Async.race (some <$> exchange q u) late with
    | some a => return .ok a
    | none => return .error (.timeout q.peer.addr millis)

/-! ## A node that runs -/

structure State where
  node : Node
  /-- The loads that run, by group and number. -/
  loads : List ((String × Nat) × IO.Promise Outcome) := []
  /-- Requests that have not been answered. -/
  active : Nat := 0

abbrev Handle := Std.Mutex State

/-- One step of the node. -/
def change {α : Type} (live : Handle) (f : Node → Instant → Node × α) : IO α := do
  let now ← present
  live.atomically do
    modifyGet fun s =>
      let (n, a) := f s.node now
      (a, { s with node := n })

def node (live : Handle) : IO Node := change live fun n _ => (n, n)

/-- What a request comes to, and the promise that it waits for if it waits for a load. -/
def handle (live : Handle) (r : Http.Request) : IO (Reply × IO.Promise Outcome) := do
  let now ← present
  let fresh ← IO.Promise.new
  live.atomically do
    modifyGet fun s =>
      let (n, reply) := Server.handle s.node r now
      let s := { s with node := n }
      match reply with
      | .wait group number _ =>
        match s.loads.lookup (group, number) with
        | some promise => ((reply, promise), s)
        | none => ((reply, fresh), { s with loads := ((group, number), fresh) :: s.loads })
      | _ => ((reply, fresh), s)

/-- The first step of a load, what it waits for, and its last step. -/
def load (live : Handle) (group : String) (l : Load) : Async Ending := do
  let settled (r : Except Error Ending) : Ending := match r with
    | .ok e => e
    | .error e => .returned (.error e)
  match ← change live fun n now => n.withGroup group fun g => g.beginLoad n.membership l now with
  | .error e => return .returned (.error e)
  | .ok (.ended e) => return e
  | .ok (.ask source expireAt) =>
    let answer ← askSource source l.key
    return settled (← change live fun n now =>
      n.withGroup group fun g => g.settleBackfill l expireAt answer now)
  | .ok (.fetch owner expireAt) =>
    let q : PeerRequest := ⟨.fetch, owner, group, l.key⟩
    let outcome := match ← askPeer q (← node live).membership.timeouts.fetchMillis with
      | .ok a => q.fetchOutcome a
      | .error e => .error e
    return settled (← change live fun n now =>
      n.withGroup group fun g => g.settleFetch l expireAt (.returned outcome) now)

/-- Runs a load and tells all who wait for it. -/
def runLoad (live : Handle) (group : String) (l : Load) (promise : IO.Promise Outcome) : Async Unit := do
  let ending ← try load live group l catch _ => pure .panicked
  change live fun n _ => (n.mapGroup group fun g => g.release l, ())
  live.atomically (modify fun s => { s with loads := s.loads.filter (·.1 != (group, l.number)) })
  promise.resolve (ending.outcome group l.key)

/-- Tells the other peers to drop a key. -/
def tell (live : Handle) (group key : String) : Async Unit := do
  let n ← node live
  for peer in n.audience do
    background (discard (askPeer ⟨.remove, peer, group, key⟩ n.membership.timeouts.broadcastMillis))

/-- Answers a request. -/
def answer (live : Handle) (r : Http.Request) : Async Http.Response := do
  match ← handle live r with
  | (.respond response, _) => return response
  | (.tell response group key, _) =>
    tell live group key
    return response
  | (.wait group _ started, promise) =>
    if let some l := started then background (runLoad live group l promise)
    return Server.ofOutcome (← await promise)

/-! ## Connections -/

/-- Answers the requests of a connection, one after the other. -/
partial def converse (live : Handle) (socket : TCP.Socket.Client) (come : ByteArray) : Async Unit := do
  match Http.Framing.request come with
  | .refused => socket.send (Http.Framing.responseBytes { status := 400 })
  | .more =>
    if let some more ← socket.recv? portion then converse live socket (come ++ more)
  | .whole (r, staysOpen) stop =>
    live.atomically (modify fun s => { s with active := s.active + 1 })
    try
      socket.send (Http.Framing.responseBytes (← answer live r))
    finally
      live.atomically (modify fun s => { s with active := s.active - 1 })
    if staysOpen && !(← node live).draining then converse live socket (come.extract stop come.size)

/-- Accepts connections for as long as the program runs. -/
partial def accept (live : Handle) (log : Log) (server : TCP.Socket.Server) : Async Unit := do
  try
    let socket ← server.accept
    background (try converse live socket .empty catch _ => pure ())
  catch e => log.write .warn ("Accept error: " ++ toString e)
  accept live log server

/-- Waits until nothing is being answered. -/
partial def drain (live : Handle) : Async Unit := do
  let active ← live.atomically (modifyGet fun s => (s.active, s))
  if active != 0 then
    sleep (.ofNat 10)
    drain live

/-- Listens on an address. -/
def listen (address : SocketAddress) : IO (Except Error TCP.Socket.Server) := do
  try
    let server ← TCP.Socket.Server.mk
    server.bind (endpoint address)
    server.listen 1024
    return .ok server
  catch e => return .error (address.refused (toString e))

/-! ## Starting and stopping -/

/-- The variables of the environment that the program knows. -/
def environment : IO (List (String × String)) := do
  let names := "RUST_LOG" :: CommandLine.Flag.all.filterMap (·.setting?)
  names.filterMapM fun name => do return (← IO.getEnv name).map (name, ·)

def fail (e : Error) : IO UInt32 := do
  IO.eprintln (CommandLine.failureLine e)
  return 1

/-- Runs a node with these options until it is interrupted. -/
def serve (o : Options) (log : Log) : IO UInt32 := do
  let file ← o.groupsFile.mapM fun path => readFile path
  let (lines, prepared) := CommandLine.prepare o (fun _ => file.getD (.error .missing)) (← present)
  for l in lines do log.write .info l
  match prepared with
  | .error e => fail e
  | .ok s =>
    match ← listen s.address with
    | .error e => fail e
    | .ok server =>
      let live ← Std.Mutex.new { node := s.node : State }
      let interrupted ← (← Signal.Waiter.mk .sigint false).wait
      let run : Async Unit := do
        background (accept live log server)
        discard (await interrupted)
        log.write .info CommandLine.interruption
        change live fun n _ => ({ n with draining := true }, ())
        drain live
      run.block
      log.write .info CommandLine.completion
      return 0

end PeerCache.Live

def main (arguments : List String) : IO UInt32 := do
  let environment ← PeerCache.Live.environment
  let setting := (List.lookup "RUST_LOG" environment).getD ""
  match PeerCache.CommandLine.Options.read arguments (List.lookup · environment) with
  | .error s =>
    s.run.output.forM IO.println
    s.run.errors.forM IO.eprintln
    return s.run.exit.toUInt32
  | .ok o =>
    (PeerCache.CommandLine.LogFilter.complaints setting).forM IO.eprintln
    PeerCache.Live.serve o ⟨o.logLevel, setting, o.logJson⟩
