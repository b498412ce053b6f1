import PeerCache.Http.Target
import PeerCache.Node
import PeerCache.Stats.Exposition
import PeerCache.Time.Rfc3339
import PeerCache.Wire.Client

/-!
# The server of a node

What a node does with a request.  The fixed routes answer a GET only:

    /healthz  /livez  /readyz  /stats  /metrics

Then come the paths of the peer protocol, for GET and DELETE of keys this node owns or holds, and
those of clients, for GET, PUT and DELETE of any key.  A group has to exist before its method is
looked at.

`handle` ends with a response, or with a load that has to end first (`Reply.wait`); a removal for a
client also says which key the other peers have to be told to drop (`Reply.tell`).
-/

namespace PeerCache

inductive Reply where
  | respond (r : Http.Response)
  /-- The response is the outcome of a load of the group, perhaps a new one. -/
  | wait (group : String) (load : Nat) (started : Option Load)
  /-- The response, and a key that the other peers are told to drop. -/
  | tell (r : Http.Response) (group key : String)

namespace Server

open Http (Response)

/-! ## Responses -/

/-- The response that reports an error. -/
def ofError (e : Error) : Response :=
  let code := ErrorCode.ofError e
  let r := Response.ofText code.status e.message
  let owner := match e with
    | .notOwned _ _ owner => [Http.Header.ofText "x-groupcache-owner" owner]
    | _ => []
  { r with
    headers := r.headers ++ [.ofText "x-groupcache-error" code.text] ++
      owner.filter Http.Header.isSendable }

def ofOutcome : Outcome → Response
  | .ok v => .octets v
  | .error e => ofError e

def ofBegun (group : String) : Begun → Reply
  | .answer o => .respond (ofOutcome o)
  | .waiting load started => .wait group load started

def methodNotAllowed : Response := .ofText 405 "method not allowed"

def notFound : Response := .ofText 404 "not found"

/-! ## Storing for a client -/

/-- The largest value that a client can store. -/
def maxBody : Nat := 64 * 1024 * 1024

/-- The expiry that a request asks for. -/
def expiryOf (r : Http.Request) : Except String Expiration :=
  match Http.firstHeader? r.headers "x-expire-at" with
  | none => .ok .default
  | some h =>
    match h.text? with
    | none => .error "x-expire-at is not valid text"
    | some s =>
      match Rfc3339.read s with
      | .ok t => .ok (.at t)
      | .error f => .error ("x-expire-at must be RFC 3339: " ++ f.message)

/-- The expiry is read before the size of the body is looked at. -/
def store (n : Node) (g : Group) (key : String) (r : Http.Request) (now : Instant) : Node × Response :=
  match expiryOf r with
  | .error text => (n, .ofText 400 text)
  | .ok e =>
    if maxBody < r.body.size then (n, .ofText 413 "length limit exceeded")
    else (n.putGroup (g.setWith key r.body e now), .noContent)

/-! ## Routes -/

/-- A path below `/_groupcache/`. -/
def peerRoute (n : Node) (method path : String) (now : Instant) : Node × Reply :=
  match Path.split? path Path.peerPrefix with
  | none => (n, .respond (.ofText 400 "expected /_groupcache/\x7bgroup\x7d/\x7bkey\x7d"))
  | some (name, key) =>
    match n.registry.get name with
    | .error e => (n, .respond (ofError e))
    | .ok g =>
      if method == "GET" then
        let (g, b) := g.servePeer n.membership key now
        (n.putGroup g, ofBegun name b)
      else if method == "DELETE" then (n.putGroup (g.removeLocal key).1, .respond .noContent)
      else (n, .respond methodNotAllowed)

/-- A path below `/cache/`. -/
def clientRoute (n : Node) (r : Http.Request) (path : String) (now : Instant) : Node × Reply :=
  match Path.split? path Path.clientPrefix with
  | none => (n, .respond (.ofText 400 "expected /cache/\x7bgroup\x7d/\x7bkey\x7d"))
  | some (name, key) =>
    match n.registry.get name with
    | .error e => (n, .respond (ofError e))
    | .ok g =>
      if r.method == "GET" then
        let (g, b) := g.get n.membership key now
        (n.putGroup g, ofBegun name b)
      else if r.method == "PUT" then
        let (n, response) := store n g key r now
        (n, .respond response)
      else if r.method == "DELETE" then
        (n.putGroup (g.removeLocal key).1, .tell .noContent name key)
      else (n, .respond methodNotAllowed)

/-- The fixed routes. -/
def fixedRoute? (n : Node) (path : String) : Option Response :=
  match path with
  | "/healthz" | "/livez" => some (.ofText 200 "ok")
  | "/readyz" => some (if n.draining then .ofText 503 "shutting down" else .ofText 200 "ok")
  | "/stats" =>
    some (.ofContent 200 "application/json"
      (Snapshot.document (Snapshot.all n.registry n.membership)).toUTF8)
  | "/metrics" =>
    some (.ofContent 200 "text/plain; version=0.0.4"
      (Exposition.render (Snapshot.all n.registry n.membership)).toUTF8)
  | _ => none

def route (n : Node) (r : Http.Request) (path : String) (now : Instant) : Node × Reply :=
  match if r.method == "GET" then fixedRoute? n path else none with
  | some response => (n, .respond response)
  | none =>
    if path.startsWith Path.peerPrefix then peerRoute n r.method path now
    else if path.startsWith Path.clientPrefix then clientRoute n r path now
    else (n, .respond notFound)

/-- The path of a request; one that is no proper message has the status of its empty answer. -/
def pathOf (r : Http.Request) : Except Nat String :=
  if !Http.isToken r.method || !r.headers.all Http.Header.isSendable then .error 400
  else match Http.Target.read r.target with
    | .ok path => .ok path
    | .error .malformed => .error 400
    | .error .tooLong => .error 414

/-- What a node does with a request. -/
def handle (n : Node) (r : Http.Request) (now : Instant) : Node × Reply :=
  match pathOf r with
  | .error status => (n, .respond { status })
  | .ok path =>
    match route n r path now with
    | (n, .respond response) =>
      (n, .respond (if r.method == "HEAD" then response.headOnly else response))
    | other => other

end Server

end PeerCache
