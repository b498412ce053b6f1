import PeerCache.Coordinator.Calls
import PeerCache.Http.Message
import PeerCache.Http.Url
import PeerCache.Peer
import PeerCache.Text.Utf8
import PeerCache.Wire.ErrorCode
import PeerCache.Wire.Path

/-!
# Asking a peer

The two requests of the peer protocol, and what the asking node makes of what comes back.  A fetch
has to be answered with 200 and a whole body, a removal with any success.  Any other response is
an error: the one its headers name, or an unexpected status.
-/

namespace PeerCache

/-- The two requests of the peer protocol. -/
inductive PeerVerb where
  | fetch
  | remove
  deriving Repr, DecidableEq

namespace PeerVerb

def method : PeerVerb → String
  | fetch => "GET"
  | remove => "DELETE"

end PeerVerb

/-- A request of the peer protocol to a peer. -/
structure PeerRequest where
  verb : PeerVerb
  peer : Peer
  group : String
  key : String
  deriving Repr, DecidableEq

/-- What the sender of a request gets. -/
inductive Arrival where
  | response (r : Http.Response)
  /-- The connection ended without a response. -/
  | closed

namespace PeerRequest

/-! ## Sending -/

/-- Where the request goes; an address may be one that has no location. -/
def url? (q : PeerRequest) : Option Http.Url := Http.Url.ofAddress? q.peer.addr (Path.peer q.group q.key)

def failure (q : PeerRequest) (reason : String) : Error := .transport q.peer.addr reason

/-- A request that cannot be sent at all. -/
def unsendable (q : PeerRequest) : Error := q.failure "builder error"

/-- The log line of a request over HTTP. -/
def httpLine (q : PeerRequest) (u : Http.Url) : String := q.verb.method ++ " " ++ u.authority ++ " " ++ u.path

/-! ## Receiving -/

/-- The error that an unsuccessful response stands for. -/
def reportedError (q : PeerRequest) (r : Http.Response) : Error :=
  let code := ((r.header? "x-groupcache-error").bind Http.Header.text?).bind ErrorCode.parse?
  let owner := (r.header? "x-groupcache-owner").bind Http.Header.text?
  match code with
  | some c =>
    c.toError q.peer.addr q.group q.key owner (if r.isWhole then Utf8.lossy r.content else "")
  | none => q.failure ("unexpected status " ++ Http.Status.text r.status)

/-- The connection failed before there was a response. -/
def brokenOff (q : PeerRequest) : Error :=
  match q.url? with
  | some u => q.failure ("error sending request for url (" ++ u.text ++ ")")
  | none => q.unsendable

/-- A response that is not merely interim. -/
def answer? : Arrival → Option Http.Response
  | .response r => if Http.Status.isInterim r.status then none else some r
  | .closed => none

def fetchOutcome (q : PeerRequest) (a : Arrival) : Outcome :=
  match answer? a with
  | none => .error q.brokenOff
  | some r =>
    if r.status != 200 then .error (q.reportedError r)
    else if r.isWhole then .ok r.body
    else .error (q.failure "error decoding response body")

def removeOutcome (q : PeerRequest) (a : Arrival) : Except Error Unit :=
  match answer? a with
  | none => .error q.brokenOff
  | some r => if Http.Status.isSuccess r.status then .ok () else .error (q.reportedError r)

end PeerRequest

end PeerCache
