import PeerCache.Error
import PeerCache.Text.Blank
import PeerCache.Text.Numeral

/-!
# Peer addresses

A peer is known by its `host:port`.  `Peer.parse` trims white space, splits at the last colon and
checks both sides; it keeps the text as written, so `h:80` and `h:080` are two peers.

    parse s = .ok p → p.addr = trim s                               (addr_of_parse)

The checks run in a fixed order, and the first that fails gives the reason.
-/

namespace PeerCache

/-- A cache node, identified by its address. -/
structure Peer where
  addr : String
  deriving Repr, DecidableEq, Inhabited, Hashable

namespace Peer

/-! ## Algorithm -/

/-- The texts before and after the last colon. -/
def splitLastColon (cs : List Char) : Option (List Char × List Char) :=
  match cs.reverse.span (· ≠ ':') with
  | (_, []) => none
  | (port, _ :: host) => some (host.reverse, port.reverse)

/-- A host that contains a colon has to stand in brackets. -/
def isBracketed (host : List Char) : Bool := host.head? == some '[' && host.getLast? == some ']'

/-- A port is a number from 1 to 65535, with an optional plus sign. -/
def readPort? (cs : List Char) : Option Nat :=
  (Numeral.readWord? 65536 cs).filter (0 < ·)

/-- The first rule that the trimmed address `cs` breaks. -/
def fault? (cs : List Char) : Option String :=
  if cs.contains '/' then some "expected host:port without scheme or path"
  else match splitLastColon cs with
    | none => some "missing port"
    | some (host, port) =>
      if host.isEmpty || host == ['[', ']'] then some "missing host"
      else if host.contains ':' && !isBracketed host then some "IPv6 hosts must be bracketed"
      else if (readPort? port).isNone then some "port must be in 1..=65535"
      else none

def parse (s : String) : Except Error Peer :=
  let addr := Text.trim s
  match fault? addr.toList with
  | some reason => .error (.invalidPeer addr reason)
  | none => .ok ⟨addr⟩

/-! ## Lemmas -/

theorem addr_of_parse {s : String} {p : Peer} (h : parse s = .ok p) : p.addr = Text.trim s := by
  simp only [parse] at h
  split at h
  · cases h
  · cases h; rfl

end Peer

/-- Peers are ordered by their addresses, character by character. -/
instance : Ord Peer := ⟨fun a b => compare a.addr b.addr⟩

end PeerCache
