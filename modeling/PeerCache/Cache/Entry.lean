import PeerCache.Time.Instant

/-!
# Entries and their expiry

A cached value with an optional absolute expiry, and what a write may ask for.  An entry is
expired from its expiry on: the instant itself counts.  A lifetime that leads past the calendar
means that the entry never expires.
-/

namespace PeerCache

structure Entry where
  value : ByteArray
  expireAt : Option Instant := none
  deriving Inhabited

/-- Entries are equal if their bytes and their expiries are. -/
instance : DecidableEq Entry := fun ⟨⟨v⟩, t⟩ ⟨⟨w⟩, u⟩ =>
  decidable_of_iff (v = w ∧ t = u) (by simp)

namespace Entry

def size (e : Entry) : Nat := e.value.size

def isExpiredAt (e : Entry) (now : Instant) : Bool :=
  match e.expireAt with
  | some t => t.nanos ≤ now.nanos
  | none => false

end Entry

/-- The expiry that a write asks for. -/
inductive Expiration where
  /-- Never, whatever the group's default. -/
  | never
  /-- The group's default lifetime, or never without one. -/
  | default
  | at (t : Instant)
  deriving Repr, DecidableEq

namespace Expiration

/-- A lifetime from now on. -/
def after (now : Instant) (ttl : Duration) : Expiration :=
  match now.after? ttl with
  | some t => .at t
  | none => .never

/-- The absolute expiry, under a default lifetime. -/
def resolve (e : Expiration) (ttl : Option Duration) (now : Instant) : Option Instant :=
  match e with
  | .never => none
  | .at t => some t
  | .default => ttl.bind now.after?

end Expiration

end PeerCache
