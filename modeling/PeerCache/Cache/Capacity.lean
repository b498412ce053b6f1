/-!
# Capacities

A tier is bounded either in entries or in bytes of keys and values; every entry costs one or its
length in that unit.
-/

namespace PeerCache

inductive Capacity where
  | items (amount : Nat)
  | bytes (amount : Nat)
  deriving Repr, DecidableEq, Inhabited

namespace Capacity

def amount : Capacity → Nat
  | items n => n
  | bytes n => n

/-- What one entry takes of the capacity. -/
def cost (c : Capacity) (keySize valueSize : Nat) : Nat :=
  match c with
  | items _ => 1
  | bytes _ => keySize + valueSize

/-- Another bound in the same unit. -/
def withAmount (c : Capacity) (n : Nat) : Capacity :=
  match c with
  | items _ => items n
  | bytes _ => bytes n

def unit : Capacity → String
  | items _ => "items"
  | bytes _ => "bytes"

def sameUnit : Capacity → Capacity → Bool
  | items _, items _ => true
  | bytes _, bytes _ => true
  | _, _ => false

/-- Of the tier of owned keys, unless configured. -/
def standardMain : Capacity := bytes (64 * 1024 * 1024)

/-- Of the tier of fetched keys, unless configured: an eighth. -/
def standardHot : Capacity := bytes (8 * 1024 * 1024)

/-- The constructor and its amount, as debug output shows them. -/
def debugText : Capacity → String
  | items n => "Items(" ++ toString n ++ ")"
  | bytes n => "Bytes(" ++ toString n ++ ")"

end Capacity

end PeerCache
