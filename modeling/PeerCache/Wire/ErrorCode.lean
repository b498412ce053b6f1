import PeerCache.Error

/-!
# Error codes

The kinds of error that one node can tell another: the text of the code, the status it is sent
with, the code of an error, and the error that the asking node makes of a code.
-/

namespace PeerCache

inductive ErrorCode where
  | itemNotFound
  | cacheNotFound
  | notOwned
  | noBackfill
  | backfill
  | internal
  deriving Repr, DecidableEq

namespace ErrorCode

def all : List ErrorCode := [itemNotFound, cacheNotFound, notOwned, noBackfill, backfill, internal]

def text : ErrorCode → String
  | itemNotFound => "item-not-found"
  | cacheNotFound => "cache-not-found"
  | notOwned => "not-owned"
  | noBackfill => "nil-backfill"
  | backfill => "backfill"
  | internal => "internal"

/-- The code with a given text. -/
def parse? (s : String) : Option ErrorCode := all.find? (·.text == s)

def status : ErrorCode → Nat
  | itemNotFound | cacheNotFound => 404
  | notOwned => 421
  | noBackfill | internal => 500
  | backfill => 502

/-- What is told of an error; anything that has no code of its own is internal. -/
def ofError : Error → ErrorCode
  | .itemNotFound .. => itemNotFound
  | .cacheNotFound _ => cacheNotFound
  | .notOwned .. => notOwned
  | .noBackfill _ => noBackfill
  | .backfill .. => backfill
  | _ => internal

/-- The error that the asking node reports, for its own request of `key` in `group`. -/
def toError (code : ErrorCode) (peer group key : String) (owner : Option String) (message : String) :
    Error :=
  match code with
  | itemNotFound => .itemNotFound group key
  | cacheNotFound => .cacheNotFound group
  | notOwned => .notOwned group key (owner.getD "unknown")
  | noBackfill => .noBackfill group
  | backfill => .backfill group key ("on " ++ peer ++ ": " ++ message)
  | internal => .transport peer ("internal error: " ++ message)

end ErrorCode

end PeerCache
