/-!
# What can go wrong

Every failure of a cache node is one of these causes, and `Error.message` is its wording.
A caller tells three classes apart: the value does not exist (`isNotFound`), a peer could not
be reached or answered badly (`isTransport`), and everything else.
-/

namespace PeerCache

inductive Error where
  /-- A group was registered without a name. -/
  | nameRequired
  /-- An address that is not `host:port`. -/
  | invalidPeer (addr reason : String)
  | config (text : String)
  /-- No group of this name is registered. -/
  | cacheNotFound (group : String)
  /-- The source has no value for the key. -/
  | itemNotFound (group key : String)
  /-- An owned key was missed in a group without a source. -/
  | noBackfill (group : String)
  /-- The source failed with the text `source`. -/
  | backfill (group key source : String)
  /-- A peer asked for a key that this node does not own. -/
  | notOwned (group key owner : String)
  | transport (peer reason : String)
  | timeout (peer : String) (millis : Nat)
  /-- The load that the caller waited for ended without an outcome. -/
  | loadAborted (group key : String)
  | inputOutput (text : String)
  | internal (text : String)
  deriving Repr, DecidableEq, Inhabited

namespace Error

def message : Error → String
  | nameRequired => "cache group name is required"
  | invalidPeer addr reason => "invalid peer address '" ++ addr ++ "': " ++ reason
  | config text => "Configuration error: " ++ text
  | cacheNotFound group => "cache group not found: " ++ group
  | itemNotFound group key => "item not found: " ++ group ++ "/" ++ key
  | noBackfill group => "cache group '" ++ group ++ "' has no backfill configured"
  | backfill group key source => "backfill failed for " ++ group ++ "/" ++ key ++ ": " ++ source
  | notOwned group key owner =>
    "key " ++ group ++ "/" ++ key ++ " is not owned by this node (owner: " ++ owner ++ ")"
  | transport peer reason => "peer " ++ peer ++ " transport error: " ++ reason
  | timeout peer millis => "peer " ++ peer ++ " timed out after " ++ toString millis ++ "ms"
  | loadAborted group key => "in-flight load for " ++ group ++ "/" ++ key ++ " was aborted"
  | inputOutput text => "I/O error: " ++ text
  | internal text => "Internal error: " ++ text

/-- The failure underneath this one: only a failed source has one. -/
def source? : Error → Option String
  | backfill _ _ source => some source
  | _ => none

/-- The value does not exist, as opposed to a failure. -/
def isNotFound : Error → Bool
  | itemNotFound .. | cacheNotFound _ => true
  | _ => false

/-- A peer was unreachable, too slow, or answered with an unexpected status. -/
def isTransport : Error → Bool
  | transport .. | timeout .. => true
  | _ => false

end Error

end PeerCache
