import PeerCache.Wire.Percent

/-!
# Request paths

A cached value has the path of a fixed beginning, its group, a slash and its key, both in percent
coding.  Reading a path back needs exactly these two segments.
-/

namespace PeerCache.Path

/-- Begins the paths of the peer protocol. -/
def peerPrefix : String := "/_groupcache/"

/-- Begins the paths of the client routes. -/
def clientPrefix : String := "/cache/"

def ofKey (start group key : String) : String :=
  start ++ Percent.encodeText group ++ "/" ++ Percent.encodeText key

/-- The path of a key on the peer protocol. -/
def peer (group key : String) : String := ofKey peerPrefix group key

/-- What follows `start` in `cs`. -/
def afterStart? : List Char → List Char → Option (List Char)
  | [], cs => some cs
  | _ :: _, [] => none
  | a :: start, c :: cs => if a = c then afterStart? start cs else none

/-- Group and key of a path that consists of `start` and two segments. -/
def split? (path start : String) : Option (String × String) := do
  let rest ← afterStart? start.toList path.toList
  match rest.span (· ≠ '/') with
  | (group, _ :: key) =>
    if key.contains '/' then none
    else do
      let g ← Percent.decodeText? (String.ofList group)
      let k ← Percent.decodeText? (String.ofList key)
      some (g, k)
  | (_, []) => none

end PeerCache.Path
