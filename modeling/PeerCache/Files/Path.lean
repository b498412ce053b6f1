import PeerCache.Files.Tree

/-!
# Paths by their parts

What a path consists of, apart from how it is written: slashes that are repeated or stand at the end do not
count, and neither does `.` but for the first segment of a relative path.

    parts "/a//b/./c/" = [.root, .name "a", .name "b", .name "c"]
    parts "./a/.."     = [.here, .name "a", .up]

`join` puts a path behind another one as it is written; an absolute path stands for itself.
-/

namespace PeerCache.FilePath

/-- A part of a path. -/
inductive Part where
  /-- The slash that an absolute path begins with. -/
  | root
  | here
  | up
  | name (s : String)
  deriving Repr, DecidableEq

namespace Part

def isName : Part → Bool
  | name _ => true
  | _ => false

/-- The part that a segment stands for, wherever it stands. -/
def ofSegment? : String → Option Part
  | "" | "." => none
  | ".." => some up
  | s => some (name s)

end Part

/-! ## Algorithm -/

def isAbsolute (path : String) : Bool := path.toList.head? == some '/'

/-- What only the beginning of a path can stand for. -/
def opening (path : String) : List Part :=
  if isAbsolute path then [.root]
  else if (FileTree.segments path).head? == some "." then [.here]
  else []

def parts (path : String) : List Part := opening path ++ (FileTree.segments path).filterMap Part.ofSegment?

/-- A path behind another one, with a slash between them unless there is one. -/
def join (base path : String) : String :=
  if isAbsolute path then path
  else if base.toList.getLast?.all (· == '/') then base ++ path
  else base ++ "/" ++ path

end PeerCache.FilePath
