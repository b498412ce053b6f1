/-!
# File trees

A directory tree as a value, and what opening and reading a path in it gives.  A path is followed
as it is written: empty segments and `.` stay where they are but need a directory, `..` goes up
(not above the root), and a name of more than 255 bytes is refused where it is looked up.
-/

namespace PeerCache

inductive FileTree where
  | file (content : ByteArray)
  | folder (entries : List (String × FileTree))

/-- Why a path cannot be read. -/
inductive ReadFault where
  | missing
  | notDirectory
  | isDirectory
  | nameTooLong
  | denied
  /-- A path with a NUL character cannot be asked for. -/
  | nul
  deriving Repr, DecidableEq

namespace ReadFault

def text : ReadFault → String
  | missing => "No such file or directory (os error 2)"
  | notDirectory => "Not a directory (os error 20)"
  | isDirectory => "Is a directory (os error 21)"
  | nameTooLong => "File name too long (os error 36)"
  | denied => "Permission denied (os error 13)"
  | nul => "file name contained an unexpected NUL byte"

end ReadFault

namespace FileTree

/-! ## Algorithm -/

def empty : FileTree := folder []

/-- What stands between the slashes of a path, and before the first and after the last one. -/
def segments (path : String) : List String := (path.toList.splitOn '/').map String.ofList

/-- The tree with one more file under the given segments. -/
def insertAt (content : ByteArray) : List String → FileTree → FileTree
  | [], _ => file content
  | name :: rest, folder entries =>
    let child := (entries.lookup name).getD empty
    folder ((name, insertAt content rest child) :: entries.filter (·.1 != name))
  | name :: rest, file _ => folder [(name, insertAt content rest empty)]

/-- The tree of some files, named by their paths. -/
def ofFiles (files : List (String × ByteArray)) : FileTree :=
  files.foldl (fun t f => insertAt f.2 ((segments f.1).filter (· != "")) t) empty

/-- Follows segments from a directory whose parents are on the stack. -/
def walk (parents : List FileTree) (here : FileTree) : List String → Except ReadFault FileTree
  | [] => .ok here
  | name :: rest =>
    match here with
    | file _ => .error .notDirectory
    | folder entries =>
      if name == "" || name == "." then walk parents here rest
      else if name == ".." then
        match parents with
        | [] => walk [] here rest
        | p :: ps => walk ps p rest
      else if 255 < name.utf8ByteSize then .error .nameTooLong
      else match entries.lookup name with
        | none => .error .missing
        | some child => walk (here :: parents) child rest

/-- The longest path that can be opened has 4095 bytes. -/
def maxPath : Nat := 4095

/-- The content of the file at a path. -/
def read (t : FileTree) (path : String) : Except ReadFault ByteArray :=
  if path.toList.contains (Char.ofNat 0) then .error .nul
  else if path == "" then .error .missing
  else if maxPath < path.utf8ByteSize then .error .nameTooLong
  else match walk [] t (segments path) with
    | .error f => .error f
    | .ok (folder _) => .error .isDirectory
    | .ok (file content) => .ok content

end FileTree

end PeerCache
