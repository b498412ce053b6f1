import PeerCache.Text.Numeral

/-!
# Resource locations

The location that a client makes of an address and a path, in normal form: the host in small
letters, the port as a number and left out if it is the scheme's own, and the path without the
segments `.` and `..`.

    resolve ["g", ".."] = [""]        resolve ["g", "."] = ["g", ""]
-/

namespace PeerCache.Http

structure Url where
  /-- Host and, unless it is 80, port. -/
  authority : String
  path : String
  deriving Repr, DecidableEq

namespace Url

/-! ## Algorithm -/

/-- Follows the segments of a path, the last one first in `done`: `..` takes back the segment
before it, and one of the two at the end leaves an empty segment there. -/
def follow (done : List String) : List String → List String
  | [] => done
  | ".." :: rest => if rest.isEmpty then "" :: done.drop 1 else follow (done.drop 1) rest
  | "." :: rest => if rest.isEmpty then "" :: done else follow done rest
  | segment :: rest => follow (segment :: done) rest

def resolve (segments : List String) : List String := (follow [] segments).reverse

/-- What stands between the slashes of a path, and before the first and after the last one. -/
def segments (path : String) : List String := (path.toList.splitOn '/').map String.ofList

/-- The normal form of a path that begins with a slash. -/
def normalPath (path : String) : String := "/" ++ "/".intercalate (resolve ((segments path).drop 1))

/-- Characters that no host has. -/
def isHostFault (c : Char) : Bool :=
  c.toNat ≤ 32 || c.toNat == 127 || "#%<>?@\\^|".contains c

/-- Host and port of an address in normal form. -/
def authority? (host port : List Char) : Option String := do
  if host.any isHostFault then none
  let number ← Numeral.readDigits? 65536 port
  let host := (String.ofList host).toLower
  some (if number = 80 then host else host ++ ":" ++ toString number)

/-- The location of a path at a node's address. -/
def ofAddress? (addr path : String) : Option Url := do
  let cs := addr.toList.reverse
  let port := (cs.takeWhile (· ≠ ':')).reverse
  let host := ((cs.dropWhile (· ≠ ':')).drop 1).reverse
  let authority ← authority? host port
  some ⟨authority, normalPath path⟩

def text (u : Url) : String := "http://" ++ u.authority ++ u.path

end Url

end PeerCache.Http
