/-!
# Request targets

The path that a server reads from the target of a request: what stands before the query or the
fragment.  A target in absolute form names its path after the authority, and one that is an
authority alone has the empty path.  A target with characters that need percent coding is refused.
-/

namespace PeerCache.Http.Target

/-- Why a target has no path. -/
inductive Fault where
  | malformed
  | tooLong
  deriving Repr, DecidableEq

/-- A character that may stand in a path as it is. -/
def isPathChar (c : Char) : Bool :=
  c.toNat == 0x21 || c == '"' || (0x24 ≤ c.toNat && c.toNat ≤ 0x3B) || c == '=' ||
    (0x40 ≤ c.toNat && c.toNat ≤ 0x5F) || (0x61 ≤ c.toNat && c.toNat ≤ 0x7E) || 0x80 ≤ c.toNat

/-- A character that may stand in a query as it is. -/
def isQueryChar (c : Char) : Bool :=
  c.toNat == 0x21 || (0x24 ≤ c.toNat && c.toNat ≤ 0x3B) || c == '=' ||
    (0x3F ≤ c.toNat && c.toNat ≤ 0x7E) || 0x80 ≤ c.toNat

/-- The path of a target that begins with it. -/
def pathOf (cs : List Char) : Except Fault (List Char) :=
  let (path, rest) := cs.span fun c => c ≠ '?' && c ≠ '#'
  let query := if rest.head? == some '?' then (rest.drop 1).takeWhile (· ≠ '#') else []
  if path.all isPathChar && query.all isQueryChar then .ok path else .error .malformed

/-- What follows `://` after a scheme. -/
def afterScheme? (cs : List Char) : Option (List Char) :=
  match cs.span fun c => c.isAlphanum || c == '+' || c == '-' || c == '.' with
  | (_ :: _, ':' :: '/' :: '/' :: rest) => some rest
  | _ => none

/-- Ends an authority. -/
def endsAuthority (c : Char) : Bool := c == '/' || c == '?' || c == '#'

/-- The longest target that is read. -/
def maxSize : Nat := 65534

def read (target : String) : Except Fault String :=
  if maxSize < target.utf8ByteSize then .error .tooLong
  else match target.toList with
    | [] => .error .malformed
    | ['*'] => .ok "*"
    | '/' :: cs => (pathOf ('/' :: cs)).map String.ofList
    | cs =>
      match afterScheme? cs with
      | some rest =>
        if (rest.takeWhile fun c => !endsAuthority c).isEmpty then .error .malformed
        else (pathOf (rest.dropWhile fun c => !endsAuthority c)).map fun path =>
          if path.isEmpty then "/" else String.ofList path
      | none => if cs.all fun c => isPathChar c && !endsAuthority c then .ok "" else .error .malformed

end PeerCache.Http.Target
