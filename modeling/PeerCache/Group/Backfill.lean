import PeerCache.Files.Path

/-!
# Backfills

Where an owned key's value comes from when no cache holds it: a table, a function, or the files
below a directory.

A directory serves the file whose path is the key.  A key that could lead out of it is refused as
missing before any file is touched: all its parts have to be names (`isInside`).
-/

namespace PeerCache

/-- What a source says about a key. -/
inductive Answer where
  | value (v : ByteArray)
  | missing
  /-- The source failed, with this text. -/
  | failed (text : String)
  /-- The source broke off without an answer. -/
  | panicked

inductive Backfill where
  | table (values : List (String × ByteArray))
  | function (f : String → Answer)
  /-- The files below this path. -/
  | directory (root : String)

namespace Backfill

/-! ## Algorithm -/

/-- Whether a key names a place below the directory. -/
def isInside (key : String) : Bool := key != "" && (FilePath.parts key).all FilePath.Part.isName

/-- The path of a key's file. -/
def pathFor? (root key : String) : Option String :=
  if isInside key then some (FilePath.join root key) else none

/-- The answer that reading a key's file gives. -/
def ofContent : Except ReadFault ByteArray → Answer
  | .ok content => .value content
  | .error .missing => .missing
  | .error fault => .failed fault.text

/-- The answer for a key of a directory, by whatever means files are read. -/
def fetchBelow {m : Type → Type} [Monad m] (read : String → m (Except ReadFault ByteArray))
    (root key : String) : m Answer :=
  match pathFor? root key with
  | none => pure .missing
  | some path => do return ofContent (← read path)

def fetchFile (files : FileTree) (root key : String) : Answer :=
  Id.run (fetchBelow (fun path => pure (files.read path)) root key)

def fetch (b : Backfill) (files : FileTree) (key : String) : Answer :=
  match b with
  | table values => ((values.lookup key).map Answer.value).getD .missing
  | function f => f key
  | directory root => fetchFile files root key

end Backfill

end PeerCache
