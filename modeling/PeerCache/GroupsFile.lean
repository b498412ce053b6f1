import PeerCache.Group.Config
import PeerCache.Time.Lifetime
import PeerCache.Yaml.Reader

/-!
# Group definitions

The file that says which groups a node serves:

    groups:
      - name: users
        capacity: { items: 10000 }
        itemExpiration: 5m
        backfill:
          dir: /srv/users

A definition is first read as it stands (`GroupSpec`) and then made a configuration, which is
where lifetimes are read and the rules on names and units apply.
-/

namespace PeerCache

/-- One group as it is defined. -/
structure GroupSpec where
  name : String
  capacity : Option Capacity := none
  hotCapacity : Option Capacity := none
  itemExpiration : Option String := none
  /-- The directory that the values come from. -/
  directory : Option String := none
  deriving Repr, DecidableEq

namespace GroupSpec

/-! ## Reading -/

/-- A mapping of one unit to an amount. -/
def capacity? (n : Yaml.Node) : Option Capacity := do
  match ← n.single? with
  | ("items", v) => v.word?.map Capacity.items
  | ("bytes", v) => v.word?.map Capacity.bytes
  | _ => none

/-- A mapping of `dir` to a path, or a path that is marked so. -/
def directory? : Yaml.Node → Option String
  | .scalar text _ (some ("!", "dir")) => some text
  | n => do
    match ← n.single? with
    | ("dir", v) => v.text?
    | _ => none

/-- A field that may be left out or be absent. -/
def optional? {α : Type} (read : Yaml.Node → Option α) : Option Yaml.Node → Option (Option α)
  | none => some none
  | some n => n.optional? read

def fieldNames : List String := ["name", "capacity", "hotCapacity", "itemExpiration", "backfill"]

def ofNode? (n : Yaml.Node) : Option GroupSpec := do
  match ← n.fields? fieldNames with
  | [some name, capacity, hotCapacity, itemExpiration, backfill] =>
    some {
      name := ← name.text?
      capacity := ← optional? capacity? capacity
      hotCapacity := ← optional? capacity? hotCapacity
      itemExpiration := ← optional? Yaml.Node.text? itemExpiration
      directory := ← optional? directory? backfill }
  | _ => none

/-! ## Configuration -/

/-- The configuration of a definition, if it is valid. -/
def toConfig (s : GroupSpec) : Except Error GroupConfig := do
  let c : GroupConfig := { name := s.name }
  let c := (s.capacity.map c.withCapacity).getD c
  let c := (s.hotCapacity.map c.withHotCapacity).getD c
  let c ← match s.itemExpiration with
    | some text => (Lifetime.read text).map c.withItemExpiration
    | none => .ok c
  let c := (s.directory.map fun root => c.withBackfill (.directory root)).getD c
  c.validate
  .ok c

end GroupSpec

/-- Why there are no definitions. -/
inductive GroupsFault where
  /-- The file cannot be read. -/
  | unreadable (path reason : String)
  /-- The text is no document, or not one of definitions. -/
  | malformed
  deriving Repr, DecidableEq

namespace GroupsFault

def error : GroupsFault → Error
  | unreadable path reason => .config ("Failed to read groups file " ++ path ++ ": " ++ reason)
  | malformed => .config "Invalid groups file: not a list of group definitions"

end GroupsFault

/-- The definitions of a file, in order. -/
structure GroupsFile where
  groups : List GroupSpec
  deriving Repr, DecidableEq

namespace GroupsFile

/-- The field `groups` is a sequence, or left out. -/
def ofNode? (n : Yaml.Node) : Option GroupsFile := do
  match ← n.fields? ["groups"] with
  | [some (.sequence items)] => (items.mapM GroupSpec.ofNode?).map GroupsFile.mk
  | [none] => some ⟨[]⟩
  | _ => none

def ofText (text : String) : Except GroupsFault GroupsFile :=
  match (Yaml.Node.ofText? text).bind ofNode? with
  | some f => .ok f
  | none => .error .malformed

/-- The definitions of a file with a path, whose content, or why there is none, is given. -/
def ofContent (path : String) (content : Except ReadFault ByteArray) : Except GroupsFault GroupsFile :=
  match content with
  | .error f => .error (.unreadable path f.text)
  | .ok bytes =>
    match String.fromUTF8? bytes with
    | none => .error (.unreadable path "stream did not contain valid UTF-8")
    | some text => ofText text

/-- The definitions in the file at a path. -/
def load (files : FileTree) (path : String) : Except GroupsFault GroupsFile :=
  ofContent path (files.read path)

/-- All configurations; the first invalid definition is the error. -/
def toConfigs (f : GroupsFile) : Except Error (List GroupConfig) := f.groups.mapM GroupSpec.toConfig

end GroupsFile

end PeerCache
