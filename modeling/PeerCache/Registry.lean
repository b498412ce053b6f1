import PeerCache.Group.Basic

/-!
# Registries

The groups of a node by name.  Registering a name again changes the group that has it and keeps
its entries; a configuration that is not valid changes nothing.
-/

namespace PeerCache

structure Registry where
  /-- In the order of their first registration; no two have one name. -/
  groups : List Group := []

namespace Registry

/-! ## Algorithm -/

def find? (r : Registry) (name : String) : Option Group := r.groups.find? (·.name == name)

def get (r : Registry) (name : String) : Except Error Group :=
  match r.find? name with
  | some g => .ok g
  | none => .error (.cacheNotFound name)

/-- Applies a change to the group of a name. -/
def modify (r : Registry) (name : String) (f : Group → Group) : Registry :=
  ⟨r.groups.map fun g => if g.name == name then f g else g⟩

/-- Puts a group in the place of the one with its name. -/
def update (r : Registry) (g : Group) : Registry := r.modify g.name fun _ => g

def add (r : Registry) (c : GroupConfig) (now : Instant) : Except Error Registry := do
  c.validate
  match r.find? c.name with
  | some g => .ok (r.update (g.reconfigure c now))
  | none => .ok ⟨r.groups ++ [Group.create c]⟩

/-- All names in order. -/
def names (r : Registry) : List String := (r.groups.map (·.name)).mergeSort fun a b => !(b < a)

def size (r : Registry) : Nat := r.groups.length

def isEmpty (r : Registry) : Bool := r.groups.isEmpty

def debugText (r : Registry) : String :=
  "GroupRegistry \x7b groups: [" ++ ", ".intercalate (r.names.map Text.quoted) ++ "] \x7d"

end Registry

end PeerCache
