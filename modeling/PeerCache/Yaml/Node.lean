import PeerCache.Yaml.Token

/-!
# Nodes

What the tokens of a document stand for: scalars, sequences and mappings.  A place where a node
could stand but does not has an empty node, which is the plain scalar `~`; after an anchor or a
tag alone it is the empty text.  An alias is the node of its anchor; inside that very node it is
`unfinished`.

`Node.ofText?` reads a text that consists of exactly one document.
-/

namespace PeerCache.Yaml

inductive Node where
  | scalar (text : String) (isPlain : Bool) (tag : Option (String × String))
  | sequence (items : List Node)
  | mapping (pairs : List (Node × Node))
  | unfinished
  deriving Inhabited

namespace Node

def empty : Node := scalar "~" true none

end Node

/-- What is left of the tokens, and the anchors so far. -/
structure Reading where
  tokens : List Token
  /-- Names and the numbers of their anchors, the latest first. -/
  names : List (String × Nat) := []
  /-- The finished nodes of anchors. -/
  nodes : List (Nat × Node) := []
  next : Nat := 0

/-- Reads something from the tokens, or refuses them. -/
abbrev Read (α : Type) := StateT Reading Option α

namespace Read

def refuse {α : Type} : Read α := fun _ => none

def peek? : Read (Option Token) := fun s => some (s.tokens.head?, s)

def skip : Read Unit := fun s => some ((), { s with tokens := s.tokens.drop 1 })

/-- Whether the next token is one of these; past the last one it is not. -/
def atAny (ts : List Token) : Read Bool := return (← peek?).any ts.contains

/-- Passes a token if it is the next one. -/
def passed (t : Token) : Read Bool := do
  if ← atAny [t] then
    skip
    return true
  return false

/-- Gives a name to the node that follows; the number tells it from others of that name. -/
def declare (name : String) : Read Nat := fun s =>
  some (s.next, { s with names := (name, s.next) :: s.names, next := s.next + 1 })

def define (anchor : Option Nat) (n : Node) : Read Node := fun s =>
  match anchor with
  | some a => some (n, { s with nodes := (a, n) :: s.nodes })
  | none => some (n, s)

/-- The node that a name stands for now. -/
def resolve (name : String) : Read Node := fun s =>
  (s.names.lookup name).map fun a => ((s.nodes.lookup a).getD .unfinished, s)

/-- An anchor and a tag in any order. -/
def properties : Read (Option Nat × Option (String × String)) := do
  match ← peek? with
  | some (.anchor name) =>
    skip
    let a ← declare name
    match ← peek? with
    | some (.tag h s) => skip; return (some a, some (h, s))
    | _ => return (some a, none)
  | some (.tag h s) =>
    skip
    match ← peek? with
    | some (.anchor name) => skip; return (some (← declare name), some (h, s))
    | _ => return (none, some (h, s))
  | _ => return (none, none)

mutual

/-- A node; `block` where block collections may begin, `dashes` where a sequence may begin at the
column of its key. -/
def node (fuel : Nat) (block dashes : Bool) : Read Node := do
  match fuel with
  | 0 => refuse
  | fuel + 1 =>
    match ← peek? with
    | some (.alias name) => skip; resolve name
    | _ =>
      let (anchor, tag) ← properties
      define anchor (← content fuel block dashes anchor tag)

/-- A node after its properties. -/
def content (fuel : Nat) (block dashes : Bool) (anchor : Option Nat) (tag : Option (String × String)) :
    Read Node := do
  match fuel with
  | 0 => refuse
  | fuel + 1 =>
    match ← peek? with
    | some (.scalar text isPlain) => skip; return .scalar text isPlain tag
    | some .flowSequence => skip; return .sequence (← flowItems fuel true)
    | some .flowMapping => skip; return .mapping (← flowPairs fuel true)
    | some .entry => if dashes then return .sequence (← dashItems fuel) else absent anchor tag
    | some .blockSequence => if block then skip; return .sequence (← items fuel) else absent anchor tag
    | some .blockMapping => if block then skip; return .mapping (← pairs fuel) else absent anchor tag
    | _ => absent anchor tag

/-- No node stands here, which only its properties can excuse. -/
def absent (anchor : Option Nat) (tag : Option (String × String)) : Read Node :=
  if anchor.isSome || tag.isSome then return .scalar "" true tag else refuse

/-- A node, unless one of these tokens shows that there is none. -/
def nodeUnless (fuel : Nat) (block dashes : Bool) (ts : List Token) : Read Node := do
  match fuel with
  | 0 => refuse
  | fuel + 1 => if ← atAny ts then return .empty else node fuel block dashes

/-- The items of a block sequence, up to its end. -/
def items (fuel : Nat) : Read (List Node) := do
  match fuel with
  | 0 => refuse
  | fuel + 1 =>
    if ← passed .blockEnd then return []
    if !(← passed .entry) then refuse
    let item ← nodeUnless fuel true false [.entry, .blockEnd]
    return item :: (← items fuel)

/-- The items of a sequence at the column of its key, as long as there are dashes. -/
def dashItems (fuel : Nat) : Read (List Node) := do
  match fuel with
  | 0 => refuse
  | fuel + 1 =>
    if !(← passed .entry) then return []
    let item ← nodeUnless fuel true false [.entry, .key, .value, .blockEnd]
    return item :: (← dashItems fuel)

/-- The pairs of a block mapping, up to its end. -/
def pairs (fuel : Nat) : Read (List (Node × Node)) := do
  match fuel with
  | 0 => refuse
  | fuel + 1 =>
    if ← passed .blockEnd then return []
    let key ← if ← passed .key then nodeUnless fuel true true [.key, .value, .blockEnd]
      else if ← atAny [.value] then pure .empty else refuse
    let value ← if ← passed .value then nodeUnless fuel true true [.key, .value, .blockEnd] else pure .empty
    return (key, value) :: (← pairs fuel)

/-- The value of a pair between brackets. -/
def flowValue (fuel : Nat) (ending : Token) : Read Node := do
  match fuel with
  | 0 => refuse
  | fuel + 1 =>
    if ← passed .value then nodeUnless fuel false false [.comma, ending] else return .empty

/-- The items between square brackets; a pair among them is a mapping of its own. -/
def flowItems (fuel : Nat) (isFirst : Bool) : Read (List Node) := do
  match fuel with
  | 0 => refuse
  | fuel + 1 =>
    if ← passed .flowSequenceEnd then return []
    if !isFirst then if !(← passed .comma) then refuse
    if ← passed .flowSequenceEnd then return []
    if ← passed .key then
      let key ← if ← atAny [.value, .comma, .flowSequenceEnd] then do skip; pure .empty
        else node fuel false false
      let value ← flowValue fuel .flowSequenceEnd
      return .mapping [(key, value)] :: (← flowItems fuel false)
    let item ← node fuel false false
    return item :: (← flowItems fuel false)

/-- The pairs between curly brackets; an item among them is a key without a value. -/
def flowPairs (fuel : Nat) (isFirst : Bool) : Read (List (Node × Node)) := do
  match fuel with
  | 0 => refuse
  | fuel + 1 =>
    if ← passed .flowMappingEnd then return []
    if !isFirst then if !(← passed .comma) then refuse
    if ← passed .flowMappingEnd then return []
    if ← passed .key then
      let key ← nodeUnless fuel false false [.value, .comma, .flowMappingEnd]
      let value ← flowValue fuel .flowMappingEnd
      return (key, value) :: (← flowPairs fuel false)
    if ← atAny [.value] then
      let value ← flowValue fuel .flowMappingEnd
      return (.empty, value) :: (← flowPairs fuel false)
    let key ← node fuel false false
    return (key, .empty) :: (← flowPairs fuel false)

end

/-- Passes all tokens of a kind. -/
def skipAll (t : Token) : Nat → Read Unit
  | 0 => return
  | fuel + 1 => do if ← passed t then skipAll t fuel

/-- The node of a document, which may be empty after the mark of its beginning. -/
def document (fuel : Nat) (isFirst : Bool) : Read Node := do
  modify fun s => { s with names := [], nodes := [] }
  let root ←
    if ← atAny [.directive, .documentStart] then do
      skipAll .directive fuel
      if !(← passed .documentStart) then refuse
      if (← peek?).isNone || (← atAny [.directive, .documentStart, .documentEnd]) then pure .empty
      else node fuel true false
    else if isFirst then node fuel true false
    else refuse
  let _ ← passed .documentEnd
  return root

/-- All documents; after the first, each needs the mark of its beginning. -/
def documents (fuel : Nat) (isFirst : Bool) : Nat → Read (List Node)
  | 0 => refuse
  | count + 1 => do
    if !isFirst then skipAll .documentEnd fuel
    if (← peek?).isNone then return []
    let root ← document fuel isFirst
    return root :: (← documents fuel false count)

end Read

namespace Node

/-- The one document of a text. -/
def ofText? (text : String) : Option Node := do
  let tokens ← Token.ofText? text
  let fuel := 4 * tokens.length + 8
  match (Read.documents fuel true (tokens.length + 1)).run' { tokens } with
  | some [root] => some root
  | _ => none

end Node

end PeerCache.Yaml
