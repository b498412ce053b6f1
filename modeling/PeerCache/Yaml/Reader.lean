import PeerCache.Text.Numeral
import PeerCache.Yaml.Node

/-!
# Values of nodes

Reading of the values that a document is expected to hold.  Where a text is expected any scalar
gives its text as it stands; a number has to be plain; a plain `~`, `null` or nothing is an absent
value.  A record is a mapping with each known field at most once, or a sequence of its fields in
order.
-/

namespace PeerCache.Yaml.Node

/-- The text of a scalar, however it is spelled. -/
def text? : Node → Option String
  | scalar text .. => some text
  | _ => none

/-! ## Numbers -/

/-- The value of a digit, up to the letter `f`. -/
def digitOf? (c : Char) : Option Nat := Scalar.hexDigit? c

/-- The number that digits denote to a base. -/
def number? (base : Nat) (cs : List Char) : Option Nat := do
  if cs.isEmpty then none
  cs.foldlM (fun n c => do
    let d ← digitOf? c
    if d < base then some (base * n + d) else none) 0

/-- A base and the digits after its mark. -/
def marked? : List Char → Option (Nat × List Char)
  | '0' :: 'x' :: rest => some (16, rest)
  | '0' :: 'o' :: rest => some (8, rest)
  | '0' :: 'b' :: rest => some (2, rest)
  | _ => none

/-- Decimal digits have no zeros in front. -/
def decimal? (cs : List Char) : Option Nat :=
  if 1 < cs.length && cs.head? == some '0' then none else number? 10 cs

def magnitude? (cs : List Char) : Option Nat :=
  match marked? cs with
  | some (base, digits) => number? base digits
  | none => decimal? cs

/-- A number that is not negative: zero may have any sign. -/
def plainWord? (cs : List Char) : Option Nat :=
  match cs with
  | '+' :: rest => magnitude? rest
  | '-' :: rest => (magnitude? rest).filter (· = 0)
  | cs => magnitude? cs

/-- A number that is marked as one: decimal digits with any sign. -/
def markedWord? (cs : List Char) : Option Nat :=
  match cs with
  | '+' :: rest => (number? 10 rest).filter (· < 0x8000000000000000)
  | '-' :: rest => (number? 10 rest).filter (· = 0)
  | cs => (number? 10 cs).filter (· < 0x8000000000000000)

/-- A number below `2 ^ 64`. -/
def word? : Node → Option Nat
  | scalar text true none => (plainWord? text.toList).filter (· < Numeral.word64)
  | scalar text _ (some ("!!", "int")) => markedWord? text.toList
  | _ => none

/-! ## Absence -/

/-- Whether a node stands for no value; one that is marked so has to look it. -/
def isAbsent? : Node → Option Bool
  | scalar text true (some ("!!", "null")) => if text == "~" || text == "null" then some true else none
  | scalar text true none => some (text == "" || text == "~" || text == "null")
  | _ => some false

/-- A value that may be absent. -/
def optional? {α : Type} (read : Node → Option α) (n : Node) : Option (Option α) := do
  if ← n.isAbsent? then some none else (read n).map some

/-! ## Records -/

/-- A mapping of one pair, by the text of its key. -/
def single? : Node → Option (String × Node)
  | mapping [(scalar key .., value)] => some (key, value)
  | _ => none

/-- The values of the named fields, in the order of the names. -/
def fields? (names : List String) : Node → Option (List (Option Node))
  | mapping pairs => do
    let pairs ← pairs.mapM fun p => p.1.text?.map fun key => (key, p.2)
    names.mapM fun name =>
      match pairs.filter (·.1 == name) with
      | [] => some none
      | [(_, value)] => some (some value)
      | _ => none
  | sequence items =>
    if names.length < items.length then none
    else some (items.map some ++ List.replicate (names.length - items.length) none)
  | _ => none

end PeerCache.Yaml.Node
