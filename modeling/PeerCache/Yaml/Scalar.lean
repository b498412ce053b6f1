import PeerCache.Yaml.Cursor

/-!
# Scalars

The texts of a document in their four spellings: plain, in single or double quotes, and as a block
of lines, literal or folded.  In the first three, a line break between words stands for a blank and
further ones for themselves.
-/

namespace PeerCache.Yaml.Scalar

/-! ## Plain -/

/-- Where a plain text stands. -/
structure Surroundings where
  /-- Inside brackets. -/
  inFlow : Bool
  /-- The column that a line of the text has to reach, outside brackets. -/
  margin : Int

/-- The characters of a plain word: up to a gap, a colon before a gap, or, in brackets, a mark. -/
def wordLength (inFlow : Bool) : List Char → Nat
  | [] => 0
  | c :: rest =>
    if isBlank c || isBreak c then 0
    else if c == ':' && rest.head?.all fun n => isBlank n || isBreak n || (inFlow && isFlowMark n) then 0
    else if inFlow && isFlowMark c then 0
    else 1 + wordLength inFlow rest

/-- A plain text, and whether it ends after a line break. -/
structure Plain where
  text : List Char
  endsLine : Bool
  cursor : Cursor

namespace Plain

/-- The same with more text in front. -/
def after (before : List Char) (p : Plain) : Plain := { p with text := before ++ p.text }

end Plain

/-- Reads words and gaps; `pending` is the gap before the next word. -/
def readPlain? (s : Surroundings) : Nat → Cursor → Gap → Option Plain
  | 0, _, _ => none
  | fuel + 1, c, pending =>
    if c.atDocumentMark || c.has 0 (· == '#') then some ⟨[], 0 < pending.breaks, c⟩
    else
      let n := wordLength s.inFlow c.rest
      let word := if n = 0 then [] else pending.text ++ c.rest.take n
      let c := c.advance n
      if !(c.atBlank || c.atBreak) then some ⟨word, n = 0 && 0 < pending.breaks, c⟩
      else do
        let (g, c) ← c.gap? s.margin 0
        if !s.inFlow && (c.col : Int) < s.margin then some ⟨word, 0 < g.breaks, c⟩
        else (readPlain? s fuel c g).map (Plain.after word)

def plain? (s : Surroundings) (c : Cursor) : Option Plain := readPlain? s (c.rest.length + 2) c {}

/-! ## In quotes -/

def hexDigit? (c : Char) : Option Nat :=
  if c.isDigit then some (c.toNat - 48)
  else if 'a' ≤ c && c ≤ 'f' then some (c.toNat - 87)
  else if 'A' ≤ c && c ≤ 'F' then some (c.toNat - 55)
  else none

/-- The character with the number that all of `digits` denote. -/
def charOfHex? (digits : List Char) : Option Char := do
  let ns ← digits.mapM hexDigit?
  let n := ns.foldl (fun acc d => 16 * acc + d) 0
  if n.isValidChar then some (Char.ofNat n) else none

/-- The characters that a letter after a backslash stands for. -/
def escapes : List (Char × Nat) :=
  [('0', 0), ('a', 7), ('b', 8), ('t', 9), ('\t', 9), ('n', 10), ('v', 11), ('f', 12), ('r', 13),
    ('e', 27), (' ', 32), ('"', 34), ('\'', 39), ('\\', 92), ('N', 0x85), ('_', 0xA0), ('L', 0x2028),
    ('P', 0x2029)]

/-- How many hexadecimal digits follow a letter after a backslash. -/
def hexLength? : Char → Option Nat
  | 'x' => some 2
  | 'u' => some 4
  | 'U' => some 8
  | _ => none

/-- What an escape stands for, and its length without the backslash. -/
def escape? : List Char → Option (Char × Nat)
  | [] => none
  | e :: rest =>
    match hexLength? e with
    | some n =>
      if rest.length < n then none else (charOfHex? (rest.take n)).map fun c => (c, n + 1)
    | none => (escapes.lookup e).map fun n => (Char.ofNat n, 1)

/-- The part of a quoted text up to a gap or the end. -/
structure QuotedRun where
  text : List Char
  /-- A backslash stands before the line break. -/
  joined : Bool
  cursor : Cursor

namespace QuotedRun

/-- The same with one more character in front. -/
def after (before : Char) (r : QuotedRun) : QuotedRun := { r with text := before :: r.text }

/-- Reads up to a gap or the closing quote. -/
def read? (quote : Char) : Nat → Cursor → Option QuotedRun
  | 0, _ => none
  | fuel + 1, c =>
    match c.rest with
    | [] => some ⟨[], false, c⟩
    | ch :: rest =>
      if isBlank ch || isBreak ch then some ⟨[], false, c⟩
      else if ch == '\'' && quote == '\'' then
        if rest.head? == some '\'' then (read? quote fuel (c.advance 2)).map (after '\'')
        else some ⟨[], false, c⟩
      else if ch == '"' && quote == '"' then some ⟨[], false, c⟩
      else if ch == '\\' && quote == '"' then
        if rest.head?.any isBreak then some ⟨[], true, c.skip.skipBreak⟩
        else do
          let (e, n) ← escape? rest
          (read? quote fuel (c.advance (n + 1))).map (after e)
      else (read? quote fuel c.skip).map (after ch)

end QuotedRun

/-- Reads runs and gaps, up to the closing quote. -/
def readQuoted? (quote : Char) : Nat → Cursor → Option (List Char × Cursor)
  | 0, _ => none
  | fuel + 1, c =>
    if c.atDocumentMark || c.atEnd then none
    else do
      let r ← QuotedRun.read? quote (c.rest.length + 1) c
      if r.cursor.has 0 (· == quote) then some (r.text, r.cursor.skip)
      else do
        let (g, c) ← r.cursor.gap? 0 (if r.joined then 1 else 0)
        let between := if r.joined then List.replicate (g.breaks - 1) '\n' else g.text
        let (text, c) ← readQuoted? quote fuel c
        some (r.text ++ between ++ text, c)

/-- The text in quotes at a place. -/
def quoted? (quote : Char) (c : Cursor) : Option (List Char × Cursor) :=
  readQuoted? quote (c.rest.length + 2) c.skip

/-! ## Blocks -/

/-- What is done with the line breaks at the end of a block. -/
inductive Chomping where
  | strip
  | clip
  | keep
  deriving DecidableEq

/-- The line after a block's mark: chomping and indentation, in any order. -/
structure BlockHead where
  chomping : Chomping := .clip
  /-- The indentation relative to the parent, if it is given. -/
  increment : Nat := 0

def chomping? : Char → Option Chomping
  | '+' => some .keep
  | '-' => some .strip
  | _ => none

/-- A digit that is not zero. -/
def increment? (c : Char) : Option Nat := if '1' ≤ c && c ≤ '9' then some (c.toNat - 48) else none

/-- Reads the head of a block, after its mark. -/
def blockHead? (c : Cursor) : Option (BlockHead × Cursor) :=
  match c.rest with
  | [] => some ({}, c)
  | a :: rest =>
    match chomping? a with
    | some chomping =>
      if rest.head? == some '0' then none
      else match rest.head?.bind increment? with
        | some increment => some ({ chomping, increment }, c.advance 2)
        | none => some ({ chomping }, c.advance 1)
    | none =>
      if a == '0' then none
      else match increment? a with
        | none => some ({}, c)
        | some increment =>
          match rest.head?.bind chomping? with
          | some chomping => some ({ chomping, increment }, c.advance 2)
          | none => some ({ increment }, c.advance 1)

/-- Passes blank lines and the indentation of the next one; `indent` is zero while it is unknown.
Gives the number of line breaks and the deepest indentation. -/
def indentation? (indent : Nat) : Nat → Cursor → Nat → Nat → Option (Nat × Nat × Cursor)
  | 0, _, _, _ => none
  | fuel + 1, c, deepest, breaks =>
    let spaces := (c.rest.takeWhile (· == ' ')).length
    let c := c.advance (if indent = 0 then spaces else min spaces (indent - c.col))
    let deepest := max deepest c.col
    if (indent = 0 || c.col < indent) && c.has 0 (· == '\t') then none
    else if c.atBreak then indentation? indent fuel c.skipBreak deepest (breaks + 1)
    else some (breaks, deepest, c)

/-- Blank lines before a line of a block, and the indentation of all its lines. -/
def blockBreaks? (parent : Int) (indent : Nat) (c : Cursor) : Option (Nat × Nat × Cursor) := do
  let (breaks, deepest, c) ← indentation? indent (c.rest.length + 1) c 0 0
  some (breaks, if indent = 0 then max (max deepest (parent + 1).toNat) 1 else indent, c)

/-- A block as far as it has been read. -/
structure Block where
  text : List Char := []
  /-- A line has ended whose line break is not yet in the text. -/
  ended : Bool := false
  /-- The last line began with a blank. -/
  indented : Bool := false
  /-- Blank lines after it. -/
  breaks : Nat := 0

namespace Block

def newLines (n : Nat) : List Char := List.replicate n '\n'

/-- The text with what lies before a new line, which begins with a blank or not. -/
def beforeLine (b : Block) (literal blank : Bool) : List Char :=
  let join :=
    if !literal && b.ended && !b.indented && !blank then (if b.breaks = 0 then [' '] else [])
    else newLines (if b.ended then 1 else 0)
  b.text ++ join ++ newLines b.breaks

def chomped (b : Block) : Chomping → List Char
  | .strip => b.text
  | .clip => b.text ++ newLines (if b.ended then 1 else 0)
  | .keep => b.text ++ newLines (if b.ended then 1 else 0) ++ newLines b.breaks

/-- Reads lines as long as they have the indentation. -/
def readLines? (literal : Bool) (parent : Int) (indent : Nat) : Nat → Cursor → Block → Option (Block × Cursor)
  | 0, _, _ => none
  | fuel + 1, c, b =>
    if c.col != indent || c.atEnd then some (b, c)
    else
      let blank := c.atBlank
      let (line, c) := c.run fun ch => !isBreak ch
      let text := b.beforeLine literal blank ++ line
      if c.atEnd then some ({ text, indented := blank }, c)
      else do
        let (breaks, _, c) ← blockBreaks? parent indent c.skipBreak
        readLines? literal parent indent fuel c ⟨text, true, blank, breaks⟩

end Block

/-- The block at a place, inside a parent of some indentation. -/
def block? (literal : Bool) (parent : Int) (c : Cursor) : Option (List Char × Cursor) := do
  let (head, c) ← blockHead? c.skip
  let c ← c.skipRestOfLine?
  let given := if head.increment = 0 then 0 else (max parent 0).toNat + head.increment
  let (breaks, indent, c) ← blockBreaks? parent given c
  let (b, c) ← Block.readLines? literal parent indent (c.rest.length + 1) c { breaks }
  some (b.chomped head.chomping, c)

end PeerCache.Yaml.Scalar
