import PeerCache.Yaml.Scalar

/-!
# Tokens

A document as a sequence of tokens.  Indentation becomes marks of beginning and end: a deeper
column opens a block collection, a shallower one ends it.  A key is recognised only at the colon
after it, so the place where a key may have begun is remembered (`Candidate`), one for each level
of brackets, and the key's mark is put in front of it afterwards.

`Token.ofText?` gives all tokens of a text, and nothing for a text that breaks a rule of the marks:
a key that spans lines, a dash or a colon where none may stand, quotes that are not closed.
-/

namespace PeerCache.Yaml

inductive Token where
  | directive
  | documentStart
  | documentEnd
  | blockSequence
  | blockMapping
  | blockEnd
  | flowSequence
  | flowSequenceEnd
  | flowMapping
  | flowMappingEnd
  /-- The dash of a block sequence. -/
  | entry
  /-- The comma between brackets. -/
  | comma
  | key
  | value
  | alias (name : String)
  | anchor (name : String)
  | tag (handle suffix : String)
  | scalar (text : String) (isPlain : Bool)
  deriving Repr, DecidableEq

/-- A place where a key may have begun. -/
structure Candidate where
  possible : Bool := false
  /-- Nothing but a key can begin here. -/
  required : Bool := false
  /-- How many tokens stand before it. -/
  position : Nat := 0
  index : Nat := 0
  line : Nat := 0
  col : Nat := 0

/-- A text that has been read in part. -/
structure Scan where
  cursor : Cursor
  tokens : Array Token := #[]
  /-- One for each level of brackets, the innermost first. -/
  candidates : List Candidate := [{}]
  /-- A key may begin here. -/
  keyAllowed : Bool := true
  /-- The column of the innermost block collection. -/
  indent : Int := -1
  /-- The columns of those around it. -/
  outer : List Int := []
  /-- How many brackets are open. -/
  flow : Nat := 0
  /-- The index after a quoted text, where a colon needs no gap after it. -/
  adjacent : Option Nat := none

namespace Scan

/-! ## Keys and columns -/

def push (s : Scan) (t : Token) : Scan := { s with tokens := s.tokens.push t }

def insertAt (s : Scan) (i : Nat) (t : Token) : Scan := { s with tokens := s.tokens.insertIdxIfInBounds i t }

def inFlow (s : Scan) : Bool := 0 < s.flow

def allowKey (s : Scan) : Scan := { s with keyAllowed := true }

def denyKey (s : Scan) : Scan := { s with keyAllowed := false }

/-- A key is at most so long. -/
def maxKey : Nat := 1024

/-- A key ends in its line. -/
def isStale (c : Cursor) (k : Candidate) : Bool :=
  k.possible && (k.line < c.line || k.index + maxKey < c.index)

/-- Gives up the candidates that can no longer be keys. -/
def dropStale? (s : Scan) : Option Scan :=
  if s.candidates.any fun k => isStale s.cursor k && k.required then none
  else some { s with
    candidates := s.candidates.map fun k => if isStale s.cursor k then { k with possible := false } else k }

/-- Gives up the candidate of this level. -/
def dropCandidate? (s : Scan) : Option Scan :=
  match s.candidates with
  | [] => some s
  | k :: rest =>
    if k.possible && k.required then none
    else some { s with candidates := { k with possible := false } :: rest }

/-- Remembers this place, if a key may begin here. -/
def markCandidate? (s : Scan) : Option Scan := do
  if !s.keyAllowed then return s
  let s ← s.dropCandidate?
  let c := s.cursor
  return { s with
    candidates := { possible := true, required := s.inFlow && s.indent == c.col, position := s.tokens.size,
                    index := c.index, line := c.line, col := c.col } :: s.candidates.drop 1 }

/-- Opens a block collection, if its column is deeper than the one around it. -/
def openBlock (s : Scan) (col : Nat) (position : Nat) (t : Token) : Scan :=
  if s.inFlow || (col : Int) ≤ s.indent then s
  else { s with outer := s.indent :: s.outer, indent := col }.insertAt position t

/-- Ends the block collections that are deeper than a column. -/
def closeBlocks (col : Int) : List Int → Scan → Scan
  | [], s => s
  | i :: rest, s =>
    if s.inFlow || s.indent ≤ col then s
    else closeBlocks col rest { s.push .blockEnd with indent := i, outer := rest }

def dedent (s : Scan) (col : Int) : Scan := closeBlocks col s.outer s

/-- Passes `n` characters that make up a token. -/
def take (s : Scan) (n : Nat) (t : Token) : Scan := { s with cursor := s.cursor.advance n }.push t

/-! ## Marks -/

/-- Passes blanks, comments and line breaks.  A tab where a key may begin is left standing. -/
def skipGap : Nat → Scan → Scan
  | 0, s => s
  | fuel + 1, s =>
    let c := s.cursor
    if c.has 0 (· == ' ') then skipGap fuel { s with cursor := c.skip }
    else if c.has 0 (· == '\t') && (s.inFlow || !s.keyAllowed) then skipGap fuel { s with cursor := c.skip }
    else if c.atBreak then
      skipGap fuel { s with cursor := c.skipBreak, keyAllowed := s.keyAllowed || !s.inFlow }
    else if c.has 0 (· == '#') then skipGap fuel { s with cursor := c.skipToBreak }
    else s

/-- The beginning or end of a document. -/
def documentMark? (s : Scan) (t : Token) : Option Scan := do
  let s ← (s.dedent (-1)).dropCandidate?
  return s.denyKey.take 3 t

/-- An opening bracket may begin a key itself. -/
def openFlow? (s : Scan) (t : Token) : Option Scan := do
  let s ← s.markCandidate?
  if 255 ≤ s.flow then none
  return { s with candidates := {} :: s.candidates, flow := s.flow + 1 }.allowKey.take 1 t

def closeFlow? (s : Scan) (t : Token) : Option Scan := do
  let s ← s.dropCandidate?
  let s := if s.inFlow then { s with candidates := s.candidates.drop 1, flow := s.flow - 1 } else s
  return s.denyKey.take 1 t

def comma? (s : Scan) : Option Scan := do
  let s ← s.dropCandidate?
  return s.allowKey.take 1 .comma

def entry? (s : Scan) : Option Scan := do
  if s.inFlow || !s.keyAllowed then none
  let s ← (s.openBlock s.cursor.col s.tokens.size .blockSequence).dropCandidate?
  return s.allowKey.take 1 .entry

/-- A question mark, which begins a key of any kind. -/
def key? (s : Scan) : Option Scan := do
  if !s.inFlow && !s.keyAllowed then none
  let s ← (s.openBlock s.cursor.col s.tokens.size .blockMapping).dropCandidate?
  return { s with keyAllowed := !s.inFlow }.take 1 .key

/-- A colon, after a key or where a key is left out. -/
def value? (s : Scan) : Option Scan :=
  match s.candidates with
  | k :: rest =>
    if k.possible then
      let s := (s.insertAt k.position .key).openBlock k.col k.position .blockMapping
      some ({ s with candidates := { k with possible := false } :: rest }.denyKey.take 1 .value)
    else if s.inFlow then some (s.denyKey.take 1 .value)
    else if !s.keyAllowed then none
    else some ((s.openBlock s.cursor.col s.tokens.size .blockMapping).allowKey.take 1 .value)
  | [] => none

/-! ## Names -/

/-- May follow a name without a gap. -/
def endsName (c : Char) : Bool := isBlank c || isBreak c || "?:,]\x7d%@".contains c || c.toNat == 96

/-- An anchor or an alias: its mark and a name. -/
def name? (s : Scan) (t : String → Token) : Option Scan := do
  let s ← s.markCandidate?
  let (name, c) := s.cursor.skip.run isNameChar
  if name.isEmpty || !c.rest.head?.all endsName then none
  return { s.denyKey with cursor := c }.push (t (String.ofList name))

def isUriChar (c : Char) : Bool := isNameChar c || ";/?:@&=+$,.!~*'()[]%".contains c

/-- The text of a tag with its escaped bytes, if these are UTF-8. -/
def uriText? : Nat → List Char → Option (List Char)
  | 0, _ => none
  | _ + 1, [] => some []
  | fuel + 1, '%' :: h :: l :: rest => do
    let n := 16 * (← Scalar.hexDigit? h) + (← Scalar.hexDigit? l)
    if 128 ≤ n then none
    return Char.ofNat n :: (← uriText? fuel rest)
  | fuel + 1, c :: rest => if c == '%' then none else (uriText? fuel rest).map (c :: ·)

def uri? (cs : List Char) : Option String := (uriText? (cs.length + 1) cs).map String.ofList

/-- Handle and suffix of a tag, and the place after it. -/
def tagParts? (c : Cursor) : Option (String × String × Cursor) := do
  if c.has 1 (· == '<') then
    let (text, c) := (c.advance 2).run isUriChar
    if text.isEmpty || !c.has 0 (· == '>') then none
    return ("", ← uri? text, c.advance 1)
  let (name, c) := (c.advance 1).run isNameChar
  if c.has 0 (· == '!') then
    let (text, c) := (c.advance 1).run isUriChar
    if text.isEmpty then none
    return (String.ofList ('!' :: name ++ ['!']), ← uri? text, c)
  let (more, c) := c.run isUriChar
  if name.isEmpty && more.isEmpty then return ("", "!", c)
  return ("!", ← uri? (name ++ more), c)

def tag? (s : Scan) : Option Scan := do
  let s ← s.markCandidate?
  let (handle, suffix, c) ← tagParts? s.cursor
  if !c.gapAt 0 then none
  return { s.denyKey with cursor := c }.push (.tag handle suffix)

/-! ## Directives -/

/-- A number of a version: one to nine digits. -/
def versionNumber? (c : Cursor) : Option Cursor :=
  let (digits, c) := c.run Char.isDigit
  if digits.isEmpty || 9 < digits.length then none else some c

def version? (c : Cursor) : Option Cursor := do
  let c ← versionNumber? c.skipBlanks
  if !c.has 0 (· == '.') then none
  versionNumber? (c.advance 1)

/-- A handle and the beginning of the tags that it stands for. -/
def tagHandle? (c : Cursor) : Option Cursor := do
  let c := c.skipBlanks
  if !c.has 0 (· == '!') then none
  let (name, c) := (c.advance 1).run isNameChar
  if !name.isEmpty && !c.has 0 (· == '!') then none
  let c := (if c.has 0 (· == '!') then c.advance 1 else c).skipBlanks
  let (text, c) := c.run isUriChar
  if text.isEmpty || (uri? text).isNone || !c.gapAt 0 then none
  return c

/-- A line that begins with a percent sign. -/
def directive? (s : Scan) : Option Scan := do
  let s ← (s.dedent (-1)).dropCandidate?
  let (name, c) := (s.cursor.advance 1).run isNameChar
  if name.isEmpty || !c.gapAt 0 then none
  let c ← match String.ofList name with
    | "YAML" => version? c
    | "TAG" => tagHandle? c
    | _ => some c.skipToBreak
  let c ← c.skipRestOfLine?
  return { s.denyKey with cursor := c }.push .directive

/-! ## Scalars -/

def block? (s : Scan) (literal : Bool) : Option Scan := do
  let s ← s.markCandidate?
  let (text, c) ← Scalar.block? literal s.indent s.cursor
  return { s.allowKey with cursor := c }.push (.scalar (String.ofList text) false)

def quoted? (s : Scan) (quote : Char) : Option Scan := do
  let s ← s.markCandidate?
  let (text, c) ← Scalar.quoted? quote s.cursor
  return { s.denyKey with cursor := c, adjacent := some c.index }.push
    (.scalar (String.ofList text) false)

def plain? (s : Scan) : Option Scan := do
  let s ← s.markCandidate?
  let p ← Scalar.plain? ⟨s.inFlow, s.indent + 1⟩ s.cursor
  return { s with cursor := p.cursor, keyAllowed := p.endsLine }.push (.scalar (String.ofList p.text) true)

/-! ## The next token -/

/-- The end of the text ends all blocks. -/
def finish? (s : Scan) : Option Scan := do
  let s ← (s.dedent (-1)).dropCandidate?
  return s.denyKey

/-- A colon here is a mark. -/
def isValueMark (s : Scan) : Bool :=
  s.cursor.gapAt 1 ||
    (s.inFlow && (s.cursor.has 1 isFlowMark || s.adjacent == some s.cursor.index))

/-- Reads the token that begins with a character. -/
def tokenAt? (s : Scan) (c : Char) : Option Scan :=
  if s.cursor.col == 0 && c == '%' then s.directive?
  else if s.cursor.atLineMark '-' then s.documentMark? .documentStart
  else if s.cursor.atLineMark '.' then s.documentMark? .documentEnd
  else match c with
    | '[' => s.openFlow? .flowSequence
    | '\x7b' => s.openFlow? .flowMapping
    | ']' => s.closeFlow? .flowSequenceEnd
    | '\x7d' => s.closeFlow? .flowMappingEnd
    | ',' => s.comma?
    | '*' => s.name? .alias
    | '&' => s.name? .anchor
    | '!' => s.tag?
    | '\'' => s.quoted? '\''
    | '"' => s.quoted? '"'
    | '%' | '@' => none
    | c =>
      if c.toNat == 96 then none
      else if c == '-' && s.cursor.gapAt 1 then s.entry?
      else if c == '?' && (s.inFlow || s.cursor.gapAt 1) then s.key?
      else if c == ':' && s.isValueMark then s.value?
      else if c == '|' && !s.inFlow then s.block? true
      else if c == '>' && !s.inFlow then s.block? false
      else s.plain?

/-- Reads all tokens from here on. -/
def run? : Nat → Scan → Option Scan
  | 0, _ => none
  | fuel + 1, s => do
    let s ← (skipGap (s.cursor.rest.length + 1) s).dropStale?
    let s := s.dedent s.cursor.col
    match s.cursor.rest with
    | [] => s.finish?
    | c :: _ => run? fuel (← s.tokenAt? c)

end Scan

namespace Token

/-- The tokens of a text, which ends at its first NUL character. -/
def ofText? (text : String) : Option (List Token) :=
  let cs := text.toList.takeWhile fun c => c.toNat != 0
  (Scan.run? (cs.length + 1) { cursor := ⟨cs, 0, 0, 0⟩ }).map (·.tokens.toList)

end Token

end PeerCache.Yaml
