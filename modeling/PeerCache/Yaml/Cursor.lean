/-!
# A place in a text

What is left of a text, and the index, line and column of its first character.  A line ends with
a line feed, or with a carriage return, or with both in this order; only a line feed counts as a
new line, so after a lone carriage return the column goes on.
-/

namespace PeerCache.Yaml

def isBreak (c : Char) : Bool := c == '\n' || c == '\r'

def isBlank (c : Char) : Bool := c == ' ' || c == '\t'

/-- A character of names. -/
def isNameChar (c : Char) : Bool := c.isAlphanum || c == '_' || c == '-'

/-- Divides the elements of a bracketed collection, or opens or closes one. -/
def isFlowMark (c : Char) : Bool := ",[]\x7b\x7d".contains c

structure Cursor where
  rest : List Char
  index : Nat := 0
  line : Nat := 0
  col : Nat := 0

namespace Cursor

def atEnd (c : Cursor) : Bool := c.rest.isEmpty

/-- Whether the character `k` places on has a property; past the end it has none. -/
def has (c : Cursor) (k : Nat) (p : Char → Bool) : Bool := c.rest[k]?.any p

/-- A blank, a line break or the end, `k` places on. -/
def gapAt (c : Cursor) (k : Nat) : Bool := c.rest[k]?.all fun ch => isBlank ch || isBreak ch

def atBreak (c : Cursor) : Bool := c.has 0 isBreak

def atBlank (c : Cursor) : Bool := c.has 0 isBlank

/-- Passes one character. -/
def skip (c : Cursor) : Cursor :=
  match c.rest with
  | [] => c
  | '\n' :: rest => ⟨rest, c.index + 1, c.line + 1, 0⟩
  | _ :: rest => ⟨rest, c.index + 1, c.line, c.col + 1⟩

/-- Passes `n` characters, none of them a line feed. -/
def advance (c : Cursor) (n : Nat) : Cursor :=
  { c with rest := c.rest.drop n, index := c.index + n, col := c.col + n }

/-- Passes one line break. -/
def skipBreak (c : Cursor) : Cursor :=
  if c.has 0 (· == '\r') && c.has 1 (· == '\n') then c.skip.skip
  else if c.atBreak then c.skip else c

/-- The longest run of characters with a property that no line break has. -/
def run (c : Cursor) (p : Char → Bool) : List Char × Cursor :=
  let taken := c.rest.takeWhile p
  (taken, c.advance taken.length)

def skipBlanks (c : Cursor) : Cursor := (c.run isBlank).2

def skipToBreak (c : Cursor) : Cursor := (c.run fun ch => !isBreak ch).2

/-- Passes a comment, if there is one. -/
def skipComment (c : Cursor) : Cursor := if c.has 0 (· == '#') then c.skipToBreak else c

/-- Passes blanks, a comment and the line break after them; anything else is refused. -/
def skipRestOfLine? (c : Cursor) : Option Cursor :=
  let c := c.skipBlanks.skipComment
  if c.atEnd || c.atBreak then some c.skipBreak else none

/-- Three given characters at the beginning of a line, and a gap after them. -/
def atLineMark (c : Cursor) (mark : Char) : Bool :=
  c.col == 0 && c.rest.take 3 == [mark, mark, mark] && c.gapAt 3

/-- The mark that begins or ends a document. -/
def atDocumentMark (c : Cursor) : Bool := c.atLineMark '-' || c.atLineMark '.'

end Cursor

/-- Blanks and line breaks between two words. -/
structure Gap where
  /-- The blanks before the first line break. -/
  blanks : List Char := []
  breaks : Nat := 0

namespace Gap

/-- The text that a gap stands for: one line break is a blank, each further one itself. -/
def text (g : Gap) : List Char :=
  if g.breaks = 0 then g.blanks
  else if g.breaks = 1 then [' ']
  else List.replicate (g.breaks - 1) '\n'

/-- Reads a gap.  In a line after its first, a tab left of the column `margin` is refused. -/
def read? (margin : Int) : Nat → Cursor → Gap → Option (Gap × Cursor)
  | 0, c, g => some (g, c)
  | fuel + 1, c, g =>
    if c.atBlank then
      if 0 < g.breaks && (c.col : Int) < margin && c.has 0 (· == '\t') then none
      else if 0 < g.breaks then read? margin fuel c.skip g
      else read? margin fuel c.skip { g with blanks := g.blanks ++ c.rest.take 1 }
    else if c.atBreak then read? margin fuel c.skipBreak { g with breaks := g.breaks + 1 }
    else some (g, c)

end Gap

/-- The gap at a place; `breaks` line breaks before it count as part of it. -/
def Cursor.gap? (c : Cursor) (margin : Int) (breaks : Nat) : Option (Gap × Cursor) :=
  Gap.read? margin (c.rest.length + 1) c { breaks }

end PeerCache.Yaml
