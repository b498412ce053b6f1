import PeerCache.Decimal.Shortest

/-!
# JSON documents

A document as it is written: numbers and strings are kept as they stand in the text, so that
writing one down is a matter of brackets, commas and blanks alone.

`compact` puts nothing between tokens; `pretty` puts each element on a line of its own, indented
by two blanks a level, and leaves empty brackets closed.
-/

namespace PeerCache

inductive Json where
  | null
  | bool (b : Bool)
  /-- The digits of a number. -/
  | number (text : String)
  /-- What stands between the quotes. -/
  | string (raw : List Char)
  | list (elements : List Json)
  | object (fields : List (List Char × Json))
  deriving Inhabited

namespace Json

/-! ## Strings -/

def lowHex (n : Nat) : Char := if n < 10 then Char.ofNat (48 + n) else Char.ofNat (87 + n)

/-- A quote, a backslash and control characters are escaped, nothing else. -/
def escapeChar (c : Char) : List Char :=
  match c with
  | '"' => ['\\', '"']
  | '\\' => ['\\', '\\']
  | '\n' => ['\\', 'n']
  | '\r' => ['\\', 'r']
  | '\t' => ['\\', 't']
  | c =>
    if c.toNat == 8 then ['\\', 'b']
    else if c.toNat == 12 then ['\\', 'f']
    else if c.toNat < 32 then
      ['\\', 'u', '0', '0', lowHex (c.toNat / 16), lowHex (c.toNat % 16)]
    else [c]

def escape (s : String) : List Char := s.toList.flatMap escapeChar

def ofText (s : String) : Json := string (escape s)

/-! ## Numbers -/

def ofNat (n : Nat) : Json := number (toString n)

/-- From `10 ^ -5` up to `10 ^ 16` a double is written with a point and at least one digit after
it, otherwise with an exponent. -/
def floatText (x : Float) : String :=
  if x == 0.0 then "0.0"
  else
    let d := Decimal.shortest x
    let ds := (toString d.digits).toList
    let k : Int := ds.length + d.exponent
    if 0 < k && k ≤ 16 then
      let whole := ds.take k.toNat ++ List.replicate (k.toNat - ds.length) '0'
      let part := ds.drop k.toNat
      String.ofList (whole ++ '.' :: (if part.isEmpty then ['0'] else part))
    else if -5 < k && k ≤ 0 then
      String.ofList ('0' :: '.' :: (List.replicate (-k).toNat '0' ++ ds))
    else
      let mantissa := match ds with
        | [d] => [d]
        | d :: rest => d :: '.' :: rest
        | [] => []
      String.ofList mantissa ++ "e" ++ toString (k - 1)

/-- A double that is neither infinite nor negative. -/
def ofFloat (x : Float) : Json := number (floatText x)

/-- An object with its fields in this order. -/
def ofFields (fields : List (String × Json)) : Json := object (fields.map fun f => (escape f.1, f.2))

/-! ## Writing -/

def quoted (raw : List Char) : String := "\"" ++ String.ofList raw ++ "\""

mutual

def compact : Json → String
  | null => "null"
  | bool b => if b then "true" else "false"
  | number t => t
  | string raw => quoted raw
  | list es => "[" ++ compactElements es ++ "]"
  | object fs => "\x7b" ++ compactFields fs ++ "\x7d"

def compactElements : List Json → String
  | [] => ""
  | [e] => e.compact
  | e :: es => e.compact ++ "," ++ compactElements es

def compactFields : List (List Char × Json) → String
  | [] => ""
  | [(k, v)] => quoted k ++ ":" ++ v.compact
  | (k, v) :: fs => quoted k ++ ":" ++ v.compact ++ "," ++ compactFields fs

end

/-- A new line, indented to a level. -/
def lineBreak (level : Nat) : String := "\n" ++ String.ofList (List.replicate (2 * level) ' ')

mutual

def prettyAt (level : Nat) : Json → String
  | null => "null"
  | bool b => if b then "true" else "false"
  | number t => t
  | string raw => quoted raw
  | list [] => "[]"
  | list es => "[" ++ prettyElements (level + 1) es ++ lineBreak level ++ "]"
  | object [] => "\x7b\x7d"
  | object fs => "\x7b" ++ prettyFields (level + 1) fs ++ lineBreak level ++ "\x7d"

def prettyElements (level : Nat) : List Json → String
  | [] => ""
  | [e] => lineBreak level ++ e.prettyAt level
  | e :: es => lineBreak level ++ e.prettyAt level ++ "," ++ prettyElements level es

def prettyFields (level : Nat) : List (List Char × Json) → String
  | [] => ""
  | [(k, v)] => lineBreak level ++ quoted k ++ ": " ++ v.prettyAt level
  | (k, v) :: fs =>
    lineBreak level ++ quoted k ++ ": " ++ v.prettyAt level ++ "," ++ prettyFields level fs

end

def pretty (j : Json) : String := j.prettyAt 0

end Json

end PeerCache
