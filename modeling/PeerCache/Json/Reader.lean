import PeerCache.Cache.Capacity
import PeerCache.Json.Basic
import PeerCache.Ring
import PeerCache.Text.Numeral

/-!
# Reading JSON

A text is read whole: one document with blanks around it and nothing after.  Numbers and strings
are checked for their form and kept as written; `decodeString?` resolves the escapes of a string,
which fails for half a surrogate pair.

Two configuration values are read from documents: a capacity and the configuration of a ring.
-/

namespace PeerCache.Json

/-! ## Tokens -/

def isSpace (c : Char) : Bool := c == ' ' || c == '\n' || c == '\t' || c == '\r'

def skipSpace (cs : List Char) : List Char := cs.dropWhile isSpace

def isHex (c : Char) : Bool := c.isDigit || ('a' ≤ c && c ≤ 'f') || ('A' ≤ c && c ≤ 'F')

/-- The characters up to the closing quote, and what follows it. -/
def readQuoted : List Char → Option (List Char × List Char)
  | [] => none
  | '"' :: rest => some ([], rest)
  | '\\' :: 'u' :: a :: b :: c :: d :: rest =>
    if isHex a && isHex b && isHex c && isHex d then
      (readQuoted rest).map fun (s, r) => ('\\' :: 'u' :: a :: b :: c :: d :: s, r)
    else none
  | '\\' :: c :: rest =>
    if ['"', '\\', '/', 'b', 'f', 'n', 'r', 't'].contains c then
      (readQuoted rest).map fun (s, r) => ('\\' :: c :: s, r)
    else none
  | c :: rest => if c.toNat < 32 then none else (readQuoted rest).map fun (s, r) => (c :: s, r)

/-- One or more digits. -/
def readRun (cs : List Char) : Option (List Char × List Char) :=
  match cs.span Char.isDigit with
  | ([], _) => none
  | r => some r

def readWhole : List Char → Option (List Char × List Char)
  | '0' :: rest => if (rest.head?.map Char.isDigit) == some true then none else some (['0'], rest)
  | cs => readRun cs

def readFractionPart : List Char → Option (List Char × List Char)
  | '.' :: rest => (readRun rest).map fun (ds, r) => ('.' :: ds, r)
  | cs => some ([], cs)

def readExponentPart : List Char → Option (List Char × List Char)
  | c :: rest =>
    if c == 'e' || c == 'E' then
      match rest with
      | s :: more =>
        if s == '+' || s == '-' then (readRun more).map fun (ds, r) => (c :: s :: ds, r)
        else (readRun rest).map fun (ds, r) => (c :: ds, r)
      | [] => none
    else some ([], c :: rest)
  | [] => some ([], [])

def readNumber (cs : List Char) : Option (List Char × List Char) := do
  let (sign, cs) := match cs with
    | '-' :: rest => (['-'], rest)
    | _ => ([], cs)
  let (whole, cs) ← readWhole cs
  let (part, cs) ← readFractionPart cs
  let (exponent, cs) ← readExponentPart cs
  some (sign ++ whole ++ part ++ exponent, cs)

def readWord (word : String) (value : Json) (cs : List Char) : Option (Json × List Char) :=
  if word.toList.isPrefixOf cs then some (value, cs.drop word.length) else none

/-! ## Documents

Every call below consumes a character or stops, so the length of the text bounds their depth. -/

mutual

def readValue : Nat → List Char → Option (Json × List Char)
  | 0, _ => none
  | fuel + 1, cs =>
    match skipSpace cs with
    | '"' :: rest => (readQuoted rest).map fun (s, r) => (string s, r)
    | '[' :: rest =>
      match skipSpace rest with
      | ']' :: after => some (list [], after)
      | _ => (readElements fuel rest).map fun (es, r) => (list es, r)
    | '\x7b' :: rest =>
      match skipSpace rest with
      | '\x7d' :: after => some (object [], after)
      | _ => (readFields fuel rest).map fun (fs, r) => (object fs, r)
    | 'n' :: rest => readWord "null" null ('n' :: rest)
    | 't' :: rest => readWord "true" (bool true) ('t' :: rest)
    | 'f' :: rest => readWord "false" (bool false) ('f' :: rest)
    | cs => (readNumber cs).map fun (t, r) => (number (String.ofList t), r)

def readElements : Nat → List Char → Option (List Json × List Char)
  | 0, _ => none
  | fuel + 1, cs => do
    let (e, cs) ← readValue fuel cs
    match skipSpace cs with
    | ',' :: rest => (readElements fuel rest).map fun (es, r) => (e :: es, r)
    | ']' :: rest => some ([e], rest)
    | _ => none

def readFields : Nat → List Char → Option (List (List Char × Json) × List Char)
  | 0, _ => none
  | fuel + 1, cs =>
    match skipSpace cs with
    | '"' :: rest => do
      let (key, cs) ← readQuoted rest
      match skipSpace cs with
      | ':' :: rest => do
        let (v, cs) ← readValue fuel rest
        match skipSpace cs with
        | ',' :: rest => (readFields fuel rest).map fun (fs, r) => ((key, v) :: fs, r)
        | '\x7d' :: rest => some ([(key, v)], rest)
        | _ => none
      | _ => none
    | _ => none

end

/-- The document that a text consists of. -/
def read? (s : String) : Option Json :=
  match readValue (s.length + 1) s.toList with
  | some (j, rest) => if (skipSpace rest).isEmpty then some j else none
  | none => none

/-! ## Values -/

def hexDigitValue (c : Char) : Nat :=
  if c.isDigit then c.toNat - 48 else if c.toNat < 97 then c.toNat - 55 else c.toNat - 87

def hexValue (cs : List Char) : Nat := cs.foldl (fun acc c => 16 * acc + hexDigitValue c) 0

def isHighSurrogate (n : Nat) : Bool := 0xD800 ≤ n && n < 0xDC00

def isLowSurrogate (n : Nat) : Bool := 0xDC00 ≤ n && n < 0xE000

/-- The character of a short escape. -/
def unescape : Char → Char
  | 'b' => Char.ofNat 8
  | 'f' => Char.ofNat 12
  | 'n' => '\n'
  | 'r' => '\r'
  | 't' => '\t'
  | c => c

/-- The characters that a string between quotes stands for. -/
def decodeString? : List Char → Option (List Char)
  | '\\' :: 'u' :: a :: b :: c :: d :: '\\' :: 'u' :: e :: f :: g :: h :: rest =>
    let hi := hexValue [a, b, c, d]
    let lo := hexValue [e, f, g, h]
    if isHighSurrogate hi then
      if isLowSurrogate lo then
        (decodeString? rest).map (Char.ofNat (0x10000 + (hi - 0xD800) * 0x400 + (lo - 0xDC00)) :: ·)
      else none
    else if isLowSurrogate hi then none
    else (decodeString? ('\\' :: 'u' :: e :: f :: g :: h :: rest)).map (Char.ofNat hi :: ·)
  | '\\' :: 'u' :: a :: b :: c :: d :: rest =>
    let n := hexValue [a, b, c, d]
    if isHighSurrogate n || isLowSurrogate n then none
    else (decodeString? rest).map (Char.ofNat n :: ·)
  | '\\' :: c :: rest => (decodeString? rest).map (unescape c :: ·)
  | c :: rest => (decodeString? rest).map (c :: ·)
  | [] => some []

/-- A number without sign, fraction and exponent, below `2 ^ 64`. -/
def word? : Json → Option Nat
  | number t => Numeral.readDigits? Numeral.word64 t.toList
  | _ => none

/-- The keys of an object, resolved. -/
def keys? (fields : List (List Char × Json)) : Option (List (String × Json)) :=
  fields.mapM fun f => (decodeString? f.1).map fun k => (String.ofList k, f.2)

end PeerCache.Json

namespace PeerCache

namespace Capacity

/-- An object of one entry, named for the unit. -/
def ofJson? : Json → Option Capacity
  | .object fields => do
    match ← Json.keys? fields with
    | [("items", v)] => v.word?.map items
    | [("bytes", v)] => v.word?.map bytes
    | _ => none
  | _ => none

def toJson (c : Capacity) : Json := .ofFields [(c.unit, .ofNat c.amount)]

end Capacity

namespace RingConfig

/-- An object with the field `virtual_replicas` at most once, other fields ignored, or a list of
at most that value; what is missing is standard. -/
def ofJson? : Json → Option RingConfig
  | .object fields => do
    match (← Json.keys? fields).filter fun f => f.1 == "virtual_replicas" with
    | [] => some standard
    | [(_, v)] => v.word?.map RingConfig.mk
    | _ => none
  | .list [] => some standard
  | .list [v] => v.word?.map RingConfig.mk
  | _ => none

end RingConfig

end PeerCache
