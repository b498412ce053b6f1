import PeerCache.Error
import PeerCache.Text.Numeral

/-!
# Addresses to listen on

An address of version four or six and a port, `127.0.0.1:80` or `[::1]:80`; host names have no
place here.  Parts of a version-four address have no leading zeros.  A version-six address has
eight groups of up to four hexadecimal digits, where `::` stands for one or more groups of zeros
and the last two groups may be written as a version-four address; it may be followed by `%` and
the number of a scope.
-/

namespace PeerCache

inductive HostAddress where
  | four (a b c d : Nat)
  | six (groups : List Nat) (scope : Nat)
  deriving Repr, DecidableEq

structure SocketAddress where
  host : HostAddress
  port : Nat
  deriving Repr, DecidableEq

namespace SocketAddress

/-! ## Reading -/

/-- Something read at the beginning of a text, with the rest of it. -/
abbrev Reader (α : Type) := List Char → Option (α × List Char)

/-- One given character. -/
def readChar (c : Char) : Reader Unit
  | d :: cs => if c = d then some ((), cs) else none
  | [] => none

def hexDigit? (c : Char) : Option Nat :=
  if '0' ≤ c && c ≤ '9' then some (c.toNat - 48)
  else if 'a' ≤ c && c ≤ 'f' then some (c.toNat - 87)
  else if 'A' ≤ c && c ≤ 'F' then some (c.toNat - 55)
  else none

/-- A part of a version-four address: at most three digits, below 256. -/
def readPart : Reader Nat := fun cs => do
  let digits := cs.takeWhile Char.isDigit
  if 3 < digits.length || (1 < digits.length && digits.head? == some '0') then none
  let n ← Numeral.readDigits? 256 digits
  some (n, cs.dropWhile Char.isDigit)

def readFour : Reader (Nat × Nat × Nat × Nat) := fun cs => do
  let (a, cs) ← readPart cs
  let (_, cs) ← readChar '.' cs
  let (b, cs) ← readPart cs
  let (_, cs) ← readChar '.' cs
  let (c, cs) ← readPart cs
  let (_, cs) ← readChar '.' cs
  let (d, cs) ← readPart cs
  some ((a, b, c, d), cs)

/-- A group of a version-six address: one to four hexadecimal digits. -/
def readGroup : Reader Nat := fun cs =>
  let digits := cs.takeWhile fun c => (hexDigit? c).isSome
  if digits.isEmpty || 4 < digits.length then none
  else some (digits.foldl (fun n c => 16 * n + (hexDigit? c).getD 0) 0,
    cs.dropWhile fun c => (hexDigit? c).isSome)

/-- Something after a colon, unless it is the first of its kind. -/
def separated {α : Type} (isFirst : Bool) (read : Reader α) : Reader α := fun cs =>
  if isFirst then read cs else (readChar ':' cs).bind fun r => read r.2

/-- At most `room` groups, and whether they end in a version-four address. -/
def readGroups (isFirst : Bool) : Nat → List Char → List Nat × Bool × List Char
  | 0, cs => ([], false, cs)
  | room + 1, cs =>
    match if room = 0 then none else separated isFirst readFour cs with
    | some ((a, b, c, d), rest) => ([256 * a + b, 256 * c + d], true, rest)
    | none =>
      match separated isFirst readGroup cs with
      | some (g, rest) =>
        let (gs, four, rest) := readGroups false room rest
        (g :: gs, four, rest)
      | none => ([], false, cs)

/-- The eight groups of a version-six address. -/
def readSix : Reader (List Nat) := fun cs =>
  match readGroups true 8 cs with
  | (front, four, rest) =>
    if front.length = 8 then some (front, rest)
    else if four then none
    else do
      let (_, rest) ← readChar ':' rest
      let (_, rest) ← readChar ':' rest
      let (back, _, rest) := readGroups true (7 - front.length) rest
      some (front ++ List.replicate (8 - front.length - back.length) 0 ++ back, rest)

/-- A colon and a port, up to the end of the text. -/
def readPort? (cs : List Char) : Option Nat := do
  let (_, cs) ← readChar ':' cs
  Numeral.readDigits? 65536 cs

def readScope : Reader Nat := fun cs =>
  match cs with
  | '%' :: cs => do
    let n ← Numeral.readDigits? 0x100000000 (cs.takeWhile Char.isDigit)
    some (n, cs.dropWhile Char.isDigit)
  | cs => some (0, cs)

def readFour? (cs : List Char) : Option SocketAddress := do
  let ((a, b, c, d), cs) ← readFour cs
  some ⟨.four a b c d, ← readPort? cs⟩

def readSix? (cs : List Char) : Option SocketAddress := do
  let (_, cs) ← readChar '[' cs
  let (groups, cs) ← readSix cs
  let (scope, cs) ← readScope cs
  let (_, cs) ← readChar ']' cs
  some ⟨.six groups scope, ← readPort? cs⟩

def read? (s : String) : Option SocketAddress := readFour? s.toList <|> readSix? s.toList

/-! ## Writing -/

def fourText (a b c d : Nat) : String :=
  toString a ++ "." ++ toString b ++ "." ++ toString c ++ "." ++ toString d

def groupText (g : Nat) : String := String.ofList (Nat.toDigits 16 g)

def groupsText (gs : List Nat) : String := ":".intercalate (gs.map groupText)

/-- The number of zeros at the beginning. -/
def zeros (gs : List Nat) : Nat := (gs.takeWhile (· = 0)).length

/-- Where the first of the longest runs of zeros begins, and its length. -/
def longestZeros (i : Nat) : List Nat → Nat × Nat
  | [] => (i, 0)
  | g :: gs =>
    let (j, n) := longestZeros (i + 1) gs
    if n ≤ zeros (g :: gs) then (i, zeros (g :: gs)) else (j, n)

def sixText (gs : List Nat) : String :=
  match gs with
  | [0, 0, 0, 0, 0, 0xFFFF, x, y] => "::ffff:" ++ fourText (x / 256) (x % 256) (y / 256) (y % 256)
  | gs =>
    let (i, n) := longestZeros 0 gs
    if 1 < n then groupsText (gs.take i) ++ "::" ++ groupsText (gs.drop (i + n)) else groupsText gs

def text (s : SocketAddress) : String :=
  match s.host with
  | .four a b c d => fourText a b c d ++ ":" ++ toString s.port
  | .six gs scope =>
    "[" ++ sixText gs ++ (if scope = 0 then "" else "%" ++ toString scope) ++ "]:" ++ toString s.port

/-! ## Listening -/

/-- An address of this machine: the loopback, all of its own, or a group that it can join. -/
def isOwn (s : SocketAddress) : Bool :=
  match s.host with
  | .four a b c d => a = 127 || 224 ≤ a && a < 240 || [a, b, c, d] == [0, 0, 0, 0] ||
      [a, b, c, d] == [255, 255, 255, 255]
  | .six gs _ => gs.take 7 == List.replicate 7 0 && gs.getLastD 0 ≤ 1

/-- The error of an address that is free of faults and still cannot be listened on. -/
def refused (s : SocketAddress) (reason : String) : Error :=
  .internal ("Failed to bind " ++ s.text ++ ": " ++ reason)

/-- Listens on an address that has been read. -/
def listen (s : SocketAddress) : Except Error Unit :=
  if s.isOwn then .ok () else .error (s.refused "Cannot assign requested address (os error 99)")

/-- The address that a text names. -/
def parse (addr : String) : Except Error SocketAddress :=
  match read? addr with
  | none => .error (.config ("Invalid listen address '" ++ addr ++ "': invalid socket address syntax"))
  | some s => .ok s

/-- Reads an address and listens on it. -/
def bind (addr : String) : Except Error SocketAddress := do
  let s ← parse addr
  s.listen
  .ok s

end SocketAddress

end PeerCache
