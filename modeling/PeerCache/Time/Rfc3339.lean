import PeerCache.Text.Numeral
import PeerCache.Time.Instant

/-!
# Timestamps of RFC 3339

Reading of `2100-01-01T00:00:00.5+01:00`: a date of four-digit year, two-digit month and day, a
separator `T`, `t` or a space, a time with an optional fraction, and an offset `Z`, `z` or
`+hh:mm`.  Digits of a fraction past the ninth are dropped, and a second of 60 is the second after.

Four faults are told apart, and the leftmost wins, except that a date is checked as soon as it is
read, a time after its fraction, and the size of the offset after the end of the text.
-/

namespace PeerCache.Rfc3339

/-- Why a text is no timestamp. -/
inductive Fault where
  | premature
  | invalid
  | outOfRange
  | trailing
  deriving Repr, DecidableEq

def Fault.message : Fault → String
  | premature => "premature end of input"
  | invalid => "input contains invalid characters"
  | outOfRange => "input is out of range"
  | trailing => "trailing input"

/-! ## The calendar -/

def isLeapYear (y : Nat) : Bool := y % 4 == 0 && (y % 100 != 0 || y % 400 == 0)

def daysInMonth (y m : Nat) : Nat :=
  if m == 2 then (if isLeapYear y then 29 else 28)
  else if m == 4 || m == 6 || m == 9 || m == 11 then 30 else 31

/-- Days before the first of January of a year, from year 0 on. -/
def daysBeforeYear (y : Nat) : Nat :=
  if y = 0 then 0 else 365 * y + (y - 1) / 4 - (y - 1) / 100 + (y - 1) / 400 + 1

def daysBeforeMonth (y m : Nat) : Nat := (List.range (m - 1)).foldr (fun i n => daysInMonth y (i + 1) + n) 0

/-- Days from 1970-01-01 to a date. -/
def dayNumber (y m d : Nat) : Int :=
  (daysBeforeYear y + daysBeforeMonth y m + (d - 1) : Nat) - (daysBeforeYear 1970 : Nat)

/-! ## Reading -/

/-- The next `n` characters, as a number. -/
def digits (n : Nat) (cs : List Char) : Except Fault (Nat × List Char) :=
  let ds := cs.take n
  if ds.all Char.isDigit && ds.length == n then .ok (Numeral.value ds, cs.drop n) else .error .invalid

def literal (accept : Char → Bool) : List Char → Except Fault (List Char)
  | c :: rest => if accept c then .ok rest else .error .invalid
  | [] => .error .premature

structure Date where
  year : Nat
  month : Nat
  day : Nat

def Date.isValid (d : Date) : Bool :=
  1 ≤ d.month && d.month ≤ 12 && 1 ≤ d.day && d.day ≤ daysInMonth d.year d.month

def readDate (cs : List Char) : Except Fault (Date × List Char) := do
  let (y, cs) ← digits 4 cs
  let cs ← literal (· == '-') cs
  let (m, cs) ← digits 2 cs
  let cs ← literal (· == '-') cs
  let (d, cs) ← digits 2 cs
  let date : Date := ⟨y, m, d⟩
  if date.isValid then .ok (date, cs) else .error .outOfRange

structure Clock where
  hour : Nat
  minute : Nat
  second : Nat

/-- A sixtieth second is a leap second, allowed in every minute. -/
def Clock.isValid (c : Clock) : Bool := c.hour < 24 && c.minute < 60 && c.second ≤ 60

def readClock (cs : List Char) : Except Fault (Clock × List Char) := do
  let (h, cs) ← digits 2 cs
  let cs ← literal (· == ':') cs
  let (m, cs) ← digits 2 cs
  let cs ← literal (· == ':') cs
  let (s, cs) ← digits 2 cs
  .ok (⟨h, m, s⟩, cs)

/-- The nanoseconds of an optional fraction. -/
def readFraction : List Char → Except Fault (Nat × List Char)
  | '.' :: cs =>
    match cs.span Char.isDigit with
    | ([], []) => .error .premature
    | ([], _) => .error .invalid
    | (ds, rest) => .ok (Numeral.value (ds.take 9) * Nat.pow 10 (9 - min 9 ds.length), rest)
  | cs => .ok (0, cs)

/-- Two digits; too few characters are a premature end. -/
def pair (cs : List Char) : Except Fault (Nat × List Char) :=
  if cs.length < 2 then .error .premature else digits 2 cs

/-- An offset from UTC in minutes. -/
def readOffset : List Char → Except Fault (Int × List Char)
  | [] => .error .premature
  | c :: cs =>
    if c == 'Z' || c == 'z' then .ok (0, cs)
    else if c == '+' || c == '-' then do
      let (h, cs) ← pair cs
      let cs ← literal (· == ':') cs
      let (m, cs) ← pair cs
      if 60 ≤ m then .error .outOfRange
      else .ok ((if c == '-' then -1 else 1) * ((60 * h + m : Nat) : Int), cs)
    else .error .invalid

def instant (d : Date) (c : Clock) (nanos : Nat) (offset : Int) : Instant :=
  Instant.ofSeconds
    (dayNumber d.year d.month d.day * 86400 + (3600 * c.hour + 60 * c.minute + c.second : Nat) - 60 * offset)
    nanos

def read (s : String) : Except Fault Instant := do
  if s.utf8ByteSize < 19 then .error .premature
  let (date, cs) ← readDate s.toList
  let cs ← literal (fun c => c == 'T' || c == 't' || c == ' ') cs
  let (clock, cs) ← readClock cs
  let (nanos, cs) ← readFraction cs
  if !clock.isValid then .error .outOfRange
  let (offset, cs) ← readOffset cs
  if !cs.isEmpty then .error .trailing
  if 24 * 60 ≤ offset.natAbs then .error .outOfRange
  .ok (instant date clock nanos offset)

end PeerCache.Rfc3339
