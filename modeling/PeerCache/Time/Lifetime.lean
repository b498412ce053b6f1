import PeerCache.Error
import PeerCache.Text.Blank
import PeerCache.Text.Numeral
import PeerCache.Time.Instant

/-!
# Lifetimes as text

Reading of `1h30m`, `90s` or `1d`: groups of a number and a unit, in any order and as often as
wanted, and at the end optionally a bare number of seconds.  The sum has to be positive and below
`2 ^ 64` seconds; every step is checked, so nothing wraps.

The text is read from left to right and the first fault is reported: a unit without a number
before it, or a number or sum that is too large, comes before an unknown unit.
-/

namespace PeerCache.Lifetime

/-- Seconds in a unit, small or capital. -/
def unitSeconds? : Char → Option Nat
  | 'd' | 'D' => some 86400
  | 'h' | 'H' => some 3600
  | 'm' | 'M' => some 60
  | 's' | 'S' => some 1
  | _ => none

/-- Why a text is no lifetime. -/
inductive Fault where
  | empty
  /-- No number stands where one should, or a number is too large. -/
  | number
  | unit (c : Char)
  | zero
  deriving Repr, DecidableEq

def Fault.message (text : String) : Fault → String
  | empty => "empty duration string"
  | number => "invalid number in duration: " ++ text
  | unit c => "unknown duration unit: " ++ String.singleton c
  | zero => "duration must be positive: " ++ text

/-- Adds a number of units to a sum of seconds. -/
def add (total num unit : Nat) : Except Fault Nat :=
  if num * unit < Numeral.word64 && total + num * unit < Numeral.word64 then .ok (total + num * unit)
  else .error .number

/-- The sum of the groups, where `run` holds the digits read since the last unit, latest first. -/
def sum (total : Nat) (run : List Char) : List Char → Except Fault Nat
  | [] =>
    if run.isEmpty then .ok total
    else match Numeral.readDigits? Numeral.word64 run.reverse with
      | some n => add total n 1
      | none => .error .number
  | c :: cs =>
    if c.isDigit then sum total (c :: run) cs
    else match Numeral.readDigits? Numeral.word64 run.reverse with
      | none => .error .number
      | some n =>
        match unitSeconds? c with
        | none => .error (.unit c)
        | some unit =>
          match add total n unit with
          | .ok t => sum t [] cs
          | .error f => .error f

/-- The seconds that a trimmed text denotes. -/
def seconds (cs : List Char) : Except Fault Nat :=
  if cs.isEmpty then .error .empty
  else match sum 0 [] cs with
    | .ok 0 => .error .zero
    | r => r

def read (s : String) : Except Error Duration :=
  let text := Text.trim s
  match seconds text.toList with
  | .ok n => .ok (Duration.ofSeconds n)
  | .error f => .error (.config (f.message text))

end PeerCache.Lifetime
