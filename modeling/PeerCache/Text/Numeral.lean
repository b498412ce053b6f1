/-!
# Decimal numerals

Reading of unsigned decimal numbers below a limit.  A numeral is one or more ASCII digits;
`readWord?` also takes one leading `+`, as addresses and options do.  Leading zeros are allowed
and a value at or above the limit is refused, so a reading never wraps.
-/

namespace PeerCache.Numeral

/-! ## Algorithm -/

/-- The limit of an unsigned word of 64 bits. -/
def word64 : Nat := 0x10000000000000000

def digitValue (c : Char) : Nat := c.toNat - '0'.toNat

/-- The number that a run of digits denotes. -/
def value (digits : List Char) : Nat :=
  digits.foldl (fun acc c => 10 * acc + digitValue c) 0

/-- A non-empty run of digits whose value lies below `limit`. -/
def readDigits? (limit : Nat) (cs : List Char) : Option Nat :=
  if cs.isEmpty || !cs.all Char.isDigit then none
  else if value cs < limit then some (value cs) else none

/-- A run of digits with an optional leading `+`. -/
def readWord? (limit : Nat) : List Char → Option Nat
  | '+' :: cs => readDigits? limit cs
  | cs => readDigits? limit cs

/-! ## Lemmas -/

theorem isDigit_of_readDigits? {limit n : Nat} {cs : List Char} (h : readDigits? limit cs = some n)
    {c : Char} (hc : c ∈ cs) : c.isDigit = true := by
  unfold readDigits? at h
  split at h
  · cases h
  · next hrun =>
    rw [Bool.or_eq_true, not_or, Bool.not_eq_true', Bool.not_eq_false] at hrun
    exact List.all_eq_true.mp hrun.2 c hc

end PeerCache.Numeral
