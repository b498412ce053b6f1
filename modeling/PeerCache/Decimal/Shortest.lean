/-!
# The shortest decimal of a double

The fewest digits that read back as the same double, and of those the nearest to it.

A finite positive double is `m * 2 ^ q`; the numbers that round to it form an interval around it
that reaches half way to its neighbours, the ends belonging to it when `m` is even.  For one digit,
two digits and so on, `shortest` tries the two decimals next to the double on the grid of that
many digits; the first grid with one inside the interval gives the answer.
-/

namespace PeerCache.Decimal

/-- A positive double and its interval, all as numerators over `den`. -/
structure Rounding where
  value : Nat
  low : Nat
  high : Nat
  den : Nat
  /-- Whether the ends of the interval still round to the value. -/
  closed : Bool

/-- The significand and the power of two of a finite positive double. -/
def significand (bits : UInt64) : Nat × Int :=
  let biased := ((bits >>> 52) &&& 0x7FF).toNat
  let low := (bits &&& 0xFFFFFFFFFFFFF).toNat
  if biased = 0 then (low, -1074) else (0x10000000000000 + low, (biased : Int) - 1075)

/-- Below a power of two the neighbour is only half as far. -/
def lowerGap (m : Nat) (q : Int) : Nat := if m = 0x10000000000000 && q != -1074 then 1 else 2

def Rounding.ofBits (bits : UInt64) : Rounding :=
  let (m, q) := significand bits
  let up := Nat.pow 2 (q - 2).toNat
  ⟨4 * m * up, (4 * m - lowerGap m q) * up, (4 * m + 2) * up, Nat.pow 2 (2 - q).toNat, m % 2 == 0⟩

namespace Rounding

/-- Whether `p / s` lies in the interval. -/
def admits (r : Rounding) (p s : Nat) : Bool :=
  let v := p * r.den
  if r.closed then r.low * s ≤ v && v ≤ r.high * s else r.low * s < v && v < r.high * s

/-- The least `k` from `k` on with `value < 10 ^ k * den`. -/
def magnitudeUp (r : Rounding) : Nat → Nat → Nat
  | 0, k => k
  | fuel + 1, k => if r.value < Nat.pow 10 k * r.den then k else r.magnitudeUp fuel (k + 1)

/-- The greatest number of zeros after the point that the value has. -/
def zerosAfterPoint (r : Rounding) : Nat → Nat → Nat
  | 0, j => j
  | fuel + 1, j => if r.den ≤ r.value * Nat.pow 10 (j + 1) then j else r.zerosAfterPoint fuel (j + 1)

/-- The power of ten just above the value. -/
def magnitude (r : Rounding) : Int :=
  if r.den ≤ r.value then (r.magnitudeUp 400 1 : Nat) else -(r.zerosAfterPoint 400 0 : Nat)

end Rounding

/-- The number `digits * 10 ^ exponent`. -/
structure Digits where
  digits : Nat
  exponent : Int
  deriving Repr, DecidableEq

namespace Digits

/-- The same number without zeros at the end. -/
def stripped : Nat → Digits → Digits
  | 0, d => d
  | fuel + 1, d =>
    if d.digits != 0 && d.digits % 10 == 0 then stripped fuel ⟨d.digits / 10, d.exponent + 1⟩ else d

end Digits

/-- The nearest number on the grid of `n` digits that rounds to the value. -/
def onGrid? (r : Rounding) (k : Int) (n : Nat) : Option Digits :=
  let e := k - n
  let p := Nat.pow 10 e.toNat
  let s := Nat.pow 10 (-e).toNat
  let c := r.value * s / (r.den * p)
  let below := r.admits (c * p) s
  let above := r.admits ((c + 1) * p) s
  let nearer := 2 * r.value * s ≤ (2 * c + 1) * p * r.den
  if below && (!above || nearer) then some ⟨c, e⟩
  else if above then some ⟨c + 1, e⟩
  else none

/-- The shortest decimal of a finite positive double. -/
def shortest (x : Float) : Digits :=
  let r := Rounding.ofBits x.toBits
  let k := r.magnitude
  let found := (List.range 17).findSome? fun i => onGrid? r k (i + 1)
  (found.getD ⟨0, 0⟩).stripped 20

end PeerCache.Decimal
