/-!
# Instants and durations

An instant is a count of nanoseconds since 1970-01-01T00:00:00Z, negative before it.  Calendars
reach from the first second of year -262143 to the last of year 262142.

A duration is a count of nanoseconds; `Duration.text` writes it in the largest of the units
`s`, `ms`, `µs`, `ns` that it fills, with a fraction free of trailing zeros.

The calendar adds to the day, the second and the nanosecond of an instant, with a carry from each to
the next, and it adds spans only, which are durations of at most `2 ^ 63 - 1` milliseconds.
So two limits stand before `Instant.after?`: the length of the duration and the end of the calendar.
-/

namespace PeerCache

/-- Nanoseconds since 1970-01-01T00:00:00Z. -/
structure Instant where
  nanos : Int
  deriving Repr, DecidableEq, Inhabited

/-- A length of time in nanoseconds. -/
structure Duration where
  nanos : Nat
  deriving Repr, DecidableEq, Inhabited

def nanosPerSecond : Nat := 1000000000

def secondsPerDay : Nat := 86400

/-- The seconds of the longest span. -/
def Span.maxSeconds : Nat := 9223372036854775

/-- The nanoseconds of the longest span, beside its seconds. -/
def Span.maxNanos : Nat := 807000000

/-- A length of time as the calendar takes it: seconds and nanoseconds, `2 ^ 63 - 1` milliseconds at most. -/
structure Span where
  seconds : Nat
  nanos : Nat
  nanos_lt : nanos < nanosPerSecond
  seconds_le : seconds ≤ Span.maxSeconds
  deriving Repr, DecidableEq

/-- The day of an instant since 1970-01-01, the second of that day and the nanosecond of that second. -/
structure Stamp where
  day : Int
  second : Nat
  nano : Nat
  second_lt : second < secondsPerDay
  nano_lt : nano < nanosPerSecond
  deriving Repr, DecidableEq

namespace Duration

/-! ## Algorithm -/

def ofSeconds (s : Nat) (nanos : Nat := 0) : Duration := ⟨s * nanosPerSecond + nanos⟩

def seconds (d : Duration) : Nat := d.nanos / nanosPerSecond

def subsecond (d : Duration) : Nat := d.nanos % nanosPerSecond

theorem subsecond_lt (d : Duration) : d.subsecond < nanosPerSecond := Nat.mod_lt _ (by decide)

/-- A duration as a span, unless it is too long; the seconds are looked at first. -/
def span? (d : Duration) : Option Span :=
  if h : Span.maxSeconds < d.seconds then none
  else if d.seconds = Span.maxSeconds ∧ Span.maxNanos < d.subsecond then none
  else some ⟨d.seconds, d.subsecond, d.subsecond_lt, Nat.le_of_not_lt h⟩

/-- The last `width` digits of `n`, zeros in front. -/
def padded (width n : Nat) : List Char :=
  let ds := (toString n).toList
  List.replicate (width - ds.length) '0' ++ ds

/-- `.5` for a part of five tenths; nothing for no part. -/
def fractionText (width part : Nat) : List Char :=
  match ((padded width part).reverse.dropWhile (· == '0')).reverse with
  | [] => []
  | ds => '.' :: ds

def inUnit (d : Duration) (width : Nat) (unit : String) : String :=
  toString (d.nanos / Nat.pow 10 width) ++
    String.ofList (fractionText width (d.nanos % Nat.pow 10 width)) ++ unit

def text (d : Duration) : String :=
  if nanosPerSecond ≤ d.nanos then d.inUnit 9 "s"
  else if 1000000 ≤ d.nanos then d.inUnit 6 "ms"
  else if 1000 ≤ d.nanos then d.inUnit 3 "µs"
  else d.inUnit 0 "ns"

end Duration

namespace Instant

def ofSeconds (s : Int) (nanos : Nat := 0) : Instant := ⟨s * nanosPerSecond + nanos⟩

def seconds (t : Instant) : Int := t.nanos / nanosPerSecond

def subsecond (t : Instant) : Nat := (t.nanos % nanosPerSecond).toNat

/-- The first instant of the calendar. -/
def earliest : Instant := ofSeconds (-8334601228800)

/-- The last instant of the calendar. -/
def latest : Instant := ofSeconds 8210266876799 999999999

theorem subsecond_lt (t : Instant) : t.subsecond < nanosPerSecond := by
  unfold subsecond nanosPerSecond
  omega

def stamp (t : Instant) : Stamp where
  day := t.seconds / secondsPerDay
  second := (t.seconds % secondsPerDay).toNat
  nano := t.subsecond
  second_lt := by unfold secondsPerDay; omega
  nano_lt := t.subsecond_lt

end Instant

namespace Stamp

/-- The last day of the calendar. -/
def lastDay : Int := 95026236

def instant (s : Stamp) : Instant := Instant.ofSeconds (s.day * secondsPerDay + s.second) s.nano

/-- A span later, with a carry from the nanoseconds to the seconds and from the seconds to the days. -/
def plus (s : Stamp) (x : Span) : Stamp :=
  let nanos := s.nano + x.nanos
  let seconds := s.second + x.seconds + nanos / nanosPerSecond
  { day := s.day + (seconds / secondsPerDay : Nat)
    second := seconds % secondsPerDay
    nano := nanos % nanosPerSecond
    second_lt := Nat.mod_lt _ (by decide)
    nano_lt := Nat.mod_lt _ (by decide) }

/-- A span later, if the calendar has that day. -/
def plus? (s : Stamp) (x : Span) : Option Stamp :=
  if (s.plus x).day ≤ lastDay then some (s.plus x) else none

end Stamp

namespace Instant

/-- The instant a duration later, if it is a span and the calendar reaches that far. -/
def after? (t : Instant) (d : Duration) : Option Instant :=
  d.span?.bind fun x => (t.stamp.plus? x).map Stamp.instant

end Instant

end PeerCache
