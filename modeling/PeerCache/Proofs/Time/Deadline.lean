import Mathlib
import PeerCache.Cache.Entry

/-!
# Deadlines

A deadline is a lifetime after a reading of the clock, to the nanosecond, or never if the calendar does not
reach so far.  Two limits stand before the sum, and nanoseconds, seconds and days are added apart:

    d.span? = none ↔ Span.longest < d.nanos                                                       (span?_eq_none_iff)
    (s.plus x).instant.nanos = s.instant.nanos + x.total                                         (nanos_plus)
    t.after? d = some u ↔ d.nanos ≤ Span.longest ∧ u.nanos = t.nanos + d.nanos ∧ u.nanos ≤ latest  (after?_eq_some_iff)

What is too long for a span leads from any instant of the calendar past its end (`after?_eq_some_iff_of_inCalendar`),
so of the two limits the second decides.
-/

namespace PeerCache

variable {d e : Duration} {s : Stamp} {t u : Instant} {x : Span}

/-- The nanoseconds of a span. -/
def Span.total (x : Span) : Nat := x.seconds * nanosPerSecond + x.nanos

/-- The nanoseconds of the longest span. -/
def Span.longest : Nat := (2 ^ 63 - 1) * 1000000

/-- The calendar has the instant. -/
def Instant.InCalendar (t : Instant) : Prop := Instant.earliest.nanos ≤ t.nanos ∧ t.nanos ≤ Instant.latest.nanos

/-- One deadline is not after another; without a deadline is after all. -/
def Instant.NoLater (due later : Option Instant) : Prop :=
  ∀ u, later = some u → ∃ t, due = some t ∧ t.nanos ≤ u.nanos

/-! ## Durations as spans -/

namespace Duration

theorem total_of_span? (h : d.span? = some x) : x.total = d.nanos := by
  unfold span? at h
  split at h
  · cases h
  · split at h <;> cases h
    exact Nat.div_add_mod' d.nanos nanosPerSecond

/-- Seconds first and nanoseconds only beside the most seconds: together this is one limit. -/
theorem span?_eq_none_iff : d.span? = none ↔ Span.longest < d.nanos := by
  have hparts : d.seconds * nanosPerSecond + d.subsecond = d.nanos := Nat.div_add_mod' d.nanos nanosPerSecond
  have hsub := d.subsecond_lt
  unfold span?
  unfold Span.longest Span.maxSeconds Span.maxNanos nanosPerSecond at *
  split
  · next h => exact ⟨fun _ => by omega, fun _ => rfl⟩
  · next h =>
    split
    · next hnanos => exact ⟨fun _ => by omega, fun _ => rfl⟩
    · next hnanos => exact ⟨nofun, fun hlong => by omega⟩

end Duration

/-! ## Stamps -/

theorem Instant.instant_stamp (t : Instant) : t.stamp.instant = t := by
  unfold Instant.stamp Stamp.instant Instant.ofSeconds Instant.seconds Instant.subsecond
  congr 1
  unfold nanosPerSecond secondsPerDay
  simp only
  omega

/-- No carry is lost. -/
theorem Stamp.nanos_plus (s : Stamp) (x : Span) : (s.plus x).instant.nanos = s.instant.nanos + x.total := by
  unfold Stamp.plus Stamp.instant Instant.ofSeconds Span.total
  unfold nanosPerSecond secondsPerDay
  simp only
  omega

/-- The calendar ends with its last day. -/
theorem Stamp.day_le_iff (s : Stamp) : s.day ≤ lastDay ↔ s.instant.nanos ≤ Instant.latest.nanos := by
  have hsecond : s.second < 86400 := s.second_lt
  have hnano : s.nano < 1000000000 := s.nano_lt
  have hnanos : s.instant.nanos = (s.day * 86400 + s.second) * 1000000000 + s.nano := rfl
  have hlatest : Instant.latest.nanos = 8210266876799999999999 := rfl
  have hday : lastDay = 95026236 := rfl
  omega

/-- The sums on the way fit words with a sign, the nanoseconds one of 32 bits and the others of 64. -/
theorem Stamp.plus_fits (x : Span) (h : s.day ≤ lastDay) :
    s.nano + x.nanos < 2 ^ 31 ∧ s.second + x.seconds + (s.nano + x.nanos) / nanosPerSecond < 2 ^ 63 ∧
      (s.plus x).day < 2 ^ 63 := by
  have hnano : s.nano < 1000000000 := s.nano_lt
  have hsecond : s.second < 86400 := s.second_lt
  have hnanos : x.nanos < 1000000000 := x.nanos_lt
  have hseconds : x.seconds ≤ 9223372036854775 := x.seconds_le
  have hlast : lastDay = 95026236 := rfl
  unfold plus nanosPerSecond secondsPerDay
  simp only
  omega

/-! ## Sums -/

namespace Instant

theorem after?_eq_some_iff :
    t.after? d = some u ↔ d.nanos ≤ Span.longest ∧ u.nanos = t.nanos + d.nanos ∧ u.nanos ≤ latest.nanos := by
  unfold after?
  cases hspan : d.span? with
  | none =>
    have hlong := Duration.span?_eq_none_iff.mp hspan
    refine ⟨nofun, fun h => ?_⟩
    omega
  | some x =>
    have hshort : d.nanos ≤ Span.longest := by
      have hnot := mt Duration.span?_eq_none_iff.mpr (by rw [hspan]; exact Option.some_ne_none x)
      omega
    have hsum : (t.stamp.plus x).instant.nanos = t.nanos + d.nanos := by
      rw [Stamp.nanos_plus, instant_stamp, Duration.total_of_span? hspan]
    rw [Option.bind_some, Stamp.plus?]
    split
    · next h =>
      rw [Stamp.day_le_iff, hsum] at h
      constructor
      · intro heq
        cases heq
        exact ⟨hshort, hsum, hsum ▸ h⟩
      · rintro ⟨-, heq, -⟩
        rw [Option.map_some, Option.some.injEq, Instant.mk.injEq, hsum, heq]
    · next h =>
      rw [Stamp.day_le_iff, hsum] at h
      exact ⟨nofun, fun ⟨_, heq, hle⟩ => absurd (heq ▸ hle) h⟩

/-- The calendar is shorter than the longest span. -/
theorem after?_eq_some_iff_of_inCalendar (ht : t.InCalendar) :
    t.after? d = some u ↔ u.nanos = t.nanos + d.nanos ∧ u.InCalendar := by
  have hearliest : earliest.nanos = -8334601228800000000000 := rfl
  have hlatest : latest.nanos = 8210266876799999999999 := rfl
  have hlongest : Span.longest = 9223372036854775807000000 := rfl
  obtain ⟨hlow, hhigh⟩ := ht
  rw [after?_eq_some_iff]
  unfold InCalendar
  omega

end Instant

/-! ## Deadlines -/

namespace Expiration

theorem resolve_eq_some_iff (ht : t.InCalendar) :
    Expiration.default.resolve (some d) t = some u ↔ u.nanos = t.nanos + d.nanos ∧ u.InCalendar :=
  Instant.after?_eq_some_iff_of_inCalendar ht

theorem resolve_of_inCalendar (ht : t.InCalendar) (hdue : Instant.InCalendar ⟨t.nanos + d.nanos⟩) :
    Expiration.default.resolve (some d) t = some ⟨t.nanos + d.nanos⟩ :=
  (resolve_eq_some_iff ht).mpr ⟨rfl, hdue⟩

theorem resolve_of_not_inCalendar (ht : t.InCalendar) (hdue : ¬ Instant.InCalendar ⟨t.nanos + d.nanos⟩) :
    Expiration.default.resolve (some d) t = none := by
  refine Option.eq_none_iff_forall_ne_some.mpr fun u hu => hdue ?_
  obtain ⟨heq, hin⟩ := (resolve_eq_some_iff ht).mp hu
  exact heq ▸ hin

/-- A longer lifetime ends no earlier. -/
theorem noLater_of_le (ht : t.InCalendar) (hde : d.nanos ≤ e.nanos) :
    Instant.NoLater (Expiration.default.resolve (some d) t) (Expiration.default.resolve (some e) t) := by
  intro u hu
  obtain ⟨heq, hin⟩ := (resolve_eq_some_iff ht).mp hu
  have hlow := ht.1
  have hhigh := hin.2
  have hdue : Instant.InCalendar ⟨t.nanos + d.nanos⟩ := by
    constructor
    · show Instant.earliest.nanos ≤ t.nanos + d.nanos
      omega
    · show t.nanos + d.nanos ≤ Instant.latest.nanos
      omega
  refine ⟨_, resolve_of_inCalendar ht hdue, ?_⟩
  show t.nanos + d.nanos ≤ u.nanos
  omega

/-- An entry expires at its deadline, and without one never. -/
theorem isExpiredAt_iff (ht : t.InCalendar) (v : ByteArray) (later : Instant) :
    (Entry.mk v (Expiration.default.resolve (some d) t)).isExpiredAt later = true ↔
      Instant.InCalendar ⟨t.nanos + d.nanos⟩ ∧ t.nanos + d.nanos ≤ later.nanos := by
  by_cases hdue : Instant.InCalendar ⟨t.nanos + d.nanos⟩
  · rw [resolve_of_inCalendar ht hdue]
    exact decide_eq_true_iff.trans (and_iff_right hdue).symm
  · rw [resolve_of_not_inCalendar ht hdue]
    exact ⟨nofun, fun h => absurd h.1 hdue⟩

theorem resolve_after (ttl : Option Duration) (later : Instant) :
    (after t d).resolve ttl later = t.after? d := by
  unfold after
  cases t.after? d <;> rfl

/-- **Deadlines are exact and never early.**  For every reading of the clock in the calendar and every lifetime,
the deadline is the lifetime later to the nanosecond if the calendar has that instant, and never otherwise.  So it
is not before the reading, a longer lifetime has no earlier one, and an entry with it is expired from the sum on
and not before, or never.  It is the same if it is asked for at once.  The limit on the length of a lifetime holds
back nothing that the calendar has, and no sum on the way wraps. -/
theorem deadline_exact (now : Instant) (hnow : now.InCalendar) (ttl : Duration) :
    let due : Instant := ⟨now.nanos + ttl.nanos⟩
    let deadline := Expiration.default.resolve (some ttl) now
    (due.InCalendar → deadline = some due) ∧ (¬ due.InCalendar → deadline = none) ∧
    (∀ t, deadline = some t → now.nanos ≤ t.nanos) ∧
    (∀ longer : Duration, ttl.nanos ≤ longer.nanos →
      Instant.NoLater deadline (Expiration.default.resolve (some longer) now)) ∧
    (∀ (v : ByteArray) (t : Instant), (Entry.mk v deadline).isExpiredAt t = true ↔
      due.InCalendar ∧ due.nanos ≤ t.nanos) ∧
    (∀ (ttl' : Option Duration) (later : Instant), (after now ttl).resolve ttl' later = deadline) ∧
    (ttl.span? = none → ¬ due.InCalendar) ∧
    (∀ x, ttl.span? = some x → now.stamp.nano + x.nanos < 2 ^ 31 ∧
      now.stamp.second + x.seconds + (now.stamp.nano + x.nanos) / nanosPerSecond < 2 ^ 63 ∧
      (now.stamp.plus x).day < 2 ^ 63) := by
  intro due deadline
  have hday : now.stamp.day ≤ Stamp.lastDay := by
    rw [Stamp.day_le_iff, Instant.instant_stamp]
    exact hnow.2
  refine ⟨resolve_of_inCalendar hnow, resolve_of_not_inCalendar hnow, fun t ht => ?_,
    fun longer => noLater_of_le hnow, isExpiredAt_iff hnow, resolve_after, fun hspan hdue => ?_,
    fun x _ => Stamp.plus_fits x hday⟩
  · obtain ⟨heq, -⟩ := (resolve_eq_some_iff hnow).mp ht
    omega
  · -- the deadline would be an instant, and the sum is none
    have hsome : now.after? ttl = some due := resolve_of_inCalendar hnow hdue
    unfold Instant.after? at hsome
    rw [hspan] at hsome
    cases hsome

/-- The whole calendar is a lifetime from its first instant on, and one nanosecond more is too much. -/
theorem deadline_exact_whole_calendar :
    let all : Duration := .ofSeconds 16544868105599 999999999
    Instant.earliest.InCalendar ∧
    Expiration.default.resolve (some all) Instant.earliest = some Instant.latest ∧
    Expiration.default.resolve (some ⟨all.nanos + 1⟩) Instant.earliest = none := by
  intro all
  have hearliest : Instant.earliest.InCalendar := ⟨by decide, by decide⟩
  have hall : (⟨Instant.earliest.nanos + all.nanos⟩ : Instant) = Instant.latest := by decide
  have hlatest : Instant.InCalendar ⟨Instant.earliest.nanos + all.nanos⟩ := by
    rw [hall]
    exact ⟨by decide, by decide⟩
  have hpast : ¬ Instant.InCalendar ⟨Instant.earliest.nanos + ((all.nanos + 1 : Nat) : Int)⟩ := fun h =>
    absurd h.2 (by decide)
  refine ⟨hearliest, ?_, (deadline_exact _ hearliest ⟨all.nanos + 1⟩).2.1 hpast⟩
  rw [← hall]
  exact (deadline_exact _ hearliest all).1 hlatest

end Expiration

end PeerCache
