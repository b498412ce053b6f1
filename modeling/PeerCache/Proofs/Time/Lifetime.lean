import Mathlib
import PeerCache.Proofs.Text.Numeral
import PeerCache.Time.Lifetime

/-!
# The grammar of lifetimes

A lifetime is written as groups of a number and a unit, in any order, and perhaps a bare number of seconds at
the end; `Denotes cs n` says this, with the exact sum `n`, for texts of any length and sums of any size.  The
reader goes from left to right with a bounded sum, and agrees with it:

    Denotes cs n → sum total [] cs = if total + n < 2 ^ 64 then .ok (total + n) else .error .number   (sum_of_denotes)
    sum total run cs = .ok t → some n is denoted by run and cs                                        (denotes_of_sum)

Main statement: `read_grammar`.  A text has one sum at most (`Denotes.unique`), so a sum on the way that is too
large is never that of a text whose whole sum is in range.
-/

namespace PeerCache.Lifetime

open Numeral (IsRun lowFirst)

variable {cs ds text run : List Char} {c u : Char} {m n k t total : Nat}

/-! ## The grammar -/

/-- The letters for units and their seconds. -/
def units : List (Char × Nat) :=
  [('d', 86400), ('D', 86400), ('h', 3600), ('H', 3600), ('m', 60), ('M', 60), ('s', 1), ('S', 1)]

/-- A run of digits and the number that it denotes, which fits a word. -/
structure Counts (ds : List Char) (n : Nat) : Prop where
  run : IsRun ds
  value : n = Nat.ofDigits 10 (lowFirst ds)
  fits : n < 2 ^ 64

/-- A text of groups and perhaps a bare number, and its seconds in all. -/
inductive Denotes : List Char → Nat → Prop where
  | nothing : Denotes [] 0
  | bare {ds : List Char} {n : Nat} (count : Counts ds n) : Denotes ds n
  | group {ds cs : List Char} {u : Char} {n k m : Nat} (count : Counts ds n) (unit : (u, k) ∈ units)
      (rest : Denotes cs m) : Denotes (ds ++ u :: cs) (n * k + m)

/-! ## Runs and units -/

theorem unitSeconds?_eq_some : unitSeconds? u = some k ↔ (u, k) ∈ units := by
  unfold unitSeconds? units
  split <;> simp_all [eq_comm]

theorem isDigit_of_unit (h : (u, k) ∈ units) : u.isDigit = false := by
  unfold units at h
  simp only [List.mem_cons, Prod.mk.injEq, List.not_mem_nil, or_false] at h
  rcases h with ⟨rfl, -⟩ | ⟨rfl, -⟩ | ⟨rfl, -⟩ | ⟨rfl, -⟩ | ⟨rfl, -⟩ | ⟨rfl, -⟩ | ⟨rfl, -⟩ | ⟨rfl, -⟩ <;> decide

theorem readDigits?_iff : Numeral.readDigits? Numeral.word64 ds = some n ↔ Counts ds n := by
  rw [Numeral.readDigits?_eq_some_iff, Numeral.value_eq_ofDigits]
  constructor
  · rintro ⟨hrun, hlt, rfl⟩
    exact ⟨hrun, rfl, hlt⟩
  · rintro ⟨hrun, rfl, hlt⟩
    exact ⟨hrun, hlt, rfl⟩

/-- The first unit of a text ends its first run. -/
theorem split_unique {ds' cs' : List Char} {u' : Char} (hds : IsRun ds) (hds' : IsRun ds')
    (hu : u.isDigit = false) (hu' : u'.isDigit = false) (h : ds ++ u :: cs = ds' ++ u' :: cs') :
    ds = ds' ∧ u = u' ∧ cs = cs' := by
  have htake (xs ys : List Char) (v : Char) (hxs : IsRun xs) (hv : v.isDigit = false) :
      (xs ++ v :: ys).takeWhile Char.isDigit = xs := by
    rw [List.takeWhile_append_of_pos hxs.digits, List.takeWhile_cons_of_neg (by simp [hv]), List.append_nil]
  have hsame : ds = ds' := by
    rw [← htake ds cs u hds hu, h, htake ds' cs' u' hds' hu']
  subst hsame
  have hrest := List.append_cancel_left h
  exact ⟨rfl, List.cons.inj hrest⟩

theorem Denotes.cases (h : Denotes text n) :
    (text = [] ∧ n = 0) ∨ Counts text n ∨
      ∃ ds u cs a k m, text = ds ++ u :: cs ∧ Counts ds a ∧ (u, k) ∈ units ∧ Denotes cs m ∧ n = a * k + m := by
  cases h with
  | nothing => exact .inl ⟨rfl, rfl⟩
  | bare count => exact .inr (.inl count)
  | group count unit rest => exact .inr (.inr ⟨_, _, _, _, _, _, rfl, count, unit, rest, rfl⟩)

/-- The letter of a unit has one number of seconds. -/
theorem units_unique {k' : Nat} (h : (u, k) ∈ units) (h' : (u, k') ∈ units) : k = k' := by
  rw [← unitSeconds?_eq_some] at h h'
  exact Option.some.inj (h.symm.trans h')

theorem Counts.not_group (h : Counts text n) (hu : (u, k) ∈ units) : text ≠ ds ++ u :: cs := by
  rintro rfl
  have hdigit := h.run.digits u (by simp)
  rw [isDigit_of_unit hu] at hdigit
  cases hdigit

/-- **A text has one sum at most.** -/
theorem Denotes.unique (hm : Denotes text m) (hn : Denotes text n) : m = n := by
  induction hm generalizing n with
  | nothing =>
    rcases hn.cases with ⟨-, rfl⟩ | hcounts | ⟨ds, u, cs, a, k, r, heq, -⟩
    · rfl
    · exact absurd rfl hcounts.run.ne_nil
    · cases ds <;> cases heq
  | bare count =>
    rcases hn.cases with ⟨rfl, -⟩ | hcounts | ⟨ds, u, cs, a, k, r, heq, -, hunit, -⟩
    · exact absurd rfl count.run.ne_nil
    · rw [count.value, hcounts.value]
    · exact absurd heq (count.not_group hunit)
  | @group ds cs u a k r count unit _ ih =>
    rcases hn.cases with ⟨heq, -⟩ | hcounts | ⟨ds', u', cs', a', k', r', heq, hcount, hunit, hrest, rfl⟩
    · cases ds <;> cases heq
    · exact absurd rfl (hcounts.not_group unit)
    · obtain ⟨rfl, rfl, rfl⟩ :=
        split_unique count.run hcount.run (isDigit_of_unit unit) (isDigit_of_unit hunit) heq
      rw [count.value, hcount.value, units_unique unit hunit, ih hrest]

/-! ## The reader -/

theorem add_eq (total num unit : Nat) :
    add total num unit = if total + num * unit < 2 ^ 64 then .ok (total + num * unit) else .error .number := by
  unfold add
  have hword : Numeral.word64 = 2 ^ 64 := rfl
  rw [hword]
  by_cases h : total + num * unit < 2 ^ 64
  · have hnum : num * unit < 2 ^ 64 := by omega
    rw [if_pos h, decide_eq_true hnum, decide_eq_true h]
    rfl
  · rw [if_neg h, decide_eq_false h, Bool.and_false]
    rfl

/-- Digits are kept until something else comes. -/
theorem sum_run (hds : ∀ c ∈ ds, c.isDigit = true) (total : Nat) (run cs : List Char) :
    sum total run (ds ++ cs) = sum total (ds.reverse ++ run) cs := by
  induction ds generalizing run with
  | nil => rfl
  | cons c ds ih =>
    obtain ⟨hc, hrest⟩ := List.forall_mem_cons.mp hds
    rw [List.cons_append, sum, if_pos hc, ih hrest, List.reverse_cons, List.append_assoc]
    rfl

/-- A number is taken off at the end of its run. -/
theorem sum_end (count : Counts ds n) (total : Nat) : sum total [] ds = add total n 1 := by
  have hrun := sum_run count.run.digits total [] []
  rw [List.append_nil, List.append_nil] at hrun
  have hne : ds.reverse.isEmpty = false := by simpa using count.run.ne_nil
  rw [hrun, sum, hne, List.reverse_reverse, readDigits?_iff.mpr count]
  rfl

/-- A group is taken off at its unit. -/
theorem sum_group (count : Counts ds n) (hu : (u, k) ∈ units) (total : Nat) (cs : List Char) :
    (∀ t, add total n k = .ok t → sum total [] (ds ++ u :: cs) = sum t [] cs) ∧
      ∀ f, add total n k = .error f → sum total [] (ds ++ u :: cs) = .error f := by
  have hdigit : ¬ u.isDigit = true := by rw [isDigit_of_unit hu]; decide
  have hread : Numeral.readDigits? Numeral.word64 ds.reverse.reverse = some n := by
    rw [List.reverse_reverse, readDigits?_iff.mpr count]
  rw [sum_run count.run.digits, List.append_nil, sum, if_neg hdigit]
  constructor
  · intro t h
    simp only [hread, unitSeconds?_eq_some.mpr hu, h]
  · intro f h
    simp only [hread, unitSeconds?_eq_some.mpr hu, h]

/-- What is denoted is read, if the sum stays in range. -/
theorem sum_of_denotes (h : Denotes cs n) (htotal : total < 2 ^ 64) :
    sum total [] cs = if total + n < 2 ^ 64 then .ok (total + n) else .error .number := by
  induction h generalizing total with
  | nothing => rw [sum, Nat.add_zero, if_pos htotal]; rfl
  | bare count => rw [sum_end count, add_eq, Nat.mul_one]
  | @group ds cs u a k m count unit _ ih =>
    obtain ⟨hok, herror⟩ := sum_group count unit total cs
    have hadd := add_eq total a k
    rw [← Nat.add_assoc]
    by_cases hsum : total + a * k < 2 ^ 64
    · rw [if_pos hsum] at hadd
      rw [hok _ hadd, ih hsum]
    · -- a sum that is too large stays too large
      have hmore : ¬ total + a * k + m < 2 ^ 64 := by omega
      rw [if_neg hsum] at hadd
      rw [herror _ hadd, if_neg hmore]

/-- What is read is denoted. -/
theorem denotes_of_sum (hrun : ∀ c ∈ run, c.isDigit = true) (h : sum total run cs = .ok t) :
    ∃ n, Denotes (run.reverse ++ cs) n := by
  induction cs generalizing total run with
  | nil =>
    rw [List.append_nil]
    rw [sum] at h
    split at h
    · next hempty =>
      rw [List.isEmpty_iff.mp hempty]
      exact ⟨0, .nothing⟩
    · split at h
      · next n hread => exact ⟨n, .bare (readDigits?_iff.mp hread)⟩
      · cases h
  | cons c cs ih =>
    rw [sum] at h
    split at h
    · next hc =>
      have hrest := ih (List.forall_mem_cons.mpr ⟨hc, hrun⟩) h
      rw [List.reverse_cons, List.append_assoc] at hrest
      exact hrest
    · split at h
      · cases h
      · next n hread =>
        split at h
        · cases h
        · next k hunit =>
          split at h
          · have hnone : ∀ c ∈ ([] : List Char), c.isDigit = true := by simp
            obtain ⟨m, hm⟩ := ih hnone h
            exact ⟨n * k + m, .group (readDigits?_iff.mp hread) (unitSeconds?_eq_some.mp hunit) hm⟩
          · cases h

theorem seconds_eq_ok_iff : seconds cs = .ok n ↔ Denotes cs n ∧ 1 ≤ n ∧ n < 2 ^ 64 := by
  unfold seconds
  constructor
  · intro h
    split at h
    · cases h
    · cases hsum : sum 0 [] cs with
      | error f => rw [hsum] at h; cases h
      | ok t =>
        have hnone : ∀ c ∈ ([] : List Char), c.isDigit = true := by simp
        obtain ⟨m, hm⟩ : ∃ m, Denotes cs m := denotes_of_sum hnone hsum
        have hread := sum_of_denotes hm (by decide : 0 < 2 ^ 64)
        rw [hsum, Nat.zero_add] at hread
        rw [hsum] at h
        split at hread
        · next hlt =>
          cases hread
          cases t with
          | zero => cases h
          | succ t => cases h; exact ⟨hm, Nat.succ_pos t, hlt⟩
        · cases hread
  · rintro ⟨hn, hpos, hlt⟩
    have hne : cs.isEmpty = false := by
      cases cs with
      | nil => have := hn.unique .nothing; omega
      | cons c cs => rfl
    rw [hne, sum_of_denotes hn (by decide), Nat.zero_add, if_pos hlt]
    cases n with
    | zero => omega
    | succ n => rfl

/-- What is denoted but out of range is refused for that. -/
theorem seconds_of_out_of_range (h : Denotes cs n) (hne : cs ≠ []) :
    (n = 0 → seconds cs = .error .zero) ∧ (2 ^ 64 ≤ n → seconds cs = .error .number) := by
  have hempty : cs.isEmpty = false := by simpa using hne
  have hsum := sum_of_denotes h (by decide : 0 < 2 ^ 64)
  rw [Nat.zero_add] at hsum
  unfold seconds
  rw [hempty, hsum]
  constructor
  · rintro rfl
    rfl
  · intro hlarge
    rw [if_neg (Nat.not_lt.mpr hlarge)]
    rfl

theorem read_of_seconds {s : String} (h : seconds (Text.trim s).toList = .ok n) :
    read s = .ok (Duration.ofSeconds n) := by
  unfold read
  simp only [h]

theorem read_of_fault {s : String} {f : Fault} (h : seconds (Text.trim s).toList = .error f) :
    read s = .error (.config (f.message (Text.trim s))) := by
  unfold read
  simp only [h]

/-- **A lifetime is read exactly if it is written by the grammar** and its exact sum is in range, and is then
that number of seconds; a text has one sum at most.  A text of the grammar whose sum is out of range is refused
for this, whatever sums came on the way, and every other text is refused with the reason and the text. -/
theorem read_grammar (s : String) :
    let text := Text.trim s
    let cs := text.toList
    (∀ d, read s = .ok d ↔
      cs ≠ [] ∧ ∃ n, Denotes cs n ∧ 1 ≤ n ∧ n ≤ 2 ^ 64 - 1 ∧ d = Duration.ofSeconds n) ∧
    (∀ m n, Denotes cs m → Denotes cs n → m = n) ∧
    (∀ n, cs ≠ [] → Denotes cs n →
      (n = 0 → read s = .error (.config (Fault.zero.message text))) ∧
      (2 ^ 64 ≤ n → read s = .error (.config (Fault.number.message text)))) ∧
    ((∃ d, read s = .ok d) ∨ ∃ f : Fault, read s = .error (.config (f.message text))) := by
  intro text cs
  have hword : 2 ^ 64 - 1 + 1 = 2 ^ 64 := rfl
  refine ⟨fun d => ⟨fun h => ?_, ?_⟩, fun m n => Denotes.unique, fun n hne hn => ?_, ?_⟩
  · cases hseconds : seconds cs with
    | error f => cases (read_of_fault hseconds).symm.trans h
    | ok n =>
      obtain ⟨hn, hpos, hlt⟩ := seconds_eq_ok_iff.mp hseconds
      refine ⟨?_, n, hn, hpos, by omega, ?_⟩
      · intro hnil
        have hzero := hn.unique (hnil ▸ Denotes.nothing)
        omega
      · cases (read_of_seconds hseconds).symm.trans h
        rfl
  · rintro ⟨-, n, hn, hpos, hle, rfl⟩
    exact read_of_seconds (seconds_eq_ok_iff.mpr ⟨hn, hpos, by omega⟩)
  · obtain ⟨hzero, hlarge⟩ := seconds_of_out_of_range hn hne
    exact ⟨fun h => read_of_fault (hzero h), fun h => read_of_fault (hlarge h)⟩
  · cases hseconds : seconds cs with
    | ok n => exact .inl ⟨_, read_of_seconds hseconds⟩
    | error f => exact .inr ⟨f, read_of_fault hseconds⟩

example : read " 1h30M05 " = .ok (Duration.ofSeconds 5405) := by cbv

end PeerCache.Lifetime
