import Mathlib
import PeerCache.Text.Numeral

/-!
# What a numeral denotes

A numeral is a run of digits, and denotes a number in base ten:

    value ds = Nat.ofDigits 10 (digits of ds, the last one first)                  (value_eq_ofDigits)
    readDigits? limit cs = some n ↔ IsRun cs ∧ value cs < limit ∧ n = value cs     (readDigits?_eq_some_iff)

Two runs denote one number exactly if they are the same text behind their leading zeros (`value_eq_iff`).
-/

namespace PeerCache.Numeral

variable {cs ds es : List Char} {c : Char} {limit n : Nat}

/-- One ASCII digit or more. -/
structure IsRun (cs : List Char) : Prop where
  ne_nil : cs ≠ []
  digits : ∀ c ∈ cs, c.isDigit = true

/-- The digits of a run as numbers, the last one first. -/
def lowFirst (ds : List Char) : List Nat := ds.reverse.map digitValue

/-- A run without the zeros in front of it. -/
def withoutZeros (ds : List Char) : List Char := ds.dropWhile (· = '0')

/-! ## Digits -/

theorem toNat_of_isDigit (h : c.isDigit = true) : 48 ≤ c.toNat ∧ c.toNat ≤ 57 := by
  simp only [Char.isDigit, Bool.and_eq_true, decide_eq_true_eq, ge_iff_le, UInt32.le_iff_toNat_le] at h
  exact h

theorem digitValue_lt (h : c.isDigit = true) : digitValue c < 10 := by
  have hc := toNat_of_isDigit h
  show c.toNat - 48 < 10
  omega

theorem ofNat_digitValue (h : c.isDigit = true) : Char.ofNat (digitValue c + 48) = c := by
  have hc := toNat_of_isDigit h
  have hsum : digitValue c + 48 = c.toNat := Nat.sub_add_cancel hc.1
  rw [hsum, Char.ofNat_toNat]

/-- A run can be read off its digits. -/
theorem map_lowFirst (h : ∀ c ∈ ds, c.isDigit = true) :
    ((lowFirst ds).map fun n => Char.ofNat (n + 48)).reverse = ds := by
  unfold lowFirst
  rw [List.map_map, ← List.map_reverse, List.reverse_reverse]
  calc ds.map ((fun n => Char.ofNat (n + 48)) ∘ digitValue)
      = ds.map id := List.map_congr_left fun c hc => ofNat_digitValue (h c hc)
    _ = ds := List.map_id ds

/-! ## Values -/

theorem value_concat (ds : List Char) (c : Char) : value (ds ++ [c]) = 10 * value ds + digitValue c := by
  unfold value
  rw [List.foldl_append]
  rfl

theorem value_eq_ofDigits (ds : List Char) : value ds = Nat.ofDigits 10 (lowFirst ds) := by
  induction ds using List.reverseRecOn with
  | nil => rfl
  | append_singleton ds c ih =>
    have hlow : lowFirst (ds ++ [c]) = digitValue c :: lowFirst ds := by
      unfold lowFirst
      rw [List.reverse_append]
      rfl
    rw [value_concat, hlow, Nat.ofDigits_cons, ih, Nat.add_comm]

theorem readDigits?_eq_some_iff :
    readDigits? limit cs = some n ↔ IsRun cs ∧ value cs < limit ∧ n = value cs := by
  unfold readDigits?
  split
  · next hno =>
    refine ⟨nofun, fun ⟨hrun, _⟩ => ?_⟩
    rw [Bool.or_eq_true, List.isEmpty_iff, Bool.not_eq_true', List.all_eq_false] at hno
    rcases hno with hnil | ⟨c, hc, hno⟩
    · exact absurd hnil hrun.ne_nil
    · exact absurd (hrun.digits c hc) hno
  · next hrun =>
    rw [Bool.or_eq_true, not_or, List.isEmpty_iff, Bool.not_eq_true', Bool.not_eq_false, List.all_eq_true] at hrun
    split
    · next hlt =>
      constructor
      · intro h
        cases h
        exact ⟨⟨hrun.1, hrun.2⟩, hlt, rfl⟩
      · rintro ⟨-, -, rfl⟩
        rfl
    · next hnlt => exact ⟨nofun, fun ⟨_, hlt, _⟩ => absurd hlt hnlt⟩

/-! ## Leading zeros -/

theorem value_withoutZeros (ds : List Char) : value (withoutZeros ds) = value ds := by
  induction ds with
  | nil => rfl
  | cons c ds ih =>
    unfold withoutZeros
    by_cases hc : c = '0'
    · rw [List.dropWhile_cons_of_pos (by simpa using hc)]
      subst hc
      exact ih
    · rw [List.dropWhile_cons_of_neg (by simpa using hc)]

/-- Without zeros in front a run is that of its number. -/
theorem eq_of_value_eq (hd : ∀ c ∈ ds, c.isDigit = true) (he : ∀ c ∈ es, c.isDigit = true)
    (hds : ds.head? ≠ some '0') (hes : es.head? ≠ some '0') (h : value ds = value es) : ds = es := by
  have hdigits (xs : List Char) (hx : ∀ c ∈ xs, c.isDigit = true) (hhead : xs.head? ≠ some '0') :
      Nat.digits 10 (value xs) = lowFirst xs := by
    rw [value_eq_ofDigits]
    refine Nat.digits_ofDigits 10 (by decide) _ (fun n hn => ?_) fun hne hzero => hhead ?_
    · obtain ⟨c, hc, rfl⟩ := List.mem_map.mp hn
      exact digitValue_lt (hx c (List.mem_reverse.mp hc))
    · cases xs with
      | nil => exact absurd rfl hne
      | cons c xs =>
        have hlast : (lowFirst (c :: xs)).getLast hne = digitValue c := by
          simp [lowFirst]
        have hc := ofNat_digitValue (hx c List.mem_cons_self)
        rw [← hlast, hzero] at hc
        rw [List.head?_cons, ← hc]
  rw [← map_lowFirst hd, ← map_lowFirst he, ← hdigits ds hd hds, ← hdigits es he hes, h]

theorem mem_withoutZeros (h : c ∈ withoutZeros ds) : c ∈ ds := (List.dropWhile_sublist _).subset h

theorem head?_withoutZeros (ds : List Char) : (withoutZeros ds).head? ≠ some '0' := by
  intro h
  have hno := List.head?_dropWhile_not (fun c => decide (c = '0')) ds
  unfold withoutZeros at h
  rw [h] at hno
  simp at hno

/-- One number is one text, behind the zeros in front. -/
theorem value_eq_iff (hd : ∀ c ∈ ds, c.isDigit = true) (he : ∀ c ∈ es, c.isDigit = true) :
    value ds = value es ↔ withoutZeros ds = withoutZeros es := by
  constructor
  · intro h
    refine eq_of_value_eq (fun c hc => hd c (mem_withoutZeros hc)) (fun c hc => he c (mem_withoutZeros hc))
      (head?_withoutZeros ds) (head?_withoutZeros es) ?_
    rw [value_withoutZeros, value_withoutZeros, h]
  · intro h
    rw [← value_withoutZeros ds, h, value_withoutZeros]

end PeerCache.Numeral
