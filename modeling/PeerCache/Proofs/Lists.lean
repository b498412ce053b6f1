import Mathlib

/-!
# Lists by position

Histories are lists that only grow at their end, and records in them change in place.
-/

namespace PeerCache

variable {α : Type}

/-- What stands in a list with one more element at its end. -/
theorem getElem?_concat_eq_some {xs : List α} {a b : α} {i : Nat} :
    (xs ++ [a])[i]? = some b ↔ xs[i]? = some b ∨ i = xs.length ∧ b = a := by
  rcases Nat.lt_trichotomy i xs.length with hi | hi | hi
  · rw [List.getElem?_append_left hi]
    refine ⟨.inl, ?_⟩
    rintro (h | ⟨rfl, -⟩)
    · exact h
    · exact absurd hi (Nat.lt_irrefl _)
  · subst hi
    rw [List.getElem?_concat_length, List.getElem?_eq_none (Nat.le_refl _)]
    simp [eq_comm]
  · have hn : (xs ++ [a])[i]? = none := by
      rw [List.getElem?_eq_none_iff, List.length_append, List.length_singleton]
      omega
    rw [hn, List.getElem?_eq_none (Nat.le_of_lt hi)]
    simp only [reduceCtorEq, false_or, false_iff, not_and]
    omega

/-- The last element of a list goes by what tells it from the others. -/
theorem filter_ne_concat {β : Type} [BEq β] [LawfulBEq β] {f : α → β} {xs : List α} {a : α}
    (h : ((xs ++ [a]).map f).Nodup) : (xs ++ [a]).filter (f · != f a) = xs := by
  rw [List.map_append, List.nodup_append] at h
  rw [List.filter_append, List.filter_eq_self.mpr]
  · simp
  · intro b hb
    exact bne_iff_ne.mpr (h.2.2 (f b) (List.mem_map_of_mem hb) (f a) (by simp))

/-- What stands in a list that was changed at one place. -/
theorem getElem?_modify_eq_some {xs : List α} {f : α → α} {i j : Nat} {b : α} :
    (xs.modify i f)[j]? = some b ↔ ∃ a, xs[j]? = some a ∧ b = if i = j then f a else a := by
  rw [List.getElem?_modify]
  cases xs[j]? with
  | none => simp
  | some a =>
    by_cases h : i = j
    · simp [h, eq_comm]
    · simp [h, eq_comm]

/-- A change that changes nothing at its place changes nothing. -/
theorem modify_eq_self {xs : List α} {f : α → α} {i : Nat} {a : α} (ha : xs[i]? = some a) (hf : f a = a) :
    xs.modify i f = xs := by
  apply List.ext_getElem?
  intro j
  rw [List.getElem?_modify]
  by_cases hj : i = j
  · subst hj
    simp [ha, hf]
  · simp [hj]

/-- One thing stands at one place. -/
theorem eq_of_getElem? {xs : List α} {i : Nat} {a b : α} (ha : xs[i]? = some a)
    (hb : xs[i]? = some b) : b = a :=
  Option.some.inj (hb.symm.trans ha)

/-- What was changed at one place holds nothing else new. -/
theorem mem_modify {xs : List α} {u : α → α} {i : Nat} {b : α} (h : b ∈ xs.modify i u) :
    b ∈ xs ∨ ∃ a, xs[i]? = some a ∧ b = u a := by
  obtain ⟨j, hj⟩ := List.mem_iff_getElem?.mp h
  obtain ⟨a, ha, rfl⟩ := getElem?_modify_eq_some.mp hj
  split
  · next hi =>
    subst hi
    exact .inr ⟨a, ha, rfl⟩
  · exact .inl (List.mem_of_getElem? ha)

/-- A change at one place, seen through a function that does not see it. -/
theorem map_modify_of_eq {β : Type} {xs : List α} {f : α → α} {g : α → β} {i : Nat}
    (hf : ∀ a, xs[i]? = some a → g (f a) = g a) : (xs.modify i f).map g = xs.map g := by
  apply List.ext_getElem?
  intro j
  rw [List.getElem?_map, List.getElem?_map, List.getElem?_modify]
  cases ha : xs[j]? with
  | none => rfl
  | some a =>
    by_cases hj : i = j
    · subst hj
      simp [hf a ha]
    · simp [hj]

/-- A change at one place, seen as another change there. -/
theorem map_modify_of_comm {β : Type} {xs : List α} {f : α → α} {g : α → β} {f' : β → β} {i : Nat} {a : α}
    (ha : xs[i]? = some a) (hf : g (f a) = f' (g a)) : (xs.modify i f).map g = (xs.map g).modify i f' := by
  apply List.ext_getElem?
  intro j
  rw [List.getElem?_map, List.getElem?_modify, List.getElem?_modify, List.getElem?_map]
  by_cases hj : i = j
  · subst hj
    simp [ha, hf]
  · simp [hj]

/-! ## Counting -/

theorem countP_cons_toNat (p : α → Bool) (a : α) (xs : List α) :
    (a :: xs).countP p = xs.countP p + (p a).toNat := by
  rw [List.countP_cons]
  cases p a <;> rfl

/-- A change at one place counts for what it was and what it is. -/
theorem countP_modify {xs : List α} {f : α → α} {i : Nat} {a : α} (ha : xs[i]? = some a) (p : α → Bool) :
    (xs.modify i f).countP p + (p a).toNat = xs.countP p + (p (f a)).toNat := by
  induction xs generalizing i with
  | nil => cases ha
  | cons x xs ih =>
    cases i with
    | zero =>
      obtain rfl : x = a := Option.some.inj ha
      rw [List.modify_zero_cons, countP_cons_toNat, countP_cons_toNat]
      omega
    | succ i =>
      have h := ih ha
      rw [List.modify_succ_cons, countP_cons_toNat, countP_cons_toNat]
      omega

/-- What is of exactly one of two kinds counts in exactly one. -/
theorem countP_eq_add {xs : List α} {p q r : α → Bool}
    (h : ∀ a ∈ xs, (p a).toNat = (q a).toNat + (r a).toNat) : xs.countP p = xs.countP q + xs.countP r := by
  induction xs with
  | nil => rfl
  | cons a xs ih =>
    obtain ⟨ha, hxs⟩ := List.forall_mem_cons.mp h
    have hrest := ih hxs
    rw [countP_cons_toNat, countP_cons_toNat, countP_cons_toNat]
    omega

/-! ## Functions that can fail -/

/-- A function that can fail, on all elements of a list: it succeeds on every one, or the first failure
is the result. -/
theorem mapM_cases {β ε : Type} (f : α → Except ε β) (xs : List α) :
    (∃ ys, List.Forall₂ (fun x y => f x = .ok y) xs ys ∧ xs.mapM f = .ok ys) ∨
    (∃ before bad after e, xs = before ++ bad :: after ∧ (∀ x ∈ before, ∃ y, f x = .ok y) ∧
      f bad = .error e ∧ xs.mapM f = .error e) := by
  induction xs with
  | nil => exact .inl ⟨[], .nil, rfl⟩
  | cons x xs ih =>
    rw [List.mapM_cons]
    cases hx : f x with
    | error e => exact .inr ⟨[], x, xs, e, rfl, by simp, hx, rfl⟩
    | ok y =>
      rcases ih with ⟨ys, hys, hok⟩ | ⟨before, bad, after, e, rfl, hbefore, hbad, herr⟩
      · rw [hok]
        exact .inl ⟨y :: ys, .cons hx hys, rfl⟩
      · rw [herr]
        exact .inr ⟨x :: before, bad, after, e, rfl, List.forall_mem_cons.mpr ⟨⟨y, hx⟩, hbefore⟩, hbad, rfl⟩

end PeerCache
