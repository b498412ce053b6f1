import Mathlib
import PeerCache.Proofs.Cache.SingleList

/-!
# What a tier can hold

Nothing gets into a tier but by a put, and nothing comes out that was not in it:

    p ∈ (l.apply op).1.entries → p ∈ l.entries, or op is the put of p       (Lru.mem_apply)
    (t.get key now).2 = some e → e was held under key                       (Holds.get)

So a property of keys and values (`Tier.Holds P`) that every put has stays true of all entries.  All that
an operation can do to the entries, and the key that it uses by that, is told by `Lru.apply_cases`.
-/

namespace PeerCache

/-- The key whose entry an operation uses or changes. -/
def Tier.touched? : Tier.Op → Option String
  | .put key .. | .get key _ | .remove key => some key
  | .peek .. | .contains .. | .resize .. => none

/-- The key that an operation used, as its reply shows: of an accepted put or a live hit. -/
def Tier.usedKey? : Tier.Op → Tier.Reply → Option String
  | .put key _ _ _, .stored true => some key
  | .get key _, .entry (some _) => some key
  | _, _ => none

namespace Lru

open Tier (touched? usedKey?)

/-! ## Of the reference -/

theorem mem_of_find? {l : Lru} {key : String} {e : Entry} (h : l.find? key = some e) :
    (key, e) ∈ l.entries := by
  unfold find? at h
  obtain ⟨⟨k, v⟩, hp, rfl⟩ := Option.map_eq_some_iff.mp h
  have hk : k = key := by simpa using List.find?_some hp
  subst hk
  exact List.mem_of_find?_eq_some hp

theorem mem_forget {l : Lru} {key : String} {p : String × Entry} (h : p ∈ (l.forget key).entries) :
    p ∈ l.entries :=
  (List.mem_filter.mp h).1

theorem mem_use {l : Lru} {key : String} {e : Entry} {p : String × Entry}
    (h : p ∈ (l.use key e).entries) : p ∈ l.entries ∨ p = (key, e) := by
  rcases List.mem_append.mp h with h | h
  · exact .inl (mem_forget h)
  · exact .inr (List.mem_singleton.mp h)

/-- Trimming leaves an end of the list. -/
theorem trimFront_suffix (c : Capacity) (now : Instant) (xs : List (String × Entry)) (n : Tally) :
    (trimFront c now xs n).1 <:+ xs := by
  induction xs generalizing n with
  | nil => exact List.suffix_refl []
  | cons p rest ih =>
    unfold trimFront
    split
    · exact List.suffix_refl _
    · exact (ih _).trans (List.suffix_cons p rest)

theorem mem_trim {l : Lru} {now : Instant} {p : String × Entry} (h : p ∈ (l.trim now).entries) :
    p ∈ l.entries :=
  (trimFront_suffix ..).subset h

/-- The longest most recent end of a list of entries that fits a bound. -/
structure LongestFit (c : Capacity) (xs ys : List (String × Entry)) : Prop where
  suffix : ys <:+ xs
  fits : (ys.map (cost c)).sum ≤ c.amount
  longest : ∀ zs, zs <:+ xs → (zs.map (cost c)).sum ≤ c.amount → zs <:+ ys

/-- All entries stay if they fit. -/
theorem LongestFit.eq_of_fits {c : Capacity} {xs ys : List (String × Entry)} (h : LongestFit c xs ys)
    (hfits : (xs.map (cost c)).sum ≤ c.amount) : ys = xs :=
  h.suffix.eq_of_length_le (h.longest xs (List.suffix_refl xs) hfits).length_le

theorem longestFit_trimFront (c : Capacity) (now : Instant) (xs : List (String × Entry)) (n : Tally) :
    LongestFit c xs (trimFront c now xs n).1 := by
  refine ⟨trimFront_suffix c now xs n, ?_, ?_⟩
  · induction xs generalizing n with
    | nil => simp [trimFront]
    | cons p rest ih =>
      unfold trimFront
      split
      · next hfits => exact hfits
      · exact ih _
  · intro zs hzs hfits
    induction xs generalizing n with
    | nil => simpa [trimFront] using hzs
    | cons p rest ih =>
      unfold trimFront
      split
      · exact hzs
      · next habove =>
        rcases List.suffix_cons_iff.mp hzs with rfl | hrest
        · exact absurd hfits habove
        · exact ih _ hrest

/-- A new bound keeps what fits it, from the most recent entry on. -/
theorem longestFit_resize (l : Lru) (c : Capacity) (now : Instant) :
    LongestFit c l.entries (l.resize c now).entries :=
  longestFit_trimFront c now l.entries l.tally

/-- Only a resize changes the bound. -/
theorem apply_capacity (l : Lru) (op : Tier.Op) :
    (l.apply op).1.capacity = match op with
      | .resize c _ => c
      | _ => l.capacity := by
  cases op with
  | put key value expireAt now =>
    show (l.put key ⟨value, expireAt⟩ now).1.capacity = l.capacity
    unfold put
    split <;> rfl
  | get key now =>
    show (l.get key now).1.capacity = l.capacity
    unfold get
    split
    · rfl
    · split <;> rfl
  | peek key now => rfl
  | contains key now => rfl
  | remove key =>
    show (l.remove key).1.capacity = l.capacity
    unfold remove
    split <;> rfl
  | resize c now => rfl

/-- **Everything that an operation can do to the entries**: some go at the least recent end, or its key goes,
or it uses its key, which comes to the recent end, and then some go at the other. -/
theorem apply_cases (l : Lru) (op : Tier.Op) :
    (usedKey? op (l.apply op).2 = none ∧ (l.apply op).1.entries <:+ l.entries) ∨
    (∃ key, touched? op = some key ∧ usedKey? op (l.apply op).2 = none ∧
      (l.apply op).1.entries = (l.forget key).entries) ∨
    (∃ key e, touched? op = some key ∧ usedKey? op (l.apply op).2 = some key ∧
      (l.apply op).1.entries <:+ (l.use key e).entries ∧
      (l.find? key = some e ∨ ∃ now, op = .put key e.value e.expireAt now)) := by
  cases op with
  | put key value expireAt now =>
    right
    show (∃ k, some key = some k ∧ usedKey? _ (.stored (l.put key ⟨value, expireAt⟩ now).2) = none ∧
        (l.put key ⟨value, expireAt⟩ now).1.entries = (l.forget k).entries) ∨
      ∃ k e, some key = some k ∧ usedKey? _ (.stored (l.put key ⟨value, expireAt⟩ now).2) = some k ∧
        (l.put key ⟨value, expireAt⟩ now).1.entries <:+ (l.use k e).entries ∧ _
    unfold put
    split
    · exact .inl ⟨key, rfl, rfl, rfl⟩
    · exact .inr ⟨key, ⟨value, expireAt⟩, rfl, rfl, trimFront_suffix .., .inr ⟨now, rfl⟩⟩
  | get key now =>
    show (usedKey? _ (.entry (l.get key now).2) = none ∧ (l.get key now).1.entries <:+ l.entries) ∨
      (∃ k, some key = some k ∧ usedKey? _ (.entry (l.get key now).2) = none ∧
        (l.get key now).1.entries = (l.forget k).entries) ∨
      ∃ k e, some key = some k ∧ usedKey? _ (.entry (l.get key now).2) = some k ∧
        (l.get key now).1.entries <:+ (l.use k e).entries ∧ _
    unfold get
    split
    · exact .inl ⟨rfl, List.suffix_refl _⟩
    · next e he =>
      right
      split
      · exact .inl ⟨key, rfl, rfl, rfl⟩
      · exact .inr ⟨key, e, rfl, rfl, List.suffix_refl _, .inl he⟩
  | peek key now => exact .inl ⟨rfl, List.suffix_refl _⟩
  | contains key now => exact .inl ⟨rfl, List.suffix_refl _⟩
  | remove key =>
    show (_ ∧ (l.remove key).1.entries <:+ l.entries) ∨
      (∃ k, some key = some k ∧ _ ∧ (l.remove key).1.entries = (l.forget k).entries) ∨ _
    unfold remove
    split
    · exact .inl ⟨rfl, List.suffix_refl _⟩
    · exact .inr (.inl ⟨key, rfl, rfl, rfl⟩)
  | resize c now => exact .inl ⟨rfl, trimFront_suffix ..⟩

/-- Nothing gets in but by a put. -/
theorem mem_apply {l : Lru} {op : Tier.Op} {p : String × Entry} (h : p ∈ (l.apply op).1.entries) :
    p ∈ l.entries ∨ ∃ now, op = .put p.1 p.2.value p.2.expireAt now := by
  rcases l.apply_cases op with ⟨-, hgone⟩ | ⟨key, -, -, hforget⟩ | ⟨key, e, -, -, huse, hsource⟩
  · exact .inl (hgone.subset h)
  · rw [hforget] at h
    exact .inl (mem_forget h)
  · rcases mem_use (huse.subset h) with hp | rfl
    · exact .inl hp
    · exact hsource.imp_left mem_of_find?

end Lru

namespace Tier

variable {P : String → ByteArray → Prop}

/-! ## Of a tier -/

/-- A sound tier within its bound, all of whose entries have a property. -/
structure Holds (P : String → ByteArray → Prop) (t : Tier) : Prop where
  sound : t.Sound
  fits : t.Fits
  all : ∀ x ∈ t.slots, P x.key x.entry.value

theorem Holds.view {t : Tier} (h : t.Holds P) {p : String × Entry} (hp : p ∈ t.view.entries) :
    P p.1 p.2.value := by
  obtain ⟨x, hx, rfl⟩ := List.mem_map.mp hp
  exact h.all x (mem_recency.mp hx)

theorem Sound.apply_capacity {t : Tier} (h : t.Sound) (op : Op) :
    (t.apply op).1.capacity = match op with
      | .resize c _ => c
      | _ => t.capacity := by
  have hview := congrArg (fun p => p.1.capacity) (apply_view h op)
  exact hview.symm.trans (t.view.apply_capacity op)

/-- An operation keeps the property if what it puts has it. -/
theorem Holds.apply {t : Tier} (h : t.Holds P) (op : Op)
    (hput : ∀ key value expireAt now, op = .put key value expireAt now → P key value) :
    (t.apply op).1.Holds P := by
  obtain ⟨hs, hf⟩ := apply_sound h.sound h.fits op
  refine ⟨hs, hf, ?_⟩
  intro x hx
  have hp : pair x ∈ (t.view.apply op).1.entries := by
    rw [apply_view h.sound]
    exact List.mem_map_of_mem (mem_recency.mpr hx)
  rcases Lru.mem_apply hp with hp | ⟨now, hop⟩
  · exact h.view hp
  · exact hput _ _ _ _ hop

theorem Holds.held {t : Tier} (h : t.Holds P) {key : String} {e : Entry} (he : t.held? key = some e) :
    P key e.value := by
  rw [← find?_view h.sound.toLaid] at he
  exact h.view (Lru.mem_of_find? he)

theorem Holds.get {t : Tier} (h : t.Holds P) (key : String) (now : Instant) :
    (t.get key now).1.Holds P ∧ ∀ e, (t.get key now).2 = some e → P key e.value := by
  refine ⟨h.apply (.get key now) (by rintro _ _ _ _ ⟨⟩), ?_⟩
  intro e he
  have hget := congrArg Prod.snd (view_get h.sound key now)
  rw [he] at hget
  unfold Lru.get at hget
  split at hget
  · cases hget
  · next e' hf =>
    split at hget
    · cases hget
    · rw [Option.some.inj hget] at hf
      exact h.view (Lru.mem_of_find? hf)

theorem Holds.peek {t : Tier} (h : t.Holds P) {key : String} {now : Instant} {e : Entry}
    (he : t.peek key now = some e) : P key e.value :=
  h.held (Option.filter_eq_some_iff.mp he).1

theorem Holds.put {t : Tier} (h : t.Holds P) {key : String} {v : ByteArray} (hv : P key v)
    (expireAt : Option Instant) (now : Instant) : (t.put key v expireAt now).1.Holds P :=
  h.apply (.put key v expireAt now) (by rintro _ _ _ _ ⟨⟩; exact hv)

theorem Holds.remove {t : Tier} (h : t.Holds P) (key : String) : (t.remove key).1.Holds P :=
  h.apply (.remove key) (by rintro _ _ _ _ ⟨⟩)

theorem Holds.resize {t : Tier} (h : t.Holds P) (c : Capacity) (now : Instant) :
    (t.resize c now).Holds P :=
  h.apply (.resize c now) (by rintro _ _ _ _ ⟨⟩)

theorem holds_create (P : String → ByteArray → Prop) (kind : TierKind) (c : TierConfig) :
    (create kind c).Holds P := by
  obtain ⟨hs, hf⟩ := sound_create kind c
  refine ⟨hs, hf, ?_⟩
  rw [slots_create]
  intro x hx
  cases hx

end Tier

end PeerCache
