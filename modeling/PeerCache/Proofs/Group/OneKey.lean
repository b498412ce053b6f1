import Mathlib
import PeerCache.Proofs.Cache.OneKey
import PeerCache.Proofs.Group.Steps

/-!
# One key of a group

A set leaves its value under the key and no other value, in either tier; a removal leaves nothing
under it.  A load that stores a value leaves this value in its tier.  What the main tier has under a
key, and has not expired, is found there.

What a tier holds under a key after a step (`Group.held?`), it held before, or the step has put it there.
-/

namespace PeerCache

/-- A value under a key is not too large for the tier. -/
def Tier.Admits (t : Tier) (key : String) (v : ByteArray) : Prop :=
  t.costOf key ⟨v, none⟩ ≤ t.capacity.amount

instance (t : Tier) (key : String) (v : ByteArray) : Decidable (t.Admits key v) :=
  inferInstanceAs (Decidable (t.costOf key ⟨v, none⟩ ≤ t.capacity.amount))

namespace Group

variable {P : String → ByteArray → Prop} {g : Group}

/-! ## Sets -/

theorem Holds.setWith (hg : g.Holds P) {key : String} {v : ByteArray} (hv : P key v) (x : Expiration)
    (now : Instant) : (g.setWith key v x now).Holds P :=
  ⟨hg.main.put hv (x.resolve g.settings.itemExpiration now) now, hg.hot.remove key⟩

theorem Holds.setWith_only (hg : g.Holds P) (key : String) (v : ByteArray) (x : Expiration)
    (now : Instant) : (g.setWith key v x now).Holds fun k w => k = key → w = v := by
  constructor
  · refine (hg.main.put_only key v (x.resolve g.settings.itemExpiration now) now).imp ?_
    rintro k w (⟨-, rfl⟩ | ⟨hk, -⟩) he
    · rfl
    · exact absurd he hk
  · exact (hg.hot.remove_key key).imp fun k w hk he => absurd he hk.1

theorem Holds.held?_setWith (hg : g.Holds P) {key : String} {v : ByteArray}
    (hfit : g.cache.main.Admits key v) (x : Expiration) (now : Instant) :
    (g.setWith key v x now).cache.main.held? key =
      some ⟨v, x.resolve g.settings.itemExpiration now⟩ :=
  hg.main.sound.held?_put hg.main.fits (x.resolve g.settings.itemExpiration now) hfit now

/-- A value that is too large goes, and takes what was there with it. -/
theorem Holds.held?_setWith_of_not (hg : g.Holds P) {key : String} {v : ByteArray}
    (hfit : ¬ g.cache.main.Admits key v) (x : Expiration) (now : Instant) :
    (g.setWith key v x now).cache.main.held? key = none :=
  hg.main.sound.held?_put_of_lt hg.main.fits (x.resolve g.settings.itemExpiration now)
    (Nat.lt_of_not_le hfit) now

/-! ## Stores -/

theorem Holds.held?_store (hg : g.Holds P) {key : String} {v : ByteArray}
    (hfit : g.cache.main.Admits key v) (expireAt : Option Instant) (now : Instant) :
    (g.store .main key v expireAt now).cache.main.held? key = some ⟨v, expireAt⟩ :=
  hg.main.sound.held?_put hg.main.fits expireAt hfit now

/-! ## Reads -/

theorem Holds.probe_of_held (hg : g.Holds P) {key : String} {x : Entry} {now : Instant}
    (hx : g.cache.main.held? key = some x) (hlive : x.isExpiredAt now = false) :
    (g.probe .main key now).2 = some x.value := by
  show ((g.cache.main.get key now).2).map (·.value) = some x.value
  rw [hg.main.sound.toLaid.get_of_held hx hlive]
  rfl

theorem glance_of_held {key : String} {x : Entry} {now : Instant}
    (hx : g.cache.main.held? key = some x) (hlive : x.isExpiredAt now = false) :
    g.glance key now = some x.value := by
  unfold glance
  rw [Tier.peek_of_held hx hlive]
  rfl

/-! ## Removals -/

theorem Holds.removeLocal_key (hg : g.Holds P) (key : String) :
    (g.removeLocal key).1.Holds fun k _ => k ≠ key :=
  ⟨(hg.main.remove_key key).imp fun _ _ hk => hk.1, (hg.hot.remove_key key).imp fun _ _ hk => hk.1⟩

/-! ## What is held after a step -/

/-- What a tier of the group has under a key, expired or not. -/
def held? (g : Group) (kind : TierKind) (key : String) : Option Entry := (g.cache.tier kind).held? key

variable {kind kind' : TierKind} {key k : String} {e : Entry}

/-- What a lookup finds is held in its tier and has not expired. -/
theorem Holds.of_probe (hg : g.Holds P) {now : Instant} {v : ByteArray}
    (h : (g.probe kind key now).2 = some v) :
    ∃ e, g.held? kind key = some e ∧ e.isExpiredAt now = false ∧ e.value = v := by
  obtain ⟨e, he, rfl⟩ := Option.map_eq_some_iff.mp h
  obtain ⟨hheld, hlive⟩ := (hg.tier kind).sound.toLaid.of_get he
  exact ⟨e, hheld, hlive, rfl⟩

theorem of_glance {now : Instant} {v : ByteArray} (h : g.glance key now = some v) :
    ∃ e, g.held? .main key = some e ∧ e.isExpiredAt now = false ∧ e.value = v := by
  obtain ⟨e, he, rfl⟩ := Option.map_eq_some_iff.mp h
  obtain ⟨hheld, hlive⟩ := Tier.of_peek he
  exact ⟨e, hheld, hlive, rfl⟩

theorem Holds.of_held?_setWith (hg : g.Holds P) {v : ByteArray} {x : Expiration} {now : Instant}
    (he : (g.setWith k v x now).held? kind key = some e) :
    kind = .main ∧ key = k ∧ e = ⟨v, x.resolve g.settings.itemExpiration now⟩ ∨
      key ≠ k ∧ g.held? kind key = some e := by
  cases kind with
  | main =>
    rcases hg.main.sound.of_held?_put hg.main.fits he with h | h
    · exact .inl ⟨rfl, h⟩
    · exact .inr h
  | hot => exact .inr (hg.hot.sound.of_held?_remove hg.hot.fits he)

theorem Holds.of_held?_store (hg : g.Holds P) {v : ByteArray} {expireAt : Option Instant} {now : Instant}
    (he : (g.store kind' k v expireAt now).held? kind key = some e) :
    kind = kind' ∧ key = k ∧ e = ⟨v, expireAt⟩ ∨
      ¬ (kind = kind' ∧ key = k) ∧ g.held? kind key = some e := by
  by_cases hkind : kind = kind'
  · subst hkind
    have hput : ((g.cache.tier kind).put k v expireAt now).1.held? key = some e := by
      cases kind <;> exact he
    rcases (hg.tier kind).sound.of_held?_put (hg.tier kind).fits hput with h | ⟨hk, h⟩
    · exact .inl ⟨rfl, h⟩
    · exact .inr ⟨fun hne => hk hne.2, h⟩
  · refine .inr ⟨fun hne => hkind hne.1, ?_⟩
    cases kind <;> cases kind' <;> first | exact absurd rfl hkind | exact he

theorem Holds.of_held?_removeLocal (hg : g.Holds P) (he : (g.removeLocal k).1.held? kind key = some e) :
    key ≠ k ∧ g.held? kind key = some e := by
  cases kind with
  | main => exact hg.main.sound.of_held?_remove hg.main.fits he
  | hot => exact hg.hot.sound.of_held?_remove hg.hot.fits he

theorem Holds.of_held?_probe (hg : g.Holds P) {now : Instant}
    (he : (g.probe kind' k now).1.held? kind key = some e) : g.held? kind key = some e := by
  by_cases hkind : kind = kind'
  · subst hkind
    have hget : ((g.cache.tier kind).get k now).1.held? key = some e := by
      cases kind <;> exact he
    rcases (hg.tier kind).sound.of_held?_apply (hg.tier kind).fits (.get k now) hget with h | ⟨t, hop⟩
    · exact h
    · cases hop
  · cases kind <;> cases kind' <;> first | exact absurd rfl hkind | exact he

theorem Holds.of_held?_reconfigure (hg : g.Holds P) {c : GroupConfig} {now : Instant}
    (he : (g.reconfigure c now).held? kind key = some e) : g.held? kind key = some e := by
  have hresize {t : Tier} (ht : t.Holds P) {b : Capacity} (h : (t.resize b now).held? key = some e) :
      t.held? key = some e := by
    rcases ht.sound.of_held?_apply ht.fits (.resize b now) h with h | ⟨x, hop⟩
    · exact h
    · cases hop
  cases kind with
  | main => exact hresize hg.main he
  | hot => exact hresize hg.hot he

theorem Holds.held?_removeLocal_of_ne (hg : g.Holds P) (hk : key ≠ k) (he : g.held? kind key = some e) :
    (g.removeLocal k).1.held? kind key = some e := by
  cases kind with
  | main => exact hg.main.sound.held?_remove_of_ne hg.main.fits hk he
  | hot => exact hg.hot.sound.held?_remove_of_ne hg.hot.fits hk he

/-- What has not expired stays where it is, whatever is looked up in whichever tier. -/
theorem Holds.held?_probe_of_live (hg : g.Holds P) {now : Instant} (he : g.held? kind key = some e)
    (hlive : e.isExpiredAt now = false) (kind' : TierKind) (k : String) :
    (g.probe kind' k now).1.held? kind key = some e := by
  by_cases hkind : kind = kind'
  · subst hkind
    have hget := (hg.tier kind).sound.held?_get_of_live (hg.tier kind).fits he hlive k
    cases kind <;> exact hget
  · cases kind <;> cases kind' <;> first | exact absurd rfl hkind | exact he

end Group

end PeerCache
