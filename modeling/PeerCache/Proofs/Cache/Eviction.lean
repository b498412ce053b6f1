import Mathlib
import PeerCache.Proofs.Cache.OneKey

/-!
# What eviction takes

A put or a new bound leaves the longest most recent end of the entries that fits (`Lru.LongestFit`), and
what stood before it has gone, each entry counted once (`Lru.Trims`).  The order is that of the last
use: an accepted put or a live hit, as the replies show it (`Tier.uses`).

    Lru.Trims c now xs gone l     xs = gone ++ l.entries, of which the entries of l are the longest end
    Tier.InOrder us xs            the entries xs stand in the order in which us last names their keys

An entry that has just been put fits by itself, so it is in the end that stays; how much goes before it
depends on what it replaces and on the unit (`Trims.nil_of_le`, `Trims.length_eq_one`).

Main statement: `Tier.evicts_least_recent`.
-/

namespace PeerCache

/-- The tally after entries have been evicted, each counted by whether it had expired. -/
def Tally.evicted (n : Tally) (gone : List (String × Entry)) (now : Instant) : Tally :=
  { n with
    evictions := n.evictions + gone.countP fun p => !p.2.isExpiredAt now
    expirations := n.expirations + gone.countP fun p => p.2.isExpiredAt now }

namespace Lru

variable {c : Capacity} {now : Instant} {xs gone : List (String × Entry)} {n : Tally} {l : Lru}

/-! ## Trimming -/

theorem evicted_cons (n : Tally) (p : String × Entry) (gone : List (String × Entry)) (now : Instant) :
    (if p.2.isExpiredAt now then n.expire 1 else n.evict 1).evicted gone now =
      n.evicted (p :: gone) now := by
  cases hp : p.2.isExpiredAt now with
  | true => simp [Tally.evicted, Tally.expire, hp, Nat.add_assoc, Nat.add_comm 1]
  | false => simp [Tally.evicted, Tally.evict, hp, Nat.add_assoc, Nat.add_comm 1]

/-- What trimming takes is the complement of what it leaves, and is counted. -/
theorem exists_gone (c : Capacity) (now : Instant) (xs : List (String × Entry)) (n : Tally) :
    ∃ gone, xs = gone ++ (trimFront c now xs n).1 ∧ (trimFront c now xs n).2 = n.evicted gone now := by
  induction xs generalizing n with
  | nil => exact ⟨[], rfl, rfl⟩
  | cons p rest ih =>
    unfold trimFront
    split
    · exact ⟨[], rfl, rfl⟩
    · obtain ⟨gone, hsplit, htally⟩ := ih (if p.2.isExpiredAt now then n.expire 1 else n.evict 1)
      exact ⟨p :: gone, congrArg (p :: ·) hsplit, htally.trans (evicted_cons n p gone now)⟩

/-- Of some entries, the longest most recent end that fits has stayed, and the others have gone and were
added to the tally. -/
structure Trims (c : Capacity) (now : Instant) (xs gone : List (String × Entry)) (n : Tally) (l : Lru) :
    Prop where
  split : xs = gone ++ l.entries
  longest : LongestFit c xs l.entries
  counted : l.tally = n.evicted gone now

theorem trims_trim (l : Lru) (now : Instant) :
    ∃ gone, Trims l.capacity now l.entries gone l.tally (l.trim now) := by
  obtain ⟨gone, hsplit, htally⟩ := exists_gone l.capacity now l.entries l.tally
  exact ⟨gone, hsplit, longestFit_trimFront l.capacity now l.entries l.tally, htally⟩

/-- An accepted put brings its entry to the recent end, and trims. -/
theorem trims_put {key : String} {e : Entry} (hfits : cost l.capacity (key, e) ≤ l.capacity.amount)
    (now : Instant) :
    ∃ gone, Trims l.capacity now (l.use key e).entries gone l.tally.put (l.put key e now).1 := by
  obtain ⟨gone, hsplit, hlongest, hcounted⟩ := (l.use key e).trims_trim now
  unfold put
  rw [if_neg (Nat.not_lt.mpr hfits)]
  refine ⟨gone, hsplit, hlongest, ?_⟩
  show Tally.put ((l.use key e).trim now).tally = _
  rw [hcounted]
  rfl

/-- Nothing goes if all entries fit. -/
theorem Trims.nil_of_le (h : Trims c now xs gone n l) (hfits : (xs.map (cost c)).sum ≤ c.amount) :
    gone = [] := by
  have hsplit := h.split
  rw [h.longest.eq_of_fits hfits] at hsplit
  exact List.self_eq_append_left.mp hsplit

/-- The last entry stays if it fits by itself. -/
theorem Trims.mem_last {p : String × Entry} (h : Trims c now (xs ++ [p]) gone n l)
    (hfits : cost c p ≤ c.amount) : ∃ ys, l.entries = ys ++ [p] := by
  have hlast : [p] <:+ l.entries := h.longest.longest [p] (List.suffix_append xs [p]) (by simpa using hfits)
  obtain ⟨ys, hys⟩ := hlast
  exact ⟨ys, hys.symm⟩

/-- Entries are counted by their number where the bound is. -/
theorem cost_items (k : Nat) (xs : List (String × Entry)) : (xs.map (cost (.items k))).sum = xs.length := by
  induction xs with
  | nil => rfl
  | cons p rest ih => rw [List.map_cons, List.sum_cons, ih, List.length_cons, Nat.add_comm]; rfl

/-- One entry goes if there is one more than the bound. -/
theorem Trims.length_eq_one {k : Nat} (h : Trims (.items k) now xs gone n l) (hlen : xs.length = k + 1) :
    gone.length = 1 := by
  have hfits := h.longest.fits
  have hle := h.longest.longest xs.tail (List.tail_suffix xs)
    (by rw [cost_items, List.length_tail, hlen]; exact Nat.le_refl k)
  have hlength := hle.length_le
  have hsplit := congrArg List.length h.split
  rw [cost_items] at hfits
  rw [List.length_tail] at hlength
  rw [List.length_append] at hsplit
  replace hfits : l.entries.length ≤ k := hfits
  omega

end Lru

namespace Tier

variable {us : List String} {xs : List (String × Entry)} {key : String}

/-! ## Order of use -/

/-- The keys used by some operations, the last use first. -/
def uses : List Op → List Reply → List String
  | op :: ops, r :: rs => uses ops rs ++ (usedKey? op r).toList
  | _, _ => []

/-- Entries stand in the order of their last use, the least recent first. -/
structure InOrder (us : List String) (xs : List (String × Entry)) : Prop where
  used : ∀ p ∈ xs, p.1 ∈ us
  order : xs.Pairwise fun p q => us.idxOf q.1 < us.idxOf p.1

theorem InOrder.sublist {ys : List (String × Entry)} (h : InOrder us xs) (hys : ys.Sublist xs) :
    InOrder us ys :=
  ⟨fun p hp => h.used p (hys.subset hp), h.order.sublist hys⟩

/-- A key that is used comes behind all others. -/
theorem InOrder.use {l : Lru} (h : InOrder us l.entries) (key : String) (e : Entry) :
    InOrder (key :: us) (l.use key e).entries := by
  have hforget := h.sublist (List.filter_sublist (p := fun p => p.1 != key))
  have hne : ∀ p ∈ (l.forget key).entries, p.1 ≠ key := fun p hp =>
    bne_iff_ne.mp (List.mem_filter.mp hp).2
  constructor
  · intro p hp
    rcases List.mem_append.mp hp with hp | hp
    · exact List.mem_cons_of_mem key (hforget.used p hp)
    · rw [List.mem_singleton.mp hp]
      exact List.mem_cons_self
  · refine List.pairwise_append.mpr ⟨?_, List.pairwise_singleton _ _, ?_⟩
    · refine hforget.order.imp_of_mem fun {p q} hp hq hlt => ?_
      rw [List.idxOf_cons_ne us (hne p hp).symm, List.idxOf_cons_ne us (hne q hq).symm]
      exact Nat.succ_lt_succ hlt
    · intro p hp q hq
      rw [List.mem_singleton.mp hq, List.idxOf_cons_self, List.idxOf_cons_ne us (hne p hp).symm]
      exact Nat.succ_pos _

/-- An operation uses a key, which brings it to the end, or leaves the order alone. -/
theorem InOrder.apply {l : Lru} (h : InOrder us l.entries) (op : Op) :
    InOrder ((usedKey? op (l.apply op).2).toList ++ us) (l.apply op).1.entries := by
  rcases l.apply_cases op with ⟨hunused, hgone⟩ | ⟨key, -, hunused, hforget⟩ | ⟨key, e, -, hused, huse, -⟩
  · rw [hunused]
    exact h.sublist hgone.sublist
  · rw [hunused, hforget]
    exact h.sublist List.filter_sublist
  · rw [hused]
    exact (h.use key e).sublist huse.sublist

theorem InOrder.run {l : Lru} (h : InOrder us l.entries) (ops : List Op) :
    InOrder (uses ops (l.run ops).2 ++ us) (l.run ops).1.entries := by
  induction ops generalizing l us with
  | nil => exact h
  | cons op ops ih =>
    have hrest := ih (h.apply op)
    rw [← List.append_assoc] at hrest
    exact hrest

/-! ## What a tier does -/

variable {t : Tier} {e : Entry}

/-- The cost of a key and of all others. -/
theorem Sound.use_cost (h : t.Sound) (key : String) (e : Entry) :
    ((t.view.use key e).entries.map (Lru.cost t.capacity)).sum =
      t.used - t.heldCost key + t.costOf key e := by
  have hplace := (h.place key e).used_eq
  rw [Tier.totalCost_eq, ← map_cost, place_eq] at hplace
  have hview := congrArg Lru.entries (view_place h.toOrdered key e)
  rw [place_eq] at hview
  rw [← hview]
  exact hplace.symm

theorem put_accepted (t : Tier) (key : String) (e : Entry) (now : Instant) :
    (t.put key e.value e.expireAt now).2 = true ↔ t.costOf key e ≤ t.capacity.amount := by
  rw [put_eq]
  by_cases hc : t.capacity.amount < t.costOf key e
  · rw [if_pos hc]
    exact ⟨nofun, fun hle => absurd hle (Nat.not_le.mpr hc)⟩
  · rw [if_neg hc]
    exact ⟨fun _ => Nat.not_lt.mp hc, fun _ => rfl⟩

/-- An accepted put brings its entry to the recent end, and trims. -/
theorem Sound.trims_put (h : t.Sound) {key : String} {e : Entry} (hfits : t.costOf key e ≤ t.capacity.amount)
    (now : Instant) :
    ∃ gone, Lru.Trims t.capacity now (t.view.use key e).entries gone t.tally.put
      (t.put key e.value e.expireAt now).1.view := by
  rw [put_view h]
  exact Lru.trims_put (l := t.view) hfits now

theorem Sound.trims_resize (h : t.Sound) (c : Capacity) (now : Instant) :
    ∃ gone, Lru.Trims c now t.view.entries gone t.tally (t.resize c now).view := by
  rw [← view_resize h]
  exact Lru.trims_trim { t.view with capacity := c } now

/-- One more entry than before, if there was none under its key. -/
theorem Sound.length_use (h : t.Sound) (hnew : t.held? key = none) (e : Entry) :
    (t.view.use key e).entries.length = t.size + 1 := by
  rw [← find?_view h.toLaid] at hnew
  have hforget : (t.view.forget key).entries = t.view.entries := by
    refine (t.view.remove_entries key).symm.trans ?_
    unfold Lru.remove
    rw [hnew]
  show ((t.view.forget key).entries ++ [(key, e)]).length = _
  rw [hforget, List.length_append, ← size_view h.toLaid]
  rfl

/-- **Eviction takes the least recently used entries, and no more.**  After any operations on a new tier
its entries stand in the order of their last use.  A put is accepted if its own cost is within the bound,
and then comes to the recent end of the entries, in place of an older one under its key.  After that, and
after a resize, the longest recent end that fits the bound has stayed, and what stood before it has gone,
each entry counted once as an eviction or, if it had expired, as an expiration.  The new entry is always
among those that stay.  Nothing goes for an entry that replaces one of at least its cost, and exactly one
for a new key in a tier that is full of items. -/
theorem evicts_least_recent (kind : TierKind) (c : TierConfig) (ops : List Op) :
    let r := (create kind c).run ops
    let t := r.1
    InOrder (uses ops r.2) t.view.entries ∧
    (∀ key e now, let p := t.put key e.value e.expireAt now
      (p.2 = true ↔ t.costOf key e ≤ t.capacity.amount) ∧
      (p.2 = true → ∃ gone,
        Lru.Trims t.capacity now (t.view.use key e).entries gone t.tally.put p.1.view ∧
        (∃ older, p.1.view.entries = older ++ [(key, e)]) ∧ p.1.held? key = some e ∧
        (∀ k, t.capacity = .items k → t.size = k → t.held? key = none → gone.length = 1)) ∧
      (∀ old, t.held? key = some old → t.costOf key e ≤ t.costOf key old →
        p.2 = true ∧ p.1.view.entries = (t.view.use key e).entries ∧ p.1.tally = t.tally.put)) ∧
    ∀ d now, ∃ gone, Lru.Trims d now t.view.entries gone t.tally (t.resize d now).view := by
  intro r t
  obtain ⟨h0, hf0⟩ := sound_create kind c
  obtain ⟨h, hf⟩ : t.Sound ∧ t.Fits := run_sound h0 hf0 ops
  refine ⟨?_, fun key e now => ?_, fun d now => h.trims_resize d now⟩
  · obtain ⟨-, hrun⟩ := run_create kind c ops
    have hempty : InOrder [] ({ capacity := c.capacity } : Lru).entries := ⟨nofun, .nil⟩
    have horder := hempty.run ops
    rw [hrun, List.append_nil] at horder
    exact horder
  · intro p
    have haccepted : p.2 = true ↔ t.costOf key e ≤ t.capacity.amount := put_accepted t key e now
    refine ⟨haccepted, fun hp => ?_, fun old hold hcost => ?_⟩
    · have hfits := haccepted.mp hp
      obtain ⟨gone, htrims⟩ := h.trims_put hfits now
      refine ⟨gone, htrims, htrims.mem_last hfits, h.held?_put hf e.expireAt hfits now, fun k hk hsize hnew => ?_⟩
      rw [hk] at htrims
      exact htrims.length_eq_one (by rw [h.length_use hnew, hsize])
    · have hheld : t.heldCost key = t.costOf key old := by
        unfold heldCost
        rw [hold]
        rfl
      have hle := h.heldCost_le key
      have hbound : t.used ≤ t.capacity.amount := hf
      have hfits : t.costOf key e ≤ t.capacity.amount := by omega
      obtain ⟨gone, htrims⟩ := h.trims_put hfits now
      have hnil : gone = [] := htrims.nil_of_le (by rw [h.use_cost]; omega)
      subst hnil
      exact ⟨haccepted.mpr hfits, htrims.split.symm, htrims.counted⟩

end Tier

end PeerCache
