import Mathlib
import PeerCache.Cache.Tier
import PeerCache.Proofs.Cache.Recency
import PeerCache.Proofs.Cache.Soundness

/-!
# A tier is one list in order of use

The reference (`Lru`) has no shards, no ticks and no running total: one list of keys and entries,
the least recently used first, a bound and seven counters.  A put or a live hit moves a key to the
end of the list, and whatever is above the bound goes from its front.

`Tier.view` reads a tier as such a list, by the order of its ticks.  Every operation commutes with
it and gives the same reply:

    t.Sound → t.view.apply op = ((t.apply op).1.view, (t.apply op).2)      (apply_view)

Main statement: a tier answers, holds, counts and reports what the reference does, after every
sequence of operations; so its number of shards cannot be told from outside (`single_list`).
-/

namespace PeerCache

/-- One list of keys and entries, the least recently used first. -/
structure Lru where
  entries : List (String × Entry) := []
  capacity : Capacity
  tally : Tally := {}
  deriving DecidableEq

namespace Lru

/-! ## The reference -/

def cost (c : Capacity) (p : String × Entry) : Nat := c.cost p.1.utf8ByteSize p.2.size

def find? (l : Lru) (key : String) : Option Entry := (l.entries.find? (·.1 == key)).map (·.2)

def forget (l : Lru) (key : String) : Lru := { l with entries := l.entries.filter (·.1 != key) }

/-- A key with its entry comes to the most recent end. -/
def use (l : Lru) (key : String) (e : Entry) : Lru :=
  { l with entries := (l.forget key).entries ++ [(key, e)] }

/-- Drops from the least recent end while the whole costs more than the bound. -/
def trimFront (c : Capacity) (now : Instant) :
    List (String × Entry) → Tally → List (String × Entry) × Tally
  | [], n => ([], n)
  | p :: rest, n =>
    if ((p :: rest).map (cost c)).sum ≤ c.amount then (p :: rest, n)
    else trimFront c now rest (if p.2.isExpiredAt now then n.expire 1 else n.evict 1)

def trim (l : Lru) (now : Instant) : Lru :=
  let (entries, tally) := trimFront l.capacity now l.entries l.tally
  { l with entries, tally }

def get (l : Lru) (key : String) (now : Instant) : Lru × Option Entry :=
  match l.find? key with
  | none => ({ l with tally := l.tally.miss }, none)
  | some e =>
    if e.isExpiredAt now then ({ l.forget key with tally := (l.tally.expire 1).miss }, none)
    else ({ l.use key e with tally := l.tally.hit }, some e)

/-- An entry above the whole bound is refused, and an older value under its key goes. -/
def put (l : Lru) (key : String) (e : Entry) (now : Instant) : Lru × Bool :=
  if l.capacity.amount < cost l.capacity (key, e) then
    ({ l.forget key with tally := l.tally.reject }, false)
  else
    let l := (l.use key e).trim now
    ({ l with tally := l.tally.put }, true)

def peek (l : Lru) (key : String) (now : Instant) : Option Entry :=
  (l.find? key).filter fun e => !e.isExpiredAt now

def remove (l : Lru) (key : String) : Lru × Option Entry :=
  match l.find? key with
  | none => (l, none)
  | some e => ({ l.forget key with tally := l.tally.remove }, some e)

def resize (l : Lru) (c : Capacity) (now : Instant) : Lru := ({ l with capacity := c }).trim now

def apply (l : Lru) : Tier.Op → Lru × Tier.Reply
  | .put key value expireAt now =>
    let (l, b) := l.put key ⟨value, expireAt⟩ now
    (l, .stored b)
  | .get key now =>
    let (l, e) := l.get key now
    (l, .entry e)
  | .peek key now => (l, .entry (l.peek key now))
  | .contains key now => (l, .holds (l.peek key now).isSome)
  | .remove key =>
    let (l, e) := l.remove key
    (l, .entry e)
  | .resize c now => (l.resize c now, .resized)

def run (l : Lru) : List Tier.Op → Lru × List Tier.Reply
  | [] => (l, [])
  | op :: ops =>
    let (m, r) := l.apply op
    let (n, rs) := m.run ops
    (n, r :: rs)

/-- Within the bound nothing goes. -/
theorem trim_eq_self {l : Lru} {now : Instant}
    (h : (l.entries.map (cost l.capacity)).sum ≤ l.capacity.amount) : l.trim now = l := by
  obtain ⟨entries, capacity, tally⟩ := l
  cases entries with
  | nil => rfl
  | cons p rest =>
    unfold trim
    rw [trimFront, if_pos h]

/-- Above the bound the front goes first. -/
theorem trim_cons {p : String × Entry} {rest : List (String × Entry)} {c : Capacity} {n : Tally}
    {now : Instant} (h : ¬ ((p :: rest).map (cost c)).sum ≤ c.amount) :
    trim ⟨p :: rest, c, n⟩ now =
      trim ⟨rest, c, if p.2.isExpiredAt now then n.expire 1 else n.evict 1⟩ now := by
  unfold trim
  rw [trimFront, if_neg h]

def size (l : Lru) : Nat := l.entries.length

/-- Bytes of keys and values. -/
def bytesStored (l : Lru) : Nat := (l.entries.map fun p => p.1.utf8ByteSize + p.2.size).sum

end Lru

namespace Tier

/-- A slot without its tick. -/
def pair (x : Slot) : String × Entry := (x.key, x.entry)

def view (t : Tier) : Lru := ⟨t.recency.map pair, t.capacity, t.tally⟩

theorem map_without (key : String) (xs : List Slot) :
    (without key xs).map pair = (xs.map pair).filter (·.1 != key) := by
  rw [List.filter_map]
  rfl

theorem map_cost (c : Capacity) (xs : List Slot) :
    ((xs.map pair).map (Lru.cost c)).sum = (xs.map (Slot.cost c)).sum := by
  rw [List.map_map]
  rfl

/-- A key has one entry, so the first one in the order of use is the one in its shard. -/
theorem find?_view {t : Tier} (h : t.Laid) (key : String) : t.view.find? key = t.held? key := by
  show ((t.recency.map pair).find? (·.1 == key)).map (·.2) = ((t.shardOf key).find? key).map (·.entry)
  rw [List.find?_map, Option.map_map]
  have hfind : t.recency.find? (fun x => x.key == key) = (t.shardOf key).find? key := by
    cases hx : t.recency.find? (fun x => x.key == key) with
    | none =>
      symm
      rw [Option.eq_none_iff_forall_ne_some]
      intro x hf
      obtain ⟨hm, hk⟩ := h.slot_iff.mp hf
      have := List.find?_eq_none.mp hx x (mem_recency.mpr hm)
      simp [hk] at this
    | some x =>
      have hm := mem_recency.mp (List.mem_of_find?_eq_some hx)
      exact (h.slot_iff.mpr ⟨hm, by simpa using List.find?_some hx⟩).symm
  exact congrArg (Option.map (·.entry)) hfind

theorem view_discard {t : Tier} (h : t.Ordered) (key : String) :
    (t.discard key).view = t.view.forget key := by
  obtain ⟨-, hr⟩ := h.discard key
  obtain ⟨hc, -, hn⟩ := h.toLaid.discard_frame key
  unfold view
  rw [hr, map_without, hc, hn]
  rfl

theorem view_place {t : Tier} (h : t.Ordered) (key : String) (e : Entry) :
    (t.place key e).view = t.view.use key e := by
  obtain ⟨-, hr⟩ := h.place key e
  unfold view
  rw [hr, List.map_append, map_without, place_eq]
  rfl

theorem view_touch {t : Tier} (h : t.Ordered) {x : Slot} (hx : x ∈ t.slots) :
    (t.touch x).view = t.view.use x.key x.entry := by
  obtain ⟨-, hr⟩ := h.touch hx
  unfold view
  rw [hr, List.map_append, map_without]
  rfl

/-- Eviction by the smallest tail is trimming at the least recent end. -/
theorem Evicts.view {now : Instant} {t u : Tier} (h : Evicts now t u) :
    u.view = t.view.trim now := by
  induction h with
  | @stop t hs hf =>
    refine (Lru.trim_eq_self ?_).symm
    show ((t.recency.map pair).map (Lru.cost t.capacity)).sum ≤ t.capacity.amount
    rw [map_cost, ← Tier.totalCost_eq, ← hs.used_eq]
    exact hf
  | @step t u r x hs habove hpop _ ih =>
    obtain ⟨-, hr, -⟩ := hs.toOrdered.popOldest? hpop
    obtain ⟨s, -, rfl, -, -⟩ := hs.popOldest?_eq hpop
    rw [ih]
    show _ = Lru.trim ⟨t.recency.map pair, t.capacity, t.tally⟩ now
    rw [hr, List.map_cons, Lru.trim_cons]
    · rfl
    · rw [← List.map_cons, map_cost, ← hr, ← Tier.totalCost_eq, ← hs.used_eq]
      exact habove

theorem view_evictToFit {t : Tier} (h : t.Sound) (now : Instant) :
    (t.evictToFit now).view = t.view.trim now :=
  (evicts h now).view

/-! ## Every operation commutes with the view -/

theorem view_get {t : Tier} (h : t.Sound) (key : String) (now : Instant) :
    t.view.get key now = ((t.get key now).1.view, (t.get key now).2) := by
  unfold Lru.get
  rw [h.get_eq, find?_view h.toLaid]
  unfold held? Shard.peek
  cases hx : (t.shardOf key).find? key with
  | none => rfl
  | some x =>
    obtain ⟨hm, rfl⟩ := h.slot_iff.mp hx
    simp only [Option.map_some]
    split
    · rw [← view_discard h.toOrdered]; rfl
    · rw [← view_touch h.toOrdered hm]; rfl

theorem view_put {t : Tier} (h : t.Sound) (key : String) (v : ByteArray) (expireAt : Option Instant)
    (now : Instant) :
    t.view.put key ⟨v, expireAt⟩ now =
      ((t.put key v expireAt now).1.view, (t.put key v expireAt now).2) := by
  rw [put_eq]
  unfold Lru.put
  show (if t.capacity.amount < t.costOf key ⟨v, expireAt⟩ then _ else _) = _
  split
  · rw [← view_discard h.toOrdered, (h.discard_frame key).2.2]; rfl
  · rw [← view_place h.toOrdered, ← view_evictToFit (h.place key ⟨v, expireAt⟩)]; rfl

theorem view_remove {t : Tier} (h : t.Sound) (key : String) :
    t.view.remove key = ((t.remove key).1.view, (t.remove key).2) := by
  rw [remove_eq]
  unfold Lru.remove
  rw [find?_view h.toLaid]
  cases t.held? key with
  | none => rfl
  | some e => rw [← view_discard h.toOrdered]; rfl

theorem view_resize {t : Tier} (h : t.Sound) (c : Capacity) (now : Instant) :
    t.view.resize c now = (t.resize c now).view :=
  (view_evictToFit (h.measure c) now).symm

theorem view_peek {t : Tier} (h : t.Laid) (key : String) (now : Instant) :
    t.view.peek key now = t.peek key now := by
  unfold Lru.peek Tier.peek
  rw [find?_view h]
  rfl

theorem apply_view {t : Tier} (h : t.Sound) (op : Op) :
    t.view.apply op = ((t.apply op).1.view, (t.apply op).2) := by
  cases op with
  | put key value expireAt now => simp only [Lru.apply, view_put h]; rfl
  | get key now => simp only [Lru.apply, view_get h]; rfl
  | peek key now => simp only [Lru.apply, view_peek h.toLaid]; rfl
  | contains key now => simp only [Lru.apply, view_peek h.toLaid]; rfl
  | remove key => simp only [Lru.apply, view_remove h]; rfl
  | resize c now => simp only [Lru.apply, view_resize h]; rfl

theorem run_view {t : Tier} (h : t.Sound) (hf : t.Fits) (ops : List Op) :
    t.view.run ops = ((t.run ops).1.view, (t.run ops).2) := by
  induction ops generalizing t with
  | nil => rfl
  | cons op ops ih =>
    obtain ⟨hs, hfs⟩ := apply_sound h hf op
    simp only [Lru.run, apply_view h, ih hs hfs]
    rfl

/-! ## What is reported -/

theorem size_view {t : Tier} (h : t.Laid) : t.view.size = t.size := by
  have hs := foldr_shards (t := t) (p := Shard.count) (f := fun _ => 1) fun s hs => by
    rw [(h.shard s hs).count_eq]
    simp
  unfold Tier.size
  rw [hs]
  simp [view, Lru.size]

theorem view_create (kind : TierKind) (c : TierConfig) :
    (create kind c).view = { capacity := c.capacity } := by
  have hr : (create kind c).recency = [] := by
    unfold recency
    rw [slots_create]
    exact List.mergeSort_nil
  unfold view
  rw [hr]
  rfl

/-- The replies and the list of a new tier are the reference's, whatever its number of shards. -/
theorem run_create (kind : TierKind) (c : TierConfig) (ops : List Op) :
    ((create kind c).run ops).1.Sound ∧
      Lru.run { capacity := c.capacity } ops =
        (((create kind c).run ops).1.view, ((create kind c).run ops).2) := by
  obtain ⟨h0, hf0⟩ := sound_create kind c
  have hv := run_view h0 hf0 ops
  rw [view_create] at hv
  exact ⟨(run_sound h0 hf0 ops).1, hv⟩

end Tier

end PeerCache
