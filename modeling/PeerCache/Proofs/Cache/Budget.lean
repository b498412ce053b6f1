import Mathlib
import PeerCache.Cache.Tier
import PeerCache.Proofs.Cache.Recency
import PeerCache.Proofs.Cache.Soundness

/-!
# The budget is exact

The use of a tier is kept up to date by six paths and recounted only in a new unit; every other
change subtracts, and a subtraction of words is cut off at zero or wraps.  Here the operations are
written once more with a guard at each subtraction (`Shard.Guarded.forget`, `Tier.Guarded.release`)
and at the two ways in which eviction could give up above the bound (`Tier.Guarded.evictUpTo`), so
that they have no result where a guard fails:

    t.Sound → Guarded.apply t op = some (t.apply op)                         (guarded_apply)

Main statement: from the empty tier on no guard ever fails, the use is the cost of what is held in
the present unit and within the bound, and every shard counts what lies in it (`budget_exact`).
-/

namespace PeerCache

namespace Shard.Guarded

/-! ## Guarded operations of a shard -/

/-- The counters after a slot has left, unless one would go below zero. -/
def forget (s : Shard) (x : Slot) : Option Shard :=
  if 1 ≤ s.count ∧ x.bytes ≤ s.bytes then some (s.forget x) else none

def remove (s : Shard) (key : String) : Option (Shard × Option Entry) :=
  match s.find? key with
  | none => some (s, none)
  | some x => do
    let rest ← forget { s with slots := s.others key } x
    some (rest, some x.entry)

def removeExpired (s : Shard) (key : String) (now : Instant) : Option (Shard × Option Entry) :=
  match s.find? key with
  | some x => if x.entry.isExpiredAt now then remove s key else some (s, none)
  | none => some (s, none)

def insert (s : Shard) (key : String) (e : Entry) (tick : Nat) : Option (Shard × Option Entry) := do
  let (rest, old) ← remove s key
  let x : Slot := ⟨key, e, tick⟩
  some ({ slots := x :: rest.slots, count := rest.count + 1, bytes := rest.bytes + x.bytes }, old)

def popOldest (s : Shard) : Option (Slot × Shard) := do
  let x ← s.slots.getLast?
  let rest ← forget { s with slots := s.slots.dropLast } x
  some (x, rest)

end Shard.Guarded

namespace Tier.Guarded

/-! ## Guarded operations of a tier -/

/-- The use after an entry has gone, unless it cost more than all of it. -/
def release (t : Tier) (cost : Nat) : Option Tier :=
  if cost ≤ t.used then some (t.release cost) else none

def popOldest (t : Tier) : Option (Slot × Tier) := do
  let (_, i) ← oldestTail? t.shards
  let s ← t.shards[i]?
  let (x, rest) ← Shard.Guarded.popOldest s
  some (x, { t with shards := t.shards.set i rest })

def reclaim (t : Tier) (x : Slot) (now : Instant) : Option Tier := do
  let t ← release t (x.cost t.capacity)
  some { t with tally := if x.entry.isExpiredAt now then t.tally.expire 1 else t.tally.evict 1 }

/-- Eviction that has to reach the bound: neither an empty tier nor the end of the fuel excuses. -/
def evictUpTo (now : Instant) : Nat → Tier → Option Tier
  | 0, t => if t.used ≤ t.capacity.amount then some t else none
  | fuel + 1, t =>
    if t.used ≤ t.capacity.amount then some t
    else do
      let (x, rest) ← popOldest t
      let rest ← reclaim rest x now
      evictUpTo now fuel rest

def evictToFit (t : Tier) (now : Instant) : Option Tier := evictUpTo now t.slotCount t

def get (t : Tier) (key : String) (now : Instant) : Option (Tier × Option Entry) :=
  let (shard, found) := (t.shardOf key).get key now t.clock
  let t := { t.setShard key shard with clock := t.clock + 1 }
  match found with
  | .hit e => some ({ t with tally := t.tally.hit }, some e)
  | .miss => some ({ t with tally := t.tally.miss }, none)
  | .expired => do
    match ← Shard.Guarded.removeExpired (t.shardOf key) key now with
    | (rest, some e) =>
      let t ← release (t.setShard key rest) (t.costOf key e)
      some ({ t with tally := (t.tally.expire 1).miss }, none)
    | (_, none) => some ({ t with tally := t.tally.miss }, none)

def discard (t : Tier) (key : String) : Option Tier := do
  match ← Shard.Guarded.remove (t.shardOf key) key with
  | (rest, some old) => release (t.setShard key rest) (t.costOf key old)
  | (_, none) => some t

def place (t : Tier) (key : String) (e : Entry) : Option Tier := do
  let (shard, old) ← Shard.Guarded.insert (t.shardOf key) key e t.clock
  let t := { t.setShard key shard with clock := t.clock + 1 }
  let t ← match old with
    | some o => release t (t.costOf key o)
    | none => some t
  some { t with used := t.used + t.costOf key e }

def put (t : Tier) (key : String) (value : ByteArray) (expireAt : Option Instant) (now : Instant) :
    Option (Tier × Bool) :=
  let e : Entry := ⟨value, expireAt⟩
  if t.capacity.amount < t.costOf key e then do
    let t ← discard t key
    some ({ t with tally := t.tally.reject }, false)
  else do
    let t ← place t key e
    let t ← evictToFit t now
    some ({ t with tally := t.tally.put }, true)

def remove (t : Tier) (key : String) : Option (Tier × Option Entry) := do
  match ← Shard.Guarded.remove (t.shardOf key) key with
  | (rest, some e) =>
    let t ← release (t.setShard key rest) (t.costOf key e)
    some ({ t with tally := t.tally.remove }, some e)
  | (_, none) => some (t, none)

def resize (t : Tier) (c : Capacity) (now : Instant) : Option Tier :=
  let used := if c.sameUnit t.capacity then t.used else t.shards.foldr (fun s n => s.totalCost c + n) 0
  evictToFit { t with used, capacity := c } now

def apply (t : Tier) : Op → Option (Tier × Reply)
  | .put key value expireAt now => do
    let (t, b) ← put t key value expireAt now
    some (t, .stored b)
  | .get key now => do
    let (t, e) ← get t key now
    some (t, .entry e)
  | .peek key now => some (t, .entry (t.peek key now))
  | .contains key now => some (t, .holds (t.contains key now))
  | .remove key => do
    let (t, e) ← remove t key
    some (t, .entry e)
  | .resize c now => do
    let t ← resize t c now
    some (t, .resized)

def run (t : Tier) : List Op → Option (Tier × List Reply)
  | [] => some (t, [])
  | op :: ops => do
    let (u, r) ← apply t op
    let (v, rs) ← run u ops
    some (v, r :: rs)

end Tier.Guarded

/-! ## No guard of a shard fails -/

namespace Shard

/-- Whatever lies in the shard was counted. -/
def Covers (s : Shard) : Prop := ∀ x ∈ s.slots, 1 ≤ s.count ∧ x.bytes ≤ s.bytes

theorem Sound.toCovers {s : Shard} (h : s.Sound) : s.Covers := fun _ => h.covers

theorem guarded_forget {s : Shard} (h : s.Covers) {x : Slot} (hx : x ∈ s.slots) (rest : List Slot) :
    Guarded.forget { s with slots := rest } x = some (({ s with slots := rest } : Shard).forget x) :=
  if_pos (h x hx)

theorem guarded_remove {s : Shard} (h : s.Covers) (key : String) :
    Guarded.remove s key = some (s.remove key) := by
  unfold Guarded.remove Shard.remove
  cases hf : s.find? key with
  | none => rfl
  | some x =>
    simp only [guarded_forget h (mem_of_find? hf).1]
    rfl

theorem guarded_removeExpired {s : Shard} (h : s.Covers) (key : String) (now : Instant) :
    Guarded.removeExpired s key now = some (s.removeExpired key now) := by
  unfold Guarded.removeExpired Shard.removeExpired
  cases s.find? key with
  | none => rfl
  | some x =>
    simp only [guarded_remove h]
    split <;> rfl

theorem guarded_insert {s : Shard} (h : s.Covers) (key : String) (e : Entry) (tick : Nat) :
    Guarded.insert s key e tick = some (s.insert key e tick) := by
  unfold Guarded.insert
  rw [guarded_remove h]
  rfl

theorem guarded_popOldest {s : Shard} (h : s.Covers) : Guarded.popOldest s = s.popOldest? := by
  unfold Guarded.popOldest Shard.popOldest?
  cases hl : s.slots.getLast? with
  | none => rfl
  | some x =>
    simp only [guarded_forget h (List.mem_of_getLast? hl), Option.bind_eq_bind, Option.bind_some]
    rfl

/-- What is dropped as expired is what lay under the key. -/
theorem removeExpired_of_get {s r : Shard} {key : String} {now : Instant} {tick : Nat}
    (h : s.get key now tick = (r, .expired)) (e : Entry) :
    (r.removeExpired key now).2 = some e → s.peek key = some e := by
  obtain ⟨x, hf, hlate, hr⟩ := get_expired (congrArg Prod.snd h)
  obtain ⟨-, rfl⟩ := mem_of_find? hf
  rw [h] at hr
  rw [show r = _ from hr, removeExpired_front s hlate, Shard.peek, hf]
  exact id

/-- Looking up a key moves its slot at most, so what the shard holds is still counted. -/
theorem Covers.get {s : Shard} (h : s.Covers) (key : String) (now : Instant) (tick : Nat) :
    (s.get key now tick).2 = .expired → (s.get key now tick).1.Covers := by
  intro hexpired
  obtain ⟨x, hf, -, hr⟩ := get_expired hexpired
  rw [hr]
  intro y hy
  rcases List.mem_cons.mp hy with rfl | hy
  · exact h y (mem_of_find? hf).1
  · exact h y ((s.others_sublist key).subset hy)

end Shard

/-! ## No guard of a tier fails -/

namespace Tier

theorem guarded_release {t : Tier} {cost : Nat} (h : cost ≤ t.used) :
    Guarded.release t cost = some (t.release cost) :=
  if_pos h

theorem Laid.covers {t : Tier} (h : t.Laid) (key : String) : (t.shardOf key).Covers :=
  (h.shardOf_sound key).toCovers

/-- The cost of what is held under a key is part of the use. -/
theorem Sound.costOf_le {t : Tier} (h : t.Sound) {key : String} {e : Entry} (he : t.held? key = some e) :
    t.costOf key e ≤ t.used := by
  have hle := h.heldCost_le key
  unfold heldCost at hle
  rw [he] at hle
  exact hle

theorem guarded_popOldest {t : Tier} (h : t.Laid) : Guarded.popOldest t = t.popOldest? := by
  unfold Guarded.popOldest Tier.popOldest?
  cases oldestTail? t.shards with
  | none => rfl
  | some p =>
    simp only [Option.bind_eq_bind, Option.bind_some]
    cases hs : t.shards[p.2]? with
    | none => rfl
    | some s =>
      simp only [Option.bind_some]
      rw [Shard.guarded_popOldest (h.shard s (List.mem_of_getElem? hs)).toCovers]

theorem guarded_evictUpTo {t : Tier} (h : t.Sound) (now : Instant) {fuel : Nat}
    (hn : t.recency.length ≤ fuel) : Guarded.evictUpTo now fuel t = some (evictUpTo now fuel t) := by
  induction fuel generalizing t with
  | zero => exact if_pos (h.fits_of_empty (Nat.le_zero.mp hn))
  | succ fuel ih =>
    unfold Guarded.evictUpTo evictUpTo
    by_cases hf : t.used ≤ t.capacity.amount
    · rw [if_pos hf, if_pos hf]
    · obtain ⟨x, r, hp, hs, hr⟩ := evict_step h hf now
      rw [if_neg hf, if_neg hf, guarded_popOldest h.toLaid, hp]
      have hle : x.cost r.capacity ≤ r.used := by
        obtain ⟨s, -, hu, -, -⟩ := h.popOldest?_eq hp
        have huse := h.used_eq
        rw [Tier.totalCost_eq, hr, List.map_cons, List.sum_cons] at huse
        subst hu
        show x.cost t.capacity ≤ t.used
        omega
      have hrec : (r.reclaim x now).recency.length ≤ fuel := by
        rw [recency_reclaim]
        rw [hr, List.length_cons] at hn
        omega
      have hre : Guarded.reclaim r x now = some (r.reclaim x now) := by
        unfold Guarded.reclaim
        rw [guarded_release hle]
        rfl
      simp only [Option.bind_eq_bind, Option.bind_some, hre]
      exact ih hs hrec

theorem guarded_evictToFit {t : Tier} (h : t.Sound) (now : Instant) :
    Guarded.evictToFit t now = some (t.evictToFit now) :=
  guarded_evictUpTo h now (Nat.le_of_eq (slotCount_eq t).symm)

theorem guarded_discard {t : Tier} (h : t.Sound) (key : String) :
    Guarded.discard t key = some (t.discard key) := by
  unfold Guarded.discard Tier.discard
  rw [Shard.guarded_remove (h.covers key)]
  have he := Shard.remove_entry (t.shardOf key) key
  generalize (t.shardOf key).remove key = r at he
  obtain ⟨rest, old⟩ := r
  cases old with
  | none => rfl
  | some o => exact guarded_release (t := t.setShard key rest) (h.costOf_le he.symm)

theorem guarded_place {t : Tier} (h : t.Sound) (key : String) (e : Entry) :
    Guarded.place t key e = some (t.place key e) := by
  unfold Guarded.place Tier.place
  rw [Shard.guarded_insert (h.covers key)]
  have he := Shard.insert_entry (t.shardOf key) key e t.clock
  generalize (t.shardOf key).insert key e t.clock = r at he
  obtain ⟨rest, old⟩ := r
  cases old with
  | none => rfl
  | some o =>
    have hr := guarded_release (t := { t.setShard key rest with clock := t.clock + 1 })
      (h.costOf_le he.symm)
    exact congrArg
      (fun r : Option Tier => r.bind fun t => some { t with used := t.used + t.costOf key e }) hr

theorem guarded_put {t : Tier} (h : t.Sound) (key : String) (v : ByteArray) (expireAt : Option Instant)
    (now : Instant) : Guarded.put t key v expireAt now = some (t.put key v expireAt now) := by
  rw [put_eq]
  unfold Guarded.put
  by_cases hc : t.capacity.amount < t.costOf key ⟨v, expireAt⟩
  · simp only [hc, if_true, guarded_discard h]
    rfl
  · simp only [hc, if_false, guarded_place h, Option.bind_eq_bind, Option.bind_some,
      guarded_evictToFit (h.place key ⟨v, expireAt⟩)]

theorem guarded_remove {t : Tier} (h : t.Sound) (key : String) :
    Guarded.remove t key = some (t.remove key) := by
  unfold Guarded.remove Tier.remove
  rw [Shard.guarded_remove (h.covers key)]
  have he := Shard.remove_entry (t.shardOf key) key
  generalize (t.shardOf key).remove key = r at he
  obtain ⟨rest, old⟩ := r
  cases old with
  | none => rfl
  | some o =>
    have hr := guarded_release (t := t.setShard key rest) (h.costOf_le he.symm)
    exact congrArg
      (fun r : Option Tier => r.bind fun t => some ({ t with tally := t.tally.remove }, some o)) hr

theorem guarded_get {t : Tier} (h : t.Sound) (key : String) (now : Instant) :
    Guarded.get t key now = some (t.get key now) := by
  have hcov := (h.covers key).get key now t.clock
  unfold Guarded.get Tier.get
  generalize hg : (t.shardOf key).get key now t.clock = r at hcov
  obtain ⟨shard, found⟩ := r
  cases found with
  | hit e => rfl
  | miss => rfl
  | expired =>
    -- the expired slot is at the front of its shard now, and it is the one that goes
    have hso : Tier.shardOf { t.setShard key shard with clock := t.clock + 1 } key = shard :=
      h.shardOf_setShard key shard
    simp only [hso]
    rw [Shard.guarded_removeExpired (hcov rfl)]
    have he := Shard.removeExpired_of_get hg
    generalize shard.removeExpired key now = q at he
    obtain ⟨rest, old⟩ := q
    cases old with
    | none => rfl
    | some o =>
      have hle : t.costOf key o ≤ t.used := h.costOf_le (he o rfl)
      have hr := guarded_release
        (t := Tier.setShard { t.setShard key shard with clock := t.clock + 1 } key rest) hle
      exact congrArg
        (fun r : Option Tier => r.bind fun t => some ({ t with tally := (t.tally.expire 1).miss }, none)) hr

theorem guarded_apply {t : Tier} (h : t.Sound) (op : Op) :
    Guarded.apply t op = some (t.apply op) := by
  cases op with
  | put key value expireAt now => simp only [Guarded.apply, guarded_put h]; rfl
  | get key now => simp only [Guarded.apply, guarded_get h]; rfl
  | peek key now => rfl
  | contains key now => rfl
  | remove key => simp only [Guarded.apply, guarded_remove h]; rfl
  | resize c now =>
    have hr : Guarded.resize t c now = some (t.resize c now) := guarded_evictToFit (h.measure c) now
    simp only [Guarded.apply, hr]
    rfl

theorem guarded_run {t : Tier} (h : t.Sound) (hf : t.Fits) (ops : List Op) :
    Guarded.run t ops = some (t.run ops) := by
  induction ops generalizing t with
  | nil => rfl
  | cons op ops ih =>
    obtain ⟨hs, hfs⟩ := apply_sound h hf op
    simp only [Guarded.run, guarded_apply h, Option.bind_eq_bind, Option.bind_some, ih hs hfs]
    rfl

/-! ## Placement -/

/-- A key lies in the tier once. -/
theorem Ordered.keys_nodup {t : Tier} (h : t.Ordered) : (t.slots.map Slot.key).Nodup := by
  refine List.Nodup.map_on ?_ (List.Nodup.of_map _ h.ticks)
  intro x hx y hy hk
  have hxf := h.slot_iff.mpr ⟨hx, rfl⟩
  rw [h.slot_iff.mpr ⟨hy, hk.symm⟩, Option.some.injEq] at hxf
  exact hxf.symm

/-- The shards of a tier are as many as it was made with. -/
theorem apply_shards_length {t : Tier} (h : t.Sound) (op : Op) :
    (t.apply op).1.shards.length = t.shards.length := by
  have hset : ∀ (t : Tier) key s, (t.setShard key s).shards.length = t.shards.length :=
    fun t key s => List.length_set ..
  have hdiscard : ∀ key, (t.discard key).shards.length = t.shards.length := by
    intro key
    rw [h.discard_eq]
    exact hset t key _
  have hevict : ∀ {u v : Tier} {now : Instant}, Evicts now u v → v.shards.length = u.shards.length := by
    intro u v now he
    induction he with
    | stop => rfl
    | step hu _ hp _ ih =>
      obtain ⟨s, -, rfl, -, -⟩ := hu.popOldest?_eq hp
      rw [ih]
      exact hset _ _ s
  cases op with
  | put key value expireAt now =>
    show (t.put key value expireAt now).1.shards.length = _
    rw [put_eq]
    split
    · exact hdiscard key
    · have hp := hevict (evicts (h.place key ⟨value, expireAt⟩) now)
      rw [place_eq] at hp
      rw [place_eq]
      exact hp.trans (hset t key _)
  | get key now =>
    show (t.get key now).1.shards.length = _
    rw [h.get_eq]
    cases (t.shardOf key).find? key with
    | none => rfl
    | some x =>
      simp only
      split
      · exact hdiscard key
      · exact hset t x.key _
  | peek key now => rfl
  | contains key now => rfl
  | remove key =>
    show (t.remove key).1.shards.length = _
    rw [remove_eq]
    cases t.held? key with
    | none => rfl
    | some e => exact hdiscard key
  | resize c now =>
    have hr := hevict (evicts (h.measure c) now)
    exact hr

theorem run_shards_length {t : Tier} (h : t.Sound) (hf : t.Fits) (ops : List Op) :
    (t.run ops).1.shards.length = t.shards.length := by
  induction ops generalizing t with
  | nil => rfl
  | cons op ops ih =>
    obtain ⟨hs, hfs⟩ := apply_sound h hf op
    exact (ih hs hfs).trans (apply_shards_length h op)

/-- A number of shards is a power of two, so a hash selects by its low bits. -/
theorem mod_shardCount (c : TierConfig) (n : Nat) :
    n % c.shardCount = n &&& (c.shardCount - 1) := by
  obtain ⟨k, hk⟩ := Nat.isPowerOfTwo_nextPowerOfTwo (max 1 c.shards)
  unfold TierConfig.shardCount
  rw [hk, Nat.and_two_pow_sub_one_eq_mod]

/-- **The budget is exact**, whatever was done with a tier since it was made, in whatever units:
the use is the cost of all entries in the present unit and within the bound, every shard counts
its entries and their bytes, every key is held once and in the shard that its hash selects, and
no subtraction on the way went below zero, nor did eviction ever give up above the bound. -/
theorem budget_exact (kind : TierKind) (c : TierConfig) (ops : List Op) :
    let t := ((create kind c).run ops).1
    t.used = (t.slots.map (Slot.cost t.capacity)).sum ∧
      t.used ≤ t.capacity.amount ∧
      (∀ s ∈ t.shards, s.count = s.slots.length ∧ s.bytes = (s.slots.map Slot.bytes).sum) ∧
      (t.slots.map Slot.key).Nodup ∧
      (∀ (i : Nat) (s : Shard), t.shards[i]? = some s →
        ∀ x ∈ s.slots, (Shard.hashKey x.key).toNat &&& (c.shardCount - 1) = i) ∧
      Guarded.run (create kind c) ops = some ((create kind c).run ops) := by
  intro t
  obtain ⟨h0, hf0⟩ := sound_create kind c
  obtain ⟨h, hf⟩ := run_sound h0 hf0 ops
  refine ⟨h.used_eq, hf, ?_, h.keys_nodup, ?_, guarded_run h0 hf0 ops⟩
  · intro s hs
    exact ⟨(h.shard s hs).count_eq, (h.shard s hs).bytes_eq⟩
  · intro i s hi x hx
    have hp := h.placed i s hi x hx
    have hl : (create kind c).shards.length = c.shardCount := List.length_replicate
    unfold shardIndex at hp
    rw [run_shards_length h0 hf0, hl, mod_shardCount] at hp
    exact hp

end Tier

end PeerCache
