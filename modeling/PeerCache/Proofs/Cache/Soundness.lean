import Mathlib
import PeerCache.Cache.Tier
import PeerCache.Proofs.Cache.Recency

/-!
# Sound tiers stay sound

A tier starts sound and within its bound, and every operation keeps it so (`Tier.apply_sound`);
hence every sequence of operations does (`Tier.run_sound`).

Eviction is a loop that takes the least recently used entry as long as the use is above the bound.
`Evicts now t u` is that loop without a count of its steps, and `evicts` says that the count given
to it is always enough.
-/

namespace PeerCache

namespace Capacity

/-- In one unit an entry has one cost. -/
theorem cost_congr {c d : Capacity} (h : c.sameUnit d) (k v : Nat) : c.cost k v = d.cost k v := by
  cases c <;> cases d <;> first | rfl | cases h

end Capacity

namespace Tier

/-! ## Sequences of operations -/

/-- What can be done with a tier; `now` is the reading of the clock that it makes. -/
inductive Op where
  | put (key : String) (value : ByteArray) (expireAt : Option Instant) (now : Instant)
  | get (key : String) (now : Instant)
  | peek (key : String) (now : Instant)
  | contains (key : String) (now : Instant)
  | remove (key : String)
  | resize (c : Capacity) (now : Instant)

inductive Reply where
  | stored (b : Bool)
  | entry (e : Option Entry)
  | holds (b : Bool)
  | resized
  deriving DecidableEq

def apply (t : Tier) : Op → Tier × Reply
  | .put key value expireAt now =>
    let (t, b) := t.put key value expireAt now
    (t, .stored b)
  | .get key now =>
    let (t, e) := t.get key now
    (t, .entry e)
  | .peek key now => (t, .entry (t.peek key now))
  | .contains key now => (t, .holds (t.contains key now))
  | .remove key =>
    let (t, e) := t.remove key
    (t, .entry e)
  | .resize c now => (t.resize c now, .resized)

/-- The tier after a sequence of operations, and their replies in order. -/
def run (t : Tier) : List Op → Tier × List Reply
  | [] => (t, [])
  | op :: ops =>
    let (u, r) := t.apply op
    let (v, rs) := u.run ops
    (v, r :: rs)

/-! ## Single changes -/

theorem Sound.congr {t u : Tier} (h : t.Sound) (hs : u.shards = t.shards) (hc : u.clock = t.clock)
    (hu : u.used = t.used) (hk : u.capacity = t.capacity) : u.Sound := by
  refine ⟨h.toOrdered.congr hs hc, ?_⟩
  unfold totalCost
  rw [hu, hk, slots_congr hs]
  exact h.used_eq

/-- A tick may go unused. -/
theorem Ordered.skip {t : Tier} (h : t.Ordered) : Ordered { t with clock := t.clock + 1 } :=
  ⟨⟨h.shards_pos, h.shard, h.placed⟩, h.ticks, fun x hx => Nat.lt_succ_of_lt (h.fresh x hx)⟩

theorem Sound.skip {t : Tier} (h : t.Sound) : Sound { t with clock := t.clock + 1 } :=
  ⟨h.toOrdered.skip, h.used_eq⟩

theorem without_cost {t : Tier} (h : t.Sound) (key : String) :
    ((without key t.recency).map (Slot.cost t.capacity)).sum = t.used - t.heldCost key := by
  have hp := ((recency_perm t).filter (·.key != key)).map (Slot.cost t.capacity)
  have hs := h.totalCost_split key
  unfold without at hs ⊢
  rw [hp.sum_nat, h.used_eq]
  omega

theorem Sound.discard {t : Tier} (h : t.Sound) (key : String) : (t.discard key).Sound := by
  obtain ⟨ho, hr⟩ := h.toOrdered.discard key
  refine ⟨ho, ?_⟩
  rw [Tier.totalCost_eq, hr, h.discard_eq]
  exact (without_cost h key).symm

theorem Sound.place {t : Tier} (h : t.Sound) (key : String) (e : Entry) :
    (t.place key e).Sound := by
  obtain ⟨ho, hr⟩ := h.toOrdered.place key e
  refine ⟨ho, ?_⟩
  rw [Tier.totalCost_eq, hr, place_eq, List.map_append, List.sum_append]
  show _ = ((without key t.recency).map (Slot.cost t.capacity)).sum + _
  rw [without_cost h key]
  simp [costOf, Slot.cost]

theorem Sound.touch {t : Tier} (h : t.Sound) {x : Slot} (hx : x ∈ t.slots) : (t.touch x).Sound := by
  obtain ⟨ho, hr⟩ := h.toOrdered.touch hx
  refine ⟨ho, ?_⟩
  have hheld : t.heldCost x.key = t.costOf x.key x.entry := by
    unfold heldCost
    rw [h.held?_eq.mpr ⟨x, hx, rfl, rfl⟩]
    rfl
  have hle := h.heldCost_le x.key
  rw [Tier.totalCost_eq, hr, List.map_append, List.sum_append]
  show t.used = ((without x.key t.recency).map (Slot.cost t.capacity)).sum
    + (t.costOf x.key x.entry + 0)
  rw [without_cost h x.key]
  omega

/-- A key that leaves changes neither bound, clock nor counters. -/
theorem Laid.discard_frame {t : Tier} (h : t.Laid) (key : String) :
    (t.discard key).capacity = t.capacity ∧ (t.discard key).clock = t.clock ∧
      (t.discard key).tally = t.tally := by
  rw [h.discard_eq]
  exact ⟨rfl, rfl, rfl⟩

theorem Sound.discard_fits {t : Tier} (h : t.Sound) (hf : t.Fits) (key : String) :
    (t.discard key).Fits := by
  unfold Fits at hf ⊢
  rw [h.discard_eq]
  exact Nat.le_trans (Nat.sub_le ..) hf

/-! ## Eviction -/

theorem recency_reclaim (t : Tier) (x : Slot) (now : Instant) :
    (t.reclaim x now).recency = t.recency :=
  recency_congr rfl

/-- Nothing costs nothing. -/
theorem Sound.fits_of_empty {t : Tier} (h : t.Sound) (hn : t.recency.length = 0) : t.Fits := by
  have huse := h.used_eq
  rw [Tier.totalCost_eq, List.length_eq_zero_iff.mp hn] at huse
  unfold Fits
  rw [huse]
  exact Nat.zero_le _

/-- A tier above its bound has an entry to evict, and stays sound without it. -/
theorem evict_step {t : Tier} (h : t.Sound) (hf : ¬ t.Fits) (now : Instant) :
    ∃ x r, t.popOldest? = some (x, r) ∧ (r.reclaim x now).Sound ∧ t.recency = x :: r.recency := by
  cases hp : t.popOldest? with
  | none => exact absurd (h.fits_of_empty (by rw [recency_eq_nil hp]; rfl)) hf
  | some p =>
    obtain ⟨x, r⟩ := p
    obtain ⟨ho, hr, -⟩ := h.toOrdered.popOldest? hp
    obtain ⟨s, -, hu, -, -⟩ := h.popOldest?_eq hp
    refine ⟨x, r, rfl, ⟨ho.congr rfl rfl, ?_⟩, hr⟩
    have huse := h.used_eq
    rw [Tier.totalCost_eq, hr, List.map_cons, List.sum_cons] at huse
    rw [Tier.totalCost_eq, recency_reclaim]
    subst hu
    show t.used - x.cost t.capacity = _
    rw [huse, Nat.add_sub_cancel_left]
    rfl

/-- The loop of eviction: it ends when the use fits, and else takes the oldest entry. -/
inductive Evicts (now : Instant) : Tier → Tier → Prop where
  | stop {t : Tier} (h : t.Sound) (fits : t.Fits) : Evicts now t t
  | step {t u r : Tier} {x : Slot} (h : t.Sound) (above : ¬ t.Fits) (pop : t.popOldest? = some (x, r))
      (rest : Evicts now (r.reclaim x now) u) : Evicts now t u

theorem evicts_evictUpTo {t : Tier} (h : t.Sound) (now : Instant) {fuel : Nat}
    (hn : t.recency.length ≤ fuel) : Evicts now t (evictUpTo now fuel t) := by
  induction fuel generalizing t with
  | zero =>
    exact .stop h (h.fits_of_empty (Nat.le_zero.mp hn))
  | succ fuel ih =>
    unfold evictUpTo
    split
    · next hf => exact .stop h hf
    · next hf =>
      obtain ⟨x, r, hp, hs, hr⟩ := evict_step h hf now
      rw [hp]
      refine .step h hf hp (ih hs ?_)
      rw [recency_reclaim]
      rw [hr, List.length_cons] at hn
      omega

/-- What each shard says of its own slots, added up, is said of the whole order of use. -/
theorem foldr_shards {t : Tier} {p : Shard → Nat} {f : Slot → Nat}
    (h : ∀ s ∈ t.shards, p s = (s.slots.map f).sum) :
    t.shards.foldr (fun s n => p s + n) 0 = (t.recency.map f).sum := by
  rw [((recency_perm t).map f).sum_nat]
  unfold slots
  generalize t.shards = ss at h
  induction ss with
  | nil => rfl
  | cons s rest ih =>
    obtain ⟨hs, hrest⟩ := List.forall_mem_cons.mp h
    rw [List.foldr_cons, ih hrest, List.flatMap_cons, List.map_append, List.sum_append, hs]

theorem slotCount_eq (t : Tier) : t.slotCount = t.recency.length := by
  have hs := foldr_shards (t := t) (p := fun s => s.slots.length) (f := fun _ => 1) (by simp)
  unfold slotCount
  rw [hs]
  simp

/-- One step for every entry is enough. -/
theorem evicts {t : Tier} (h : t.Sound) (now : Instant) : Evicts now t (t.evictToFit now) :=
  evicts_evictUpTo h now (Nat.le_of_eq (slotCount_eq t).symm)

theorem Evicts.sound {now : Instant} {t u : Tier} (h : Evicts now t u) : u.Sound ∧ u.Fits := by
  induction h with
  | stop h fits => exact ⟨h, fits⟩
  | step _ _ _ _ ih => exact ih

/-! ## Operations -/

theorem put_eq (t : Tier) (key : String) (v : ByteArray) (expireAt : Option Instant) (now : Instant) :
    t.put key v expireAt now =
      if t.capacity.amount < t.costOf key ⟨v, expireAt⟩ then
        ({ t.discard key with tally := (t.discard key).tally.reject }, false)
      else
        ({ (t.place key ⟨v, expireAt⟩).evictToFit now with
            tally := ((t.place key ⟨v, expireAt⟩).evictToFit now).tally.put }, true) := rfl

theorem Sound.put {t : Tier} (h : t.Sound) (hf : t.Fits) (key : String) (v : ByteArray)
    (expireAt : Option Instant) (now : Instant) :
    (t.put key v expireAt now).1.Sound ∧ (t.put key v expireAt now).1.Fits := by
  rw [put_eq]
  split
  · exact ⟨(h.discard key).congr rfl rfl rfl rfl, h.discard_fits hf key⟩
  · obtain ⟨hs, hu⟩ := (evicts (h.place key ⟨v, expireAt⟩) now).sound
    exact ⟨hs.congr rfl rfl rfl rfl, hu⟩

theorem Sound.get {t : Tier} (h : t.Sound) (hf : t.Fits) (key : String) (now : Instant) :
    (t.get key now).1.Sound ∧ (t.get key now).1.Fits := by
  rw [h.get_eq]
  cases hx : (t.shardOf key).find? key with
  | none => exact ⟨h.skip.congr rfl rfl rfl rfl, hf⟩
  | some x =>
    simp only
    split
    · refine ⟨((h.discard key).skip).congr rfl ?_ rfl rfl, h.discard_fits hf key⟩
      show t.clock + 1 = (t.discard key).clock + 1
      rw [(h.discard_frame key).2.1]
    · exact ⟨(h.touch (h.slot_iff.mp hx).1).congr rfl rfl rfl rfl, hf⟩

/-- A removal is a counted `discard` of a key that is there. -/
theorem remove_eq (t : Tier) (key : String) :
    t.remove key =
      match t.held? key with
      | none => (t, none)
      | some e => ({ t.discard key with tally := t.tally.remove }, some e) := by
  unfold Tier.remove discard held? Shard.remove Shard.peek
  cases (t.shardOf key).find? key <;> rfl

theorem Sound.remove {t : Tier} (h : t.Sound) (hf : t.Fits) (key : String) :
    (t.remove key).1.Sound ∧ (t.remove key).1.Fits := by
  rw [remove_eq]
  cases t.held? key with
  | none => exact ⟨h, hf⟩
  | some e => exact ⟨(h.discard key).congr rfl rfl rfl rfl, h.discard_fits hf key⟩

/-- The recount over all shards. -/
theorem recount_eq (t : Tier) (c : Capacity) :
    t.shards.foldr (fun s n => s.totalCost c + n) 0 = (t.slots.map (Slot.cost c)).sum := by
  rw [foldr_shards fun s _ => s.totalCost_eq c]
  exact ((recency_perm t).map _).sum_nat

/-- The tier of a resize before anything is evicted: its use is right in the new unit. -/
theorem Sound.measure {t : Tier} (h : t.Sound) (c : Capacity) :
    Sound { t with
      used := if c.sameUnit t.capacity then t.used
        else t.shards.foldr (fun s n => s.totalCost c + n) 0,
      capacity := c } := by
  refine ⟨h.toOrdered.congr rfl rfl, ?_⟩
  show (if _ then _ else _) = (t.slots.map (Slot.cost c)).sum
  split
  · next hu =>
    rw [h.used_eq]
    refine congrArg List.sum (List.map_congr_left fun x _ => ?_)
    exact (Capacity.cost_congr hu _ _).symm
  · exact recount_eq t c

theorem Sound.resize {t : Tier} (h : t.Sound) (c : Capacity) (now : Instant) :
    (t.resize c now).Sound ∧ (t.resize c now).Fits :=
  (evicts (h.measure c) now).sound

theorem apply_sound {t : Tier} (h : t.Sound) (hf : t.Fits) (op : Op) :
    (t.apply op).1.Sound ∧ (t.apply op).1.Fits := by
  cases op with
  | put key value expireAt now => exact h.put hf key value expireAt now
  | get key now => exact h.get hf key now
  | peek key now => exact ⟨h, hf⟩
  | contains key now => exact ⟨h, hf⟩
  | remove key => exact h.remove hf key
  | resize c now => exact h.resize c now

theorem run_sound {t : Tier} (h : t.Sound) (hf : t.Fits) (ops : List Op) :
    (t.run ops).1.Sound ∧ (t.run ops).1.Fits := by
  induction ops generalizing t with
  | nil => exact ⟨h, hf⟩
  | cons op ops ih =>
    obtain ⟨hs, hfs⟩ := apply_sound h hf op
    exact ih hs hfs

/-! ## The empty tier -/

theorem slots_create (kind : TierKind) (c : TierConfig) : (create kind c).slots = [] := by
  show (List.replicate c.shardCount ({} : Shard)).flatMap (·.slots) = []
  rw [List.flatMap_eq_nil_iff]
  intro s hs
  rw [List.eq_of_mem_replicate hs]

theorem sound_create (kind : TierKind) (c : TierConfig) :
    (create kind c).Sound ∧ (create kind c).Fits := by
  have hsl := slots_create kind c
  refine ⟨⟨⟨⟨?_, ?_, ?_⟩, ?_, ?_⟩, ?_⟩, Nat.zero_le _⟩
  · show 0 < (List.replicate c.shardCount ({} : Shard)).length
    rw [List.length_replicate]
    exact Nat.pos_of_isPowerOfTwo (Nat.isPowerOfTwo_nextPowerOfTwo _)
  · intro s hs
    rw [List.eq_of_mem_replicate hs]
    exact Shard.sound_empty
  · intro i s hs x hx
    rw [List.eq_of_mem_replicate (List.mem_of_getElem? hs)] at hx
    cases hx
  · rw [hsl]; exact List.nodup_nil
  · rw [hsl]; simp
  · show 0 = _
    unfold totalCost
    rw [hsl]
    rfl

end Tier

end PeerCache
