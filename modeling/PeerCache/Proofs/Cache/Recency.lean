import Mathlib
import PeerCache.Cache.Tier
import PeerCache.Proofs.Cache.Shard

/-!
# The order of use of a tier

A tier never stores the order in which its entries were used; it is the order of their ticks over
all shards (`Tier.recency`, least recently used first).  In a sound tier (`Tier.Sound`) ticks are
unique and older than the clock, every key lies in the shard of its hash, and `used` is what the
entries cost.  There each operation is one change of that order:

    (t.discard key).recency = without key t.recency                          (Ordered.discard)
    (t.place key e).recency = without key t.recency ++ [⟨key, e, t.clock⟩]   (Ordered.place)
    (t.touch x).recency = without x.key t.recency ++ [{ x with tick := … }]  (Ordered.touch)
    t.popOldest? = some (x, r) → t.recency = x :: r.recency                  (Ordered.popOldest?)

so a put or a live hit takes a key to the recent end, and eviction takes from the other.
-/

namespace PeerCache

namespace Tier

/-! ## The tier as one list -/

def slots (t : Tier) : List Slot := t.shards.flatMap (·.slots)

/-- All slots in order of use, the least recently used first. -/
def recency (t : Tier) : List Slot := t.slots.mergeSort fun a b => a.tick ≤ b.tick

/-- The slots of all other keys, in the given order. -/
def without (key : String) (xs : List Slot) : List Slot := xs.filter (·.key != key)

/-- The entry under a key, expired or not. -/
def held? (t : Tier) (key : String) : Option Entry := (t.shardOf key).peek key

/-- What the entry under a key costs; nothing without one. -/
def heldCost (t : Tier) (key : String) : Nat := ((t.held? key).map (t.costOf key)).getD 0

def totalCost (t : Tier) : Nat := (t.slots.map (Slot.cost t.capacity)).sum

/-- Every shard is sound, and every key lies in the shard that its hash selects. -/
structure Laid (t : Tier) : Prop where
  shards_pos : 0 < t.shards.length
  shard : ∀ s ∈ t.shards, s.Sound
  placed : ∀ (i : Nat) (s : Shard), t.shards[i]? = some s → ∀ x ∈ s.slots, t.shardIndex x.key = i

/-- Ticks are unique over all shards, and the clock is ahead of them. -/
structure Ordered (t : Tier) : Prop extends Laid t where
  ticks : (t.slots.map Slot.tick).Nodup
  fresh : ∀ x ∈ t.slots, x.tick < t.clock

structure Sound (t : Tier) : Prop extends Ordered t where
  used_eq : t.used = t.totalCost

/-- The use is within the bound. -/
def Fits (t : Tier) : Prop := t.used ≤ t.capacity.amount

/-! ## One shard and the rest -/

theorem Laid.shardIndex_lt {t : Tier} (h : t.Laid) (key : String) :
    t.shardIndex key < t.shards.length :=
  Nat.mod_lt _ h.shards_pos

theorem Laid.getElem?_shardIndex {t : Tier} (h : t.Laid) (key : String) :
    t.shards[t.shardIndex key]? = some (t.shardOf key) := by
  have hi := h.shardIndex_lt key
  unfold shardOf
  rw [List.getD_eq_getElem?_getD, List.getElem?_eq_getElem hi, Option.getD_some]

theorem Laid.shardOf_sound {t : Tier} (h : t.Laid) (key : String) : (t.shardOf key).Sound :=
  h.shard _ (List.mem_of_getElem? (h.getElem?_shardIndex key))

@[simp] theorem setShard_capacity (t : Tier) (key : String) (s : Shard) :
    (t.setShard key s).capacity = t.capacity := rfl

@[simp] theorem setShard_used (t : Tier) (key : String) (s : Shard) :
    (t.setShard key s).used = t.used := rfl

@[simp] theorem setShard_clock (t : Tier) (key : String) (s : Shard) :
    (t.setShard key s).clock = t.clock := rfl

@[simp] theorem setShard_tally (t : Tier) (key : String) (s : Shard) :
    (t.setShard key s).tally = t.tally := rfl

theorem shardIndex_congr {t u : Tier} (h : u.shards.length = t.shards.length) (key : String) :
    u.shardIndex key = t.shardIndex key := by
  unfold shardIndex
  rw [h]

theorem setShard_shardIndex (t : Tier) (key : String) (s : Shard) (other : String) :
    (t.setShard key s).shardIndex other = t.shardIndex other :=
  shardIndex_congr (List.length_set ..) other

theorem setShard_setShard (t : Tier) (key : String) (s r : Shard) :
    (t.setShard key s).setShard key r = t.setShard key r := by
  show ({ t with shards := (t.shards.set _ s).set _ r } : Tier) = _
  rw [setShard_shardIndex, List.set_set]
  rfl

theorem Laid.setShard_self {t : Tier} (h : t.Laid) (key : String) :
    t.setShard key (t.shardOf key) = t := by
  have hi := h.shardIndex_lt key
  have hs := h.getElem?_shardIndex key
  rw [List.getElem?_eq_getElem hi, Option.some.injEq] at hs
  unfold setShard
  rw [← hs, List.set_getElem_self]

theorem Laid.shardOf_setShard {t : Tier} (h : t.Laid) (key : String) (s : Shard) :
    (t.setShard key s).shardOf key = s := by
  have hi := h.shardIndex_lt key
  unfold shardOf
  rw [setShard_shardIndex]
  show (t.shards.set (t.shardIndex key) s).getD (t.shardIndex key) {} = s
  rw [List.getD_eq_getElem?_getD, List.getElem?_set_self hi, Option.getD_some]

/-- A tier falls into the shard of a key, whatever stands in its place, and slots of other keys. -/
theorem Laid.exists_rest {t : Tier} (h : t.Laid) (key : String) :
    ∃ rest, (∀ x ∈ rest, x.key ≠ key) ∧ ∀ s, (t.setShard key s).slots.Perm (s.slots ++ rest) := by
  have hi := h.shardIndex_lt key
  refine ⟨(t.shards.eraseIdx (t.shardIndex key)).flatMap (·.slots), ?_, ?_⟩
  · intro x hx hk
    obtain ⟨s, hs, hxs⟩ := List.mem_flatMap.mp hx
    obtain ⟨j, hj, hjs⟩ := List.mem_eraseIdx_iff_getElem?.mp hs
    exact hj (by rw [← hk]; exact (h.placed j s hjs x hxs).symm)
  · intro s
    have hlt : t.shardIndex key < (t.shards.set (t.shardIndex key) s).length := by
      rw [List.length_set]; exact hi
    have hp := (List.getElem_cons_eraseIdx_perm hlt).symm
    rw [List.getElem_set_self, List.eraseIdx_set_eq] at hp
    exact hp.flatMap_right _

/-- The shard of a key gets a new list: a new head, perhaps, and the slots of its other keys. -/
theorem Laid.slots_setShard {t : Tier} (h : t.Laid) {key : String} {s : Shard} (front : List Slot)
    (hs : s.slots = front ++ (t.shardOf key).others key) :
    (t.setShard key s).slots.Perm (front ++ without key t.slots) := by
  obtain ⟨rest, hne, hrest⟩ := h.exists_rest key
  have ht := hrest (t.shardOf key)
  rw [h.setShard_self] at ht
  have hf : (without key t.slots).Perm ((t.shardOf key).others key ++ rest) := by
    have hrf : rest.filter (·.key != key) = rest := by
      rw [List.filter_eq_self]
      intro x hx
      exact bne_iff_ne.mpr (hne x hx)
    have hp := ht.filter (·.key != key)
    rw [List.filter_append, hrf] at hp
    exact hp
  refine (hrest s).trans ?_
  rw [hs, List.append_assoc]
  exact (List.Perm.append_left front hf.symm)

theorem Laid.slot_iff {t : Tier} (h : t.Laid) {key : String} {x : Slot} :
    (t.shardOf key).find? key = some x ↔ x ∈ t.slots ∧ x.key = key := by
  constructor
  · intro hf
    obtain ⟨hx, hk⟩ := Shard.mem_of_find? hf
    exact ⟨List.mem_flatMap.mpr ⟨_, List.mem_of_getElem? (h.getElem?_shardIndex key), hx⟩, hk⟩
  · rintro ⟨hx, rfl⟩
    obtain ⟨s, hs, hxs⟩ := List.mem_flatMap.mp hx
    obtain ⟨i, hi⟩ := List.mem_iff_getElem?.mp hs
    have hpl := h.placed i s hi x hxs
    have hso := h.getElem?_shardIndex x.key
    rw [hpl, hi, Option.some.injEq] at hso
    rw [← hso]
    exact (h.shard s hs).find?_eq_some hxs

theorem Laid.perm_of_find? {t : Tier} (h : t.Laid) {key : String} {x : Slot}
    (hf : (t.shardOf key).find? key = some x) : t.slots.Perm (x :: without key t.slots) := by
  obtain ⟨rest, -, hrest⟩ := h.exists_rest key
  have hp := (h.shardOf_sound key).perm_of_find? hf
  have hs := h.slots_setShard (s := { t.shardOf key with slots := x :: (t.shardOf key).others key })
    [x] rfl
  have ht := hrest (t.shardOf key)
  rw [h.setShard_self] at ht
  exact (ht.trans (hp.append_right rest)).trans ((hrest _).symm.trans hs)

theorem Laid.without_eq_self {t : Tier} (h : t.Laid) {key : String}
    (hf : (t.shardOf key).find? key = none) : without key t.slots = t.slots := by
  unfold without
  rw [List.filter_eq_self]
  intro x hx
  by_contra hk
  have hk' : x.key = key := by simpa using hk
  rw [h.slot_iff.mpr ⟨hx, hk'⟩] at hf
  cases hf

/-! ## The order of ticks -/

theorem recency_perm (t : Tier) : t.recency.Perm t.slots := List.mergeSort_perm ..

theorem mem_recency {t : Tier} {x : Slot} : x ∈ t.recency ↔ x ∈ t.slots := (recency_perm t).mem_iff

theorem recency_le (t : Tier) : t.recency.Pairwise fun a b => a.tick ≤ b.tick := by
  have hsort : t.recency.Pairwise fun a b => decide (a.tick ≤ b.tick) = true := by
    apply List.pairwise_mergeSort
    · intro a b c
      simp only [decide_eq_true_eq]
      omega
    · intro a b
      simp only [Bool.or_eq_true, decide_eq_true_eq]
      omega
  exact hsort.imp of_decide_eq_true

/-- An ordered list of all slots is the order of use. -/
theorem recency_eq {t : Tier} {xs : List Slot} (hp : xs.Perm t.slots)
    (hs : xs.Pairwise fun a b => a.tick < b.tick) : t.recency = xs := by
  have hnd : (xs.map Slot.tick).Nodup := (List.pairwise_map.mpr hs).imp Nat.ne_of_lt
  have hrp := (recency_perm t).trans hp.symm
  refine List.Perm.eq_of_pairwise ?_ (recency_le t) (hs.imp Nat.le_of_lt) hrp
  intro a b ha hb hab hba
  exact List.inj_on_of_nodup_map hnd (hrp.subset ha) hb (Nat.le_antisymm hab hba)

theorem Ordered.recency_lt {t : Tier} (h : t.Ordered) :
    t.recency.Pairwise fun a b => a.tick < b.tick := by
  have hnd : (t.recency.map Slot.tick).Nodup := ((recency_perm t).map _).nodup_iff.mpr h.ticks
  have hne : t.recency.Pairwise fun a b => a.tick ≠ b.tick := List.pairwise_map.mp hnd
  exact ((recency_le t).and hne).imp fun hab => Nat.lt_of_le_of_ne hab.1 hab.2

/-- Slots that are ordered by tick have unique ticks. -/
theorem ticks_nodup {t : Tier} {xs : List Slot} (hp : xs.Perm t.slots)
    (hs : xs.Pairwise fun a b => a.tick < b.tick) : (t.slots.map Slot.tick).Nodup :=
  (hp.map _).nodup_iff.mp ((List.pairwise_map.mpr hs).imp Nat.ne_of_lt)

theorem totalCost_eq (t : Tier) : t.totalCost = (t.recency.map (Slot.cost t.capacity)).sum :=
  ((recency_perm t).symm.map _).sum_nat

/-! ## One key leaves, or comes to the end -/

/-- The order of use without a key, and perhaps with a slot under the newest tick behind it. -/
theorem Ordered.renew {t u : Tier} (h : t.Ordered) {key : String} (front : Option Slot)
    (hp : u.slots.Perm (front.toList ++ without key t.slots)) (ht : ∀ x ∈ front, x.tick = t.clock) :
    (without key t.recency ++ front.toList).Perm u.slots ∧
      (without key t.recency ++ front.toList).Pairwise fun a b => a.tick < b.tick := by
  constructor
  · refine List.Perm.trans ?_ hp.symm
    exact List.perm_append_comm.trans (((recency_perm t).filter _).append_left _)
  · rw [List.pairwise_append]
    refine ⟨h.recency_lt.filter _, ?_, ?_⟩
    · cases front <;> simp
    · intro a ha b hb
      have hb' := ht b (Option.mem_toList.mp hb)
      have ha' := h.fresh a (mem_recency.mp (List.mem_filter.mp ha).1)
      omega

/-- A change of the shard of `key` that leaves its other slots alone keeps the tier in order. -/
theorem Ordered.setShard {t : Tier} (h : t.Ordered) {key : String} {s : Shard} (hs : s.Sound)
    (front : Option Slot) (hf : s.slots = front.toList ++ (t.shardOf key).others key)
    (hx : ∀ x ∈ front, x.key = key ∧ x.tick = t.clock) {clock : Nat} (hc : t.clock ≤ clock)
    (hn : front.isSome → t.clock < clock) :
    Ordered { t.setShard key s with clock } ∧
      ({ t.setShard key s with clock } : Tier).recency = without key t.recency ++ front.toList := by
  have hp := h.toLaid.slots_setShard _ hf
  obtain ⟨hperm, hsort⟩ := h.renew front hp fun x m => (hx x m).2
  refine ⟨⟨⟨?_, ?_, ?_⟩, ticks_nodup hperm hsort, ?_⟩, recency_eq hperm hsort⟩
  · show 0 < (t.shards.set _ s).length
    rw [List.length_set]
    exact h.shards_pos
  · intro r hr
    rcases List.mem_or_eq_of_mem_set hr with hr | rfl
    · exact h.shard r hr
    · exact hs
  · intro i r hr x hxr
    show (t.setShard key s).shardIndex x.key = i
    rw [setShard_shardIndex]
    replace hr : (t.shards.set (t.shardIndex key) s)[i]? = some r := hr
    by_cases hi : t.shardIndex key = i
    · subst hi
      rw [List.getElem?_set_self (h.shardIndex_lt key), Option.some.injEq] at hr
      subst hr
      rw [hf, List.mem_append] at hxr
      rcases hxr with hxr | hxr
      · rw [(hx x (Option.mem_toList.mp hxr)).1]
      · exact h.placed _ _ (h.getElem?_shardIndex key) x
          ((Shard.others_sublist _ _).subset hxr)
    · rw [List.getElem?_set_ne hi] at hr
      exact h.placed i r hr x hxr
  · intro x hxs
    show x.tick < clock
    have hxs' := hperm.symm.subset hxs
    rcases List.mem_append.mp hxs' with hm | hm
    · have := h.fresh x (mem_recency.mp (List.mem_filter.mp hm).1)
      omega
    · have hm' := Option.mem_toList.mp hm
      have := (hx x hm').2
      have := hn (Option.isSome_of_mem hm')
      omega

theorem Laid.held?_eq {t : Tier} (h : t.Laid) {key : String} {e : Entry} :
    t.held? key = some e ↔ ∃ x ∈ t.slots, x.key = key ∧ x.entry = e := by
  unfold held? Shard.peek
  rw [Option.map_eq_some_iff]
  constructor
  · rintro ⟨x, hf, rfl⟩
    obtain ⟨hx, hk⟩ := h.slot_iff.mp hf
    exact ⟨x, hx, hk, rfl⟩
  · rintro ⟨x, hx, hk, rfl⟩
    exact ⟨x, h.slot_iff.mpr ⟨hx, hk⟩, rfl⟩

/-- What is held under a key, and what all others cost, is the whole cost. -/
theorem Laid.totalCost_split {t : Tier} (h : t.Laid) (key : String) :
    t.totalCost = t.heldCost key + ((without key t.slots).map (Slot.cost t.capacity)).sum := by
  unfold totalCost heldCost held? Shard.peek
  cases hf : (t.shardOf key).find? key with
  | none => rw [h.without_eq_self hf]; simp
  | some x =>
    obtain ⟨-, rfl⟩ := Shard.mem_of_find? hf
    rw [((h.perm_of_find? hf).map _).sum_nat, List.map_cons, List.sum_cons]
    rfl

theorem Sound.heldCost_le {t : Tier} (h : t.Sound) (key : String) : t.heldCost key ≤ t.used := by
  rw [h.used_eq, h.totalCost_split key]
  omega

/-! ## What the operations do -/

theorem slots_congr {t u : Tier} (hs : u.shards = t.shards) : u.slots = t.slots := by
  unfold slots
  rw [hs]

theorem recency_congr {t u : Tier} (hs : u.shards = t.shards) : u.recency = t.recency := by
  unfold recency
  rw [slots_congr hs]

/-- Only shards and clock matter for the order. -/
theorem Ordered.congr {t u : Tier} (h : t.Ordered) (hs : u.shards = t.shards) (hc : u.clock = t.clock) :
    u.Ordered := by
  have hl : u.shards.length = t.shards.length := by rw [hs]
  refine ⟨⟨by rw [hl]; exact h.shards_pos, by rw [hs]; exact h.shard, ?_⟩, ?_, ?_⟩
  · intro i s hi x hx
    rw [shardIndex_congr hl]
    rw [hs] at hi
    exact h.placed i s hi x hx
  · rw [slots_congr hs]; exact h.ticks
  · rw [slots_congr hs, hc]; exact h.fresh

theorem Laid.discard_eq {t : Tier} (h : t.Laid) (key : String) :
    t.discard key =
      { t.setShard key ((t.shardOf key).remove key).1 with used := t.used - t.heldCost key } := by
  unfold discard heldCost held? Shard.peek Shard.remove
  cases hf : (t.shardOf key).find? key with
  | none => exact congrArg (fun u : Tier => { u with used := t.used - 0 }) (h.setShard_self key).symm
  | some x => rfl

theorem place_eq (t : Tier) (key : String) (e : Entry) :
    t.place key e =
      { t.setShard key ((t.shardOf key).insert key e t.clock).1 with
        clock := t.clock + 1, used := t.used - t.heldCost key + t.costOf key e } := by
  unfold place heldCost held?
  rw [← Shard.insert_entry (t.shardOf key) key e t.clock]
  generalize (t.shardOf key).insert key e t.clock = r
  obtain ⟨shard, old⟩ := r
  cases old <;> rfl

/-- A slot that has been used under a new tick. -/
def touch (t : Tier) (x : Slot) : Tier :=
  { t.setShard x.key { t.shardOf x.key with
      slots := { x with tick := t.clock } :: (t.shardOf x.key).others x.key } with
    clock := t.clock + 1 }

/-- A lookup misses, drops what has expired, or uses what it finds. -/
theorem Laid.get_eq {t : Tier} (h : t.Laid) (key : String) (now : Instant) :
    t.get key now =
      match (t.shardOf key).find? key with
      | none => ({ t with clock := t.clock + 1, tally := t.tally.miss }, none)
      | some x =>
        if x.entry.isExpiredAt now then
          ({ t.discard key with clock := t.clock + 1, tally := (t.tally.expire 1).miss }, none)
        else ({ t.touch x with tally := t.tally.hit }, some x.entry) := by
  unfold Tier.get Shard.get
  cases hf : (t.shardOf key).find? key with
  | none =>
    exact congrArg (fun u : Tier => ({ u with clock := t.clock + 1, tally := t.tally.miss }, none))
      (h.setShard_self key)
  | some x =>
    obtain ⟨-, rfl⟩ := Shard.mem_of_find? hf
    by_cases he : x.entry.isExpiredAt now
    · -- the slot is first moved to the front of its shard, and taken from there
      have hso (s : Shard) (c : Nat) :
          Tier.shardOf { t.setShard x.key s with clock := c } x.key = s :=
        h.shardOf_setShard x.key s
      have hset (s r : Shard) (c : Nat) :
          Tier.setShard { t.setShard x.key s with clock := c } x.key r
            = { t.setShard x.key r with clock := c } :=
        congrArg (fun u : Tier => { u with clock := c }) (setShard_setShard t x.key s r)
      have hd : t.discard x.key =
          { t.setShard x.key (({ t.shardOf x.key with slots := (t.shardOf x.key).others x.key }).forget x)
            with used := t.used - t.costOf x.key x.entry } := by
        unfold discard Shard.remove
        rw [hf]
        rfl
      simp only [he, if_true, hso, Shard.removeExpired_front _ he, hset, hd]
      rfl
    · simp only [he]
      rfl

theorem Ordered.discard {t : Tier} (h : t.Ordered) (key : String) :
    (t.discard key).Ordered ∧ (t.discard key).recency = without key t.recency := by
  have hs := h.setShard ((h.shardOf_sound key).remove key) none (Shard.remove_slots _ key)
    (by simp) (Nat.le_refl _) (by simp)
  rw [h.toLaid.discard_eq]
  refine ⟨hs.1.congr rfl rfl, ?_⟩
  rw [← List.append_nil (without key t.recency)]
  exact hs.2

/-- The clock is ahead of the shard of a key. -/
theorem Ordered.fresh_shardOf {t : Tier} (h : t.Ordered) (key : String) :
    ∀ y ∈ (t.shardOf key).slots, y.tick < t.clock := fun y hy =>
  h.fresh y (List.mem_flatMap.mpr ⟨_, List.mem_of_getElem? (h.getElem?_shardIndex key), hy⟩)

theorem Ordered.place {t : Tier} (h : t.Ordered) (key : String) (e : Entry) :
    (t.place key e).Ordered ∧
      (t.place key e).recency = without key t.recency ++ [⟨key, e, t.clock⟩] := by
  have hs := h.setShard ((h.shardOf_sound key).insert key e (h.fresh_shardOf key))
    (some ⟨key, e, t.clock⟩) (Shard.insert_slots _ key e t.clock)
    (by rintro x ⟨⟩; exact ⟨rfl, rfl⟩) (Nat.le_succ _) fun _ => Nat.lt_succ_self _
  rw [place_eq]
  exact ⟨hs.1.congr rfl rfl, hs.2⟩

theorem Ordered.touch {t : Tier} (h : t.Ordered) {x : Slot} (hx : x ∈ t.slots) :
    (t.touch x).Ordered ∧
      (t.touch x).recency = without x.key t.recency ++ [{ x with tick := t.clock }] := by
  have hs := h.setShard
    ((h.shardOf_sound x.key).touch (h.slot_iff.mpr ⟨hx, rfl⟩) (h.fresh_shardOf x.key))
    (some { x with tick := t.clock }) rfl
    (by rintro y ⟨⟩; exact ⟨rfl, rfl⟩) (Nat.le_succ _) fun _ => Nat.lt_succ_self _
  exact ⟨hs.1, hs.2⟩

/-! ## The least recently used entry -/

/-- Only empty shards have no tail. -/
theorem oldestTail?_eq_none {ss : List Shard} (h : oldestTail? ss = none) :
    ∀ s ∈ ss, s.oldestTick? = none := by
  fun_induction oldestTail? ss with
  | case1 => simp
  | case2 s rest hr ho ih => exact List.forall_mem_cons.mpr ⟨ho, ih hr⟩
  | case3 | case4 | case5 | case6 => cases h

/-- The tick found is a tail's, and no tail has a smaller one. -/
theorem oldestTail?_eq_some {ss : List Shard} {tick i : Nat} (h : oldestTail? ss = some (tick, i)) :
    (∃ s, ss[i]? = some s ∧ s.oldestTick? = some tick) ∧
      ∀ s ∈ ss, ∀ n, s.oldestTick? = some n → tick ≤ n := by
  fun_induction oldestTail? ss generalizing tick i with
  | case1 => cases h
  | case2 => cases h
  | case3 s rest m j hr ho ih =>
    cases h
    obtain ⟨hex, hmin⟩ := ih hr
    refine ⟨by simpa using hex, List.forall_mem_cons.mpr ⟨?_, hmin⟩⟩
    intro n hn
    rw [ho] at hn
    cases hn
  | case4 s rest m hr ho ih =>
    cases h
    refine ⟨⟨s, rfl, ho⟩, List.forall_mem_cons.mpr ⟨?_, ?_⟩⟩
    · intro n hn
      rw [ho, Option.some.injEq] at hn
      omega
    · intro q hq n hn
      rw [oldestTail?_eq_none hr q hq] at hn
      cases hn
  | case5 s rest m k j hr ho hle ih =>
    cases h
    obtain ⟨-, hmin⟩ := ih hr
    refine ⟨⟨s, rfl, ho⟩, List.forall_mem_cons.mpr ⟨?_, ?_⟩⟩
    · intro n hn
      rw [ho, Option.some.injEq] at hn
      omega
    · exact fun q hq n hn => Nat.le_trans hle (hmin q hq n hn)
  | case6 s rest m k j hr ho hle ih =>
    cases h
    obtain ⟨hex, hmin⟩ := ih hr
    refine ⟨by simpa using hex, List.forall_mem_cons.mpr ⟨?_, hmin⟩⟩
    intro n hn
    rw [ho, Option.some.injEq] at hn
    omega

/-- The smallest tick of the tails is the smallest tick of all. -/
theorem Laid.le_of_oldestTail? {t : Tier} (h : t.Laid) {tick i : Nat}
    (ho : oldestTail? t.shards = some (tick, i)) {x : Slot} (hx : x ∈ t.slots) : tick ≤ x.tick := by
  obtain ⟨s, hs, hxs⟩ := List.mem_flatMap.mp hx
  have hw := List.getLast?_eq_some_getLast (List.ne_nil_of_mem hxs)
  have h1 := (oldestTail?_eq_some ho).2 s hs _ (by unfold Shard.oldestTick?; rw [hw]; rfl)
  exact Nat.le_trans h1 ((h.shard s hs).tick_le_of_getLast? hw hxs)

/-- Eviction takes a slot of the smallest tick out of its shard. -/
theorem Laid.popOldest?_eq {t u : Tier} (h : t.Laid) {x : Slot} (hp : t.popOldest? = some (x, u)) :
    ∃ r, (t.shardOf x.key).popOldest? = some (x, r) ∧ u = t.setShard x.key r ∧ x ∈ t.slots ∧
      ∀ y ∈ t.slots, x.tick ≤ y.tick := by
  simp only [Tier.popOldest?, Option.bind_eq_bind, Option.bind_eq_some_iff, Option.some.injEq,
    Prod.mk.injEq] at hp
  obtain ⟨⟨tick, i⟩, hold, s, hi, ⟨y, r⟩, hpop, rfl, rfl⟩ := hp
  obtain ⟨⟨s', hi', ht⟩, -⟩ := oldestTail?_eq_some hold
  rw [hi, Option.some.injEq] at hi'
  subst hi'
  have hlast : s.slots.getLast? = some y := by
    rw [Shard.slots_of_popOldest? hpop]
    simp
  have hys : y ∈ s.slots := List.mem_of_getLast? hlast
  have hidx := h.placed i s hi y hys
  have hso := h.getElem?_shardIndex y.key
  rw [hidx, hi, Option.some.injEq] at hso
  refine ⟨r, by rw [← hso]; exact hpop, ?_, ?_, ?_⟩
  · unfold Tier.setShard
    rw [hidx]
  · exact List.mem_flatMap.mpr ⟨s, List.mem_of_getElem? hi, hys⟩
  · intro z hz
    unfold Shard.oldestTick? at ht
    rw [hlast, Option.map_some, Option.some.injEq] at ht
    rw [ht]
    exact h.le_of_oldestTail? hold hz

/-- Eviction takes the entry at the front of the order of use. -/
theorem Ordered.popOldest? {t u : Tier} (h : t.Ordered) {x : Slot} (hp : t.popOldest? = some (x, u)) :
    u.Ordered ∧ t.recency = x :: u.recency ∧ u.recency = without x.key t.recency := by
  obtain ⟨r, hpop, rfl, hx, hmin⟩ := h.toLaid.popOldest?_eq hp
  have hs := h.shardOf_sound x.key
  have hset := h.setShard (hs.popOldest? hpop) none (hs.popOldest?_slots hpop)
    (by simp) (Nat.le_refl _) (by simp)
  have hrec : (t.setShard x.key r).recency = without x.key t.recency := by
    rw [← List.append_nil (without x.key t.recency)]
    exact hset.2
  refine ⟨hset.1, ?_, hrec⟩
  rw [hrec]
  apply recency_eq
  · have hp := h.perm_of_find? (h.slot_iff.mpr ⟨hx, rfl⟩)
    exact (((recency_perm t).filter _).cons x).trans hp.symm
  · refine List.pairwise_cons.mpr ⟨?_, h.recency_lt.filter _⟩
    intro z hz
    obtain ⟨hz, hk⟩ := List.mem_filter.mp hz
    have hz := mem_recency.mp hz
    refine Nat.lt_of_le_of_ne (hmin z hz) fun e => ?_
    rw [List.inj_on_of_nodup_map h.ticks hx hz e] at hk
    simp at hk

/-- A tier gives nothing to evict only if it is empty. -/
theorem recency_eq_nil {t : Tier} (h : t.popOldest? = none) : t.recency = [] := by
  have hnil : ∀ s ∈ t.shards, s.slots = [] := by
    cases hold : oldestTail? t.shards with
    | none =>
      intro s hs
      have := oldestTail?_eq_none hold s hs
      unfold Shard.oldestTick? at this
      simpa using this
    | some p =>
      obtain ⟨tick, i⟩ := p
      obtain ⟨⟨s, hi, ht⟩, -⟩ := oldestTail?_eq_some hold
      unfold Shard.oldestTick? at ht
      obtain ⟨x, hx, -⟩ := Option.map_eq_some_iff.mp ht
      simp [Tier.popOldest?, hold, hi, Shard.popOldest?, hx] at h
  apply List.eq_nil_iff_forall_not_mem.mpr
  intro x hx
  obtain ⟨s, hs, hxs⟩ := List.mem_flatMap.mp (mem_recency.mp hx)
  rw [hnil s hs] at hxs
  cases hxs

end Tier

end PeerCache
