import Mathlib
import PeerCache.Cache.Shard
import PeerCache.Proofs.Lists

/-!
# The books of a shard

A shard is sound (`Shard.Sound`) if its two counters agree with its list, no key is there twice,
and the list is ordered by tick, the latest first.  What an operation does to the list is a
filter, a new head or a lost tail:

    (s.remove key).1.slots = s.others key                                  (remove_slots)
    (s.insert key e tick).1.slots = ⟨key, e, tick⟩ :: s.others key         (insert_slots)
    s.popOldest? = some (x, r) → s.slots = r.slots ++ [x]                  (slots_of_popOldest?)

Each of them keeps a shard sound; a new head needs a tick above all others.
-/

namespace PeerCache

namespace Shard

/-- The counters are right, keys are unique, and ticks fall along the list. -/
structure Sound (s : Shard) : Prop where
  count_eq : s.count = s.slots.length
  bytes_eq : s.bytes = (s.slots.map Slot.bytes).sum
  keys : (s.slots.map Slot.key).Nodup
  ticks : s.slots.Pairwise fun a b => b.tick < a.tick

theorem sound_empty : Sound {} := ⟨rfl, rfl, List.nodup_nil, List.Pairwise.nil⟩

theorem totalCost_eq (s : Shard) (c : Capacity) :
    s.totalCost c = (s.slots.map (Slot.cost c)).sum := by
  unfold totalCost
  induction s.slots with
  | nil => rfl
  | cons x xs ih => rw [List.foldr_cons, ih, List.map_cons, List.sum_cons]

/-! ## Finding a key -/

theorem mem_of_find? {s : Shard} {key : String} {x : Slot} (h : s.find? key = some x) :
    x ∈ s.slots ∧ x.key = key :=
  ⟨List.mem_of_find?_eq_some h, by simpa using List.find?_some h⟩

theorem find?_eq_none_iff {s : Shard} {key : String} :
    s.find? key = none ↔ ∀ x ∈ s.slots, x.key ≠ key := by
  simp [find?, List.find?_eq_none]

theorem others_eq_self {s : Shard} {key : String} (h : s.find? key = none) :
    s.others key = s.slots := by
  rw [find?_eq_none_iff] at h
  unfold others
  rw [List.filter_eq_self]
  intro x hx
  simpa using h x hx

theorem key_ne_of_mem_others {s : Shard} {key : String} {x : Slot} (h : x ∈ s.others key) :
    x.key ≠ key := by
  simpa using (List.mem_filter.mp h).2

/-- The other slots are the same whatever stands in front under the key. -/
theorem others_front (s : Shard) (x : Slot) :
    others { s with slots := x :: s.others x.key } x.key = s.others x.key := by
  simp [others]

theorem others_sublist (s : Shard) (key : String) : (s.others key).Sublist s.slots :=
  List.filter_sublist

/-- The first slot of a list is found under its key. -/
theorem find?_front (s : Shard) (x : Slot) (rest : List Slot) :
    find? { s with slots := x :: rest } x.key = some x := by
  simp [find?]

theorem Sound.find?_eq_some {s : Shard} (h : s.Sound) {x : Slot} (hx : x ∈ s.slots) :
    s.find? x.key = some x := by
  cases hf : s.find? x.key with
  | none => exact absurd rfl (find?_eq_none_iff.mp hf x hx)
  | some y =>
    obtain ⟨hy, hk⟩ := mem_of_find? hf
    rw [List.inj_on_of_nodup_map h.keys hy hx hk]

/-- The slot of a key and all others are the whole shard. -/
theorem Sound.perm_of_find? {s : Shard} (h : s.Sound) {key : String} {x : Slot}
    (hf : s.find? key = some x) : s.slots.Perm (x :: s.others key) := by
  obtain ⟨hx, rfl⟩ := mem_of_find? hf
  have hnd : s.slots.Nodup := List.Nodup.of_map _ h.keys
  have he : s.others x.key = s.slots.erase x := by
    unfold others
    rw [hnd.erase_eq_filter]
    apply List.filter_congr
    intro y hy
    by_cases hyx : y = x
    · rw [hyx, bne_self_eq_false, bne_self_eq_false]
    · have hk : y.key ≠ x.key := fun e => hyx (List.inj_on_of_nodup_map h.keys hy hx e)
      rw [bne_iff_ne.mpr hk, bne_iff_ne.mpr hyx]
  rw [he]
  exact List.perm_cons_erase hx

/-! ## Looking up a key -/

/-- All that a lookup can do. -/
theorem get_cases (s : Shard) (key : String) (now : Instant) (tick : Nat) :
    s.get key now tick = (s, .miss) ∨
    ∃ x, s.find? key = some x ∧
      ((x.entry.isExpiredAt now = true ∧
          s.get key now tick = ({ s with slots := x :: s.others key }, .expired)) ∨
        (x.entry.isExpiredAt now = false ∧
          s.get key now tick = ({ s with slots := { x with tick } :: s.others key }, .hit x.entry))) := by
  unfold get
  cases hf : s.find? key with
  | none => exact .inl rfl
  | some x =>
    refine .inr ⟨x, rfl, ?_⟩
    cases he : x.entry.isExpiredAt now with
    | true => simp [he]
    | false => simp [he]

/-- A lookup that finds an entry expired brings its slot to the front. -/
theorem get_expired {s : Shard} {key : String} {now : Instant} {tick : Nat}
    (h : (s.get key now tick).2 = .expired) :
    ∃ x, s.find? key = some x ∧ x.entry.isExpiredAt now = true ∧
      (s.get key now tick).1 = { s with slots := x :: s.others key } := by
  rcases s.get_cases key now tick with hget | ⟨x, hx, ⟨hlate, hget⟩ | ⟨-, hget⟩⟩
  · rw [hget] at h
    cases h
  · exact ⟨x, hx, hlate, congrArg Prod.fst hget⟩
  · rw [hget] at h
    cases h

/-- What has been found expired is dropped from the front, and the others are as they were. -/
theorem removeExpired_front (s : Shard) {x : Slot} {now : Instant} (hlate : x.entry.isExpiredAt now = true) :
    removeExpired { s with slots := x :: s.others x.key } x.key now =
      (({ s with slots := s.others x.key } : Shard).forget x, some x.entry) := by
  simp only [removeExpired, remove, find?_front, hlate, if_true, others_front]

/-! ## Taking a slot out -/

/-- A slot leaves and the counters follow; the order of the rest stays. -/
theorem Sound.forget {s : Shard} (h : s.Sound) {x : Slot} {rest : List Slot}
    (hp : s.slots.Perm (x :: rest)) (hs : rest.Sublist s.slots) :
    (({ s with slots := rest }).forget x).Sound where
  count_eq := by
    show s.count - 1 = rest.length
    rw [h.count_eq, hp.length_eq, List.length_cons]
    omega
  bytes_eq := by
    show s.bytes - x.bytes = (rest.map Slot.bytes).sum
    rw [h.bytes_eq, (hp.map Slot.bytes).sum_nat, List.map_cons, List.sum_cons]
    omega
  keys := h.keys.sublist (hs.map _)
  ticks := h.ticks.sublist hs

/-- What leaves was counted: neither counter goes below zero. -/
theorem Sound.covers {s : Shard} (h : s.Sound) {x : Slot} (hx : x ∈ s.slots) :
    1 ≤ s.count ∧ x.bytes ≤ s.bytes := by
  constructor
  · rw [h.count_eq]
    exact List.length_pos_of_mem hx
  · rw [h.bytes_eq]
    exact List.le_sum_of_mem (List.mem_map_of_mem hx)

@[simp] theorem forget_slots (s : Shard) (x : Slot) : (s.forget x).slots = s.slots := rfl

@[simp] theorem remove_slots (s : Shard) (key : String) : (s.remove key).1.slots = s.others key := by
  unfold remove
  cases hf : s.find? key with
  | none => exact (others_eq_self hf).symm
  | some x => rfl

@[simp] theorem remove_entry (s : Shard) (key : String) : (s.remove key).2 = s.peek key := by
  unfold remove peek
  cases s.find? key <;> rfl

/-- A removal finds nothing, or what is under the key goes. -/
theorem remove_cases (s : Shard) (key : String) : s.remove key = (s, none) ∨
    ∃ r e, s.remove key = (r, some e) ∧ r.slots = s.others key := by
  unfold remove
  cases s.find? key with
  | none => exact .inl rfl
  | some x => exact .inr ⟨_, x.entry, rfl, rfl⟩

theorem removeExpired_cases (s : Shard) (key : String) (now : Instant) : s.removeExpired key now = (s, none) ∨
    ∃ r e, s.removeExpired key now = (r, some e) ∧ r.slots = s.others key := by
  unfold removeExpired
  cases s.find? key with
  | none => exact .inl rfl
  | some x =>
    simp only
    split
    · exact s.remove_cases key
    · exact .inl rfl

theorem Sound.remove {s : Shard} (h : s.Sound) (key : String) : (s.remove key).1.Sound := by
  unfold Shard.remove
  cases hf : s.find? key with
  | none => exact h
  | some x => exact h.forget (h.perm_of_find? hf) (s.others_sublist key)

/-! ## Putting a slot in front -/

@[simp] theorem insert_slots (s : Shard) (key : String) (e : Entry) (tick : Nat) :
    (s.insert key e tick).1.slots = ⟨key, e, tick⟩ :: s.others key := by
  show _ :: (s.remove key).1.slots = _
  rw [remove_slots]

@[simp] theorem insert_entry (s : Shard) (key : String) (e : Entry) (tick : Nat) :
    (s.insert key e tick).2 = s.peek key :=
  remove_entry s key

/-- Keys stay unique if the head takes the place of its key's own slot. -/
theorem nodup_front {s : Shard} (h : (s.slots.map Slot.key).Nodup) (x : Slot) :
    ((x :: s.others x.key).map Slot.key).Nodup := by
  rw [List.map_cons, List.nodup_cons]
  refine ⟨?_, h.sublist ((s.others_sublist x.key).map _)⟩
  intro hm
  obtain ⟨y, hy, hk⟩ := List.mem_map.mp hm
  exact key_ne_of_mem_others hy hk

/-- Keys stay unique and ticks ordered if the head is a key's own slot with the latest tick. -/
theorem Sound.front {s : Shard} (h : s.Sound) {x : Slot} (ht : ∀ y ∈ s.slots, y.tick < x.tick) :
    ((x :: s.others x.key).map Slot.key).Nodup ∧
      (x :: s.others x.key).Pairwise fun a b => b.tick < a.tick := by
  have hsub := s.others_sublist x.key
  refine ⟨nodup_front h.keys x, ?_⟩
  exact List.pairwise_cons.mpr ⟨fun y hy => ht y (hsub.subset hy), h.ticks.sublist hsub⟩

theorem Sound.insert {s : Shard} (h : s.Sound) (key : String) (e : Entry) {tick : Nat}
    (ht : ∀ y ∈ s.slots, y.tick < tick) : (s.insert key e tick).1.Sound := by
  have hr := h.remove key
  have hf := h.front (x := ⟨key, e, tick⟩) ht
  constructor
  · show (s.remove key).1.count + 1 = _
    rw [hr.count_eq, insert_slots, remove_slots, List.length_cons]
  · show (s.remove key).1.bytes + _ = _
    rw [hr.bytes_eq, insert_slots, remove_slots, List.map_cons, List.sum_cons, Nat.add_comm]
  · rw [insert_slots]; exact hf.1
  · rw [insert_slots]; exact hf.2

/-- A live hit moves the slot to the front under a new tick; the counters stay. -/
theorem Sound.touch {s : Shard} (h : s.Sound) {key : String} {x : Slot} (hf : s.find? key = some x)
    {tick : Nat} (ht : ∀ y ∈ s.slots, y.tick < tick) :
    Sound { s with slots := { x with tick } :: s.others key } := by
  have hp := h.perm_of_find? hf
  obtain ⟨-, rfl⟩ := mem_of_find? hf
  have hfr := h.front (x := { x with tick }) ht
  refine ⟨?_, ?_, hfr.1, hfr.2⟩
  · show s.count = _
    rw [h.count_eq, hp.length_eq, List.length_cons, List.length_cons]
  · show s.bytes = _
    rw [h.bytes_eq, (hp.map Slot.bytes).sum_nat, List.map_cons, List.map_cons]
    rfl

/-! ## The tail -/

theorem slots_of_popOldest? {s r : Shard} {x : Slot} (h : s.popOldest? = some (x, r)) :
    s.slots = r.slots ++ [x] := by
  unfold popOldest? at h
  obtain ⟨y, hy, he⟩ := Option.map_eq_some_iff.mp h
  cases he
  exact (List.dropLast_append_getLast? _ hy).symm

theorem Sound.popOldest? {s r : Shard} (h : s.Sound) {x : Slot} (hp : s.popOldest? = some (x, r)) :
    r.Sound := by
  have hs := slots_of_popOldest? hp
  unfold Shard.popOldest? at hp
  obtain ⟨y, hy, he⟩ := Option.map_eq_some_iff.mp hp
  cases he
  exact h.forget ((List.Perm.of_eq hs).trans (List.perm_append_singleton x _))
    (List.dropLast_sublist _)

/-- All but the tail are the slots of other keys. -/
theorem others_tail {s : Shard} (h : (s.slots.map Slot.key).Nodup) {x : Slot} {newer : List Slot}
    (hs : s.slots = newer ++ [x]) : s.others x.key = newer := by
  unfold others
  rw [hs] at h ⊢
  exact filter_ne_concat h

theorem others_of_popOldest? {s r : Shard} (h : (s.slots.map Slot.key).Nodup) {x : Slot}
    (hp : s.popOldest? = some (x, r)) : r.slots = s.others x.key :=
  (others_tail h (slots_of_popOldest? hp)).symm

theorem Sound.popOldest?_slots {s r : Shard} (h : s.Sound) {x : Slot}
    (hp : s.popOldest? = some (x, r)) : r.slots = s.others x.key :=
  others_of_popOldest? h.keys hp

/-- The tail has the smallest tick. -/
theorem Sound.tick_le_of_getLast? {s : Shard} (h : s.Sound) {x y : Slot}
    (hx : s.slots.getLast? = some x) (hy : y ∈ s.slots) : x.tick ≤ y.tick := by
  have hs := List.dropLast_append_getLast? _ hx
  have ht := h.ticks
  rw [← hs, List.pairwise_append] at ht
  rw [← hs, List.mem_append] at hy
  rcases hy with hy | hy
  · exact Nat.le_of_lt (ht.2.2 y hy x (by simp))
  · rw [List.mem_singleton.mp hy]

end Shard

end PeerCache
