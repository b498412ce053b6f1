import Mathlib
import PeerCache.Proofs.Cache.Contents

/-!
# One key of a tier

What becomes of the entry under one key:

    a put that fits leaves its entry under the key, and nothing else          (held?_put, Holds.put_only)
    a removal leaves nothing under the key                                    (Holds.remove_key)
    a lookup finds what is held and has not expired                           (get_of_held)
                                            and leaves it, whatever it looks for  (held?_get_of_live)

Other keys may lose their entries on the way, but get none: what is held after an operation was held
before it, or is what has been put (`Sound.of_held?_put` and the like).
-/

namespace PeerCache

namespace Lru

/-! ## Of the reference -/

/-- Trimming never reaches an entry at the recent end that fits by itself. -/
theorem trimFront_concat {c : Capacity} {p : String × Entry} (hp : cost c p ≤ c.amount) (now : Instant)
    (xs : List (String × Entry)) (n : Tally) :
    ∃ ys, ys <:+ xs ∧ (trimFront c now (xs ++ [p]) n).1 = ys ++ [p] := by
  induction xs generalizing n with
  | nil =>
    refine ⟨[], List.suffix_refl [], ?_⟩
    rw [List.nil_append, trimFront, if_pos (by simpa using hp)]
  | cons x xs ih =>
    rw [List.cons_append, trimFront]
    split
    · exact ⟨x :: xs, List.suffix_refl _, rfl⟩
    · obtain ⟨ys, hys, he⟩ := ih (if x.2.isExpiredAt now then n.expire 1 else n.evict 1)
      exact ⟨ys, hys.trans (List.suffix_cons x xs), he⟩

/-- A put that fits is found. -/
theorem find?_put {l : Lru} {key : String} {e : Entry} (h : cost l.capacity (key, e) ≤ l.capacity.amount)
    (now : Instant) : (l.put key e now).1.find? key = some e := by
  unfold put
  rw [if_neg (Nat.not_lt.mpr h)]
  obtain ⟨ys, hys, he⟩ := trimFront_concat h now (l.forget key).entries l.tally
  show ((trimFront l.capacity now ((l.forget key).entries ++ [(key, e)]) l.tally).1.find?
    (·.1 == key)).map (·.2) = some e
  have hnone : ys.find? (fun x => x.1 == key) = none := by
    rw [List.find?_eq_none]
    intro x hx
    simpa using (List.mem_filter.mp (hys.subset hx)).2
  rw [he, List.find?_append, hnone]
  simp

/-- After a put there is nothing else under its key. -/
theorem mem_put {l : Lru} {key : String} {e : Entry} {now : Instant} {p : String × Entry}
    (h : p ∈ (l.put key e now).1.entries) : p = (key, e) ∨ p ∈ l.entries ∧ p.1 ≠ key := by
  have hforget (hp : p ∈ (l.forget key).entries) : p ∈ l.entries ∧ p.1 ≠ key := by
    obtain ⟨hm, hk⟩ := List.mem_filter.mp hp
    exact ⟨hm, bne_iff_ne.mp hk⟩
  unfold put at h
  split at h
  · exact .inr (hforget h)
  · rcases List.mem_append.mp (mem_trim h) with hp | hp
    · exact .inr (hforget hp)
    · exact .inl (List.mem_singleton.mp hp)

/-- After a removal there is nothing under its key. -/
theorem mem_remove {l : Lru} {key : String} {p : String × Entry} (h : p ∈ (l.remove key).1.entries) :
    p ∈ l.entries ∧ p.1 ≠ key := by
  unfold remove at h
  split at h
  · next hnone =>
    unfold find? at hnone
    rw [Option.map_eq_none_iff, List.find?_eq_none] at hnone
    exact ⟨h, by simpa using hnone p h⟩
  · obtain ⟨hm, hk⟩ := List.mem_filter.mp h
    exact ⟨hm, bne_iff_ne.mp hk⟩

/-- A removal takes what is under its key, and nothing else. -/
theorem remove_entries (l : Lru) (key : String) :
    (l.remove key).1.entries = l.entries.filter (·.1 != key) := by
  unfold remove
  split
  · next hnone =>
    symm
    rw [List.filter_eq_self]
    unfold find? at hnone
    rw [Option.map_eq_none_iff, List.find?_eq_none] at hnone
    simpa using hnone
  · rfl

theorem find?_forget_of_ne (l : Lru) {key k : String} (hk : key ≠ k) :
    (l.forget k).find? key = l.find? key := by
  unfold find? forget
  rw [List.find?_filter]
  refine congrArg (Option.map _) (congrArg (List.find? · l.entries) (funext fun p => ?_))
  by_cases hp : p.1 = key
  · simp [hp, hk]
  · simp [hp]

theorem find?_forget_self (l : Lru) (key : String) : (l.forget key).find? key = none := by
  unfold find? forget
  rw [Option.map_eq_none_iff, List.find?_eq_none]
  intro p hp
  simpa using (List.mem_filter.mp hp).2

theorem find?_use (l : Lru) (key k : String) (e : Entry) :
    (l.use k e).find? key = if key = k then some e else l.find? key := by
  have hconcat : (l.use k e).find? key = ((l.forget k).find? key).or (if k = key then some e else none) := by
    unfold find? use
    rw [List.find?_append, Option.map_or]
    refine congrArg (Option.or _) ?_
    by_cases hk : k = key <;> simp [hk]
  by_cases hk : key = k
  · subst hk
    rw [hconcat, l.find?_forget_self, if_pos rfl, if_pos rfl]
    rfl
  · rw [hconcat, l.find?_forget_of_ne hk, if_neg hk, if_neg (Ne.symm hk), Option.or_none]

/-- What is there and has not expired, a lookup leaves there, whatever it looks for. -/
theorem find?_get_of_live {l : Lru} {key : String} {e : Entry} {now : Instant} (he : l.find? key = some e)
    (hlive : e.isExpiredAt now = false) (k : String) : (l.get k now).1.find? key = some e := by
  unfold get
  split
  · exact he
  · next y hf =>
    split
    · next hexpired =>
      have hk : key ≠ k := by
        rintro rfl
        rw [Option.some.inj (hf.symm.trans he), hlive] at hexpired
        cases hexpired
      exact (l.find?_forget_of_ne hk).trans he
    · show (l.use k y).find? key = some e
      rw [l.find?_use]
      split
      · next hk =>
        subst hk
        exact hf.symm.trans he
      · exact he

end Lru

namespace Tier

variable {P Q : String → ByteArray → Prop}

/-! ## Of a tier -/

theorem Holds.imp {t : Tier} (h : t.Holds P) (hpq : ∀ key v, P key v → Q key v) : t.Holds Q :=
  ⟨h.sound, h.fits, fun x hx => hpq _ _ (h.all x hx)⟩

theorem put_view {t : Tier} (h : t.Sound) (key : String) (v : ByteArray) (expireAt : Option Instant)
    (now : Instant) : (t.put key v expireAt now).1.view = (t.view.put key ⟨v, expireAt⟩ now).1 := by
  rw [view_put h]

theorem remove_view {t : Tier} (h : t.Sound) (key : String) :
    (t.remove key).1.view = (t.view.remove key).1 := by
  rw [view_remove h]

/-- What is in the view is what is in the slots. -/
theorem Holds.of_view {t : Tier} (hs : t.Sound) (hf : t.Fits)
    (h : ∀ p ∈ t.view.entries, P p.1 p.2.value) : t.Holds P :=
  ⟨hs, hf, fun _ hx => h _ (List.mem_map_of_mem (mem_recency.mpr hx))⟩

/-- A put that fits leaves its entry under its key. -/
theorem Sound.held?_put {t : Tier} (h : t.Sound) (hf : t.Fits) {key : String} {v : ByteArray}
    (expireAt : Option Instant) (hcost : t.costOf key ⟨v, expireAt⟩ ≤ t.capacity.amount) (now : Instant) :
    (t.put key v expireAt now).1.held? key = some ⟨v, expireAt⟩ := by
  rw [← find?_view (h.put hf key v expireAt now).1.toLaid, put_view h]
  exact Lru.find?_put (l := t.view) hcost now

/-- A put that does not fit leaves nothing under its key. -/
theorem Sound.held?_put_of_lt {t : Tier} (h : t.Sound) (hf : t.Fits) {key : String} {v : ByteArray}
    (expireAt : Option Instant) (hcost : t.capacity.amount < t.costOf key ⟨v, expireAt⟩) (now : Instant) :
    (t.put key v expireAt now).1.held? key = none := by
  rw [← find?_view (h.put hf key v expireAt now).1.toLaid, put_view h]
  unfold Lru.put
  rw [if_pos (show t.view.capacity.amount < Lru.cost t.view.capacity (key, ⟨v, expireAt⟩) from hcost)]
  exact t.view.find?_forget_self key

/-- A put leaves nothing else under its key. -/
theorem Holds.put_only {t : Tier} (h : t.Holds P) (key : String) (v : ByteArray)
    (expireAt : Option Instant) (now : Instant) :
    (t.put key v expireAt now).1.Holds fun k w => k = key ∧ w = v ∨ k ≠ key ∧ P k w := by
  obtain ⟨hs, hf⟩ := h.sound.put h.fits key v expireAt now
  refine Holds.of_view hs hf ?_
  intro p hp
  rw [put_view h.sound] at hp
  rcases Lru.mem_put hp with rfl | ⟨hm, hk⟩
  · exact .inl ⟨rfl, rfl⟩
  · exact .inr ⟨hk, h.view hm⟩

/-- A removal leaves nothing under its key. -/
theorem Holds.remove_key {t : Tier} (h : t.Holds P) (key : String) :
    (t.remove key).1.Holds fun k w => k ≠ key ∧ P k w := by
  obtain ⟨hs, hf⟩ := h.sound.remove h.fits key
  refine Holds.of_view hs hf ?_
  intro p hp
  rw [remove_view h.sound] at hp
  obtain ⟨hm, hk⟩ := Lru.mem_remove hp
  exact ⟨hk, h.view hm⟩

/-- A lookup finds what is held and has not expired. -/
theorem Laid.get_of_held {t : Tier} (h : t.Laid) {key : String} {e : Entry} {now : Instant}
    (hheld : t.held? key = some e) (hlive : e.isExpiredAt now = false) : (t.get key now).2 = some e := by
  unfold held? Shard.peek at hheld
  obtain ⟨x, hx, rfl⟩ := Option.map_eq_some_iff.mp hheld
  rw [h.get_eq, hx]
  simp only [hlive, Bool.false_eq_true, if_false]

theorem peek_of_held {t : Tier} {key : String} {e : Entry} {now : Instant}
    (hheld : t.held? key = some e) (hlive : e.isExpiredAt now = false) : t.peek key now = some e := by
  unfold held? at hheld
  unfold Tier.peek
  rw [hheld, Option.filter_some, hlive]
  rfl

/-- What a lookup finds is held and has not expired. -/
theorem Laid.of_get {t : Tier} (h : t.Laid) {key : String} {e : Entry} {now : Instant}
    (he : (t.get key now).2 = some e) : t.held? key = some e ∧ e.isExpiredAt now = false := by
  rw [h.get_eq] at he
  split at he
  · cases he
  · next x hx =>
    split at he
    · cases he
    · next hlive =>
      cases he
      unfold held? Shard.peek
      exact ⟨by rw [hx]; rfl, Bool.eq_false_iff.mpr hlive⟩

theorem of_peek {t : Tier} {key : String} {e : Entry} {now : Instant} (he : t.peek key now = some e) :
    t.held? key = some e ∧ e.isExpiredAt now = false := by
  obtain ⟨hheld, hlive⟩ := Option.filter_eq_some_iff.mp he
  exact ⟨hheld, by simpa using hlive⟩

/-- A lookup finds what a glance shows. -/
theorem Laid.get_snd {t : Tier} (h : t.Laid) (key : String) (now : Instant) : (t.get key now).2 = t.peek key now := by
  cases hpeek : t.peek key now with
  | some e =>
    obtain ⟨hheld, hlive⟩ := of_peek hpeek
    exact h.get_of_held hheld hlive
  | none =>
    rw [Option.eq_none_iff_forall_ne_some]
    intro e he
    obtain ⟨hheld, hlive⟩ := h.of_get he
    cases hpeek.symm.trans (peek_of_held hheld hlive)

/-! ## What is held after an operation -/

/-- What is held under a key is what the list of the tier has under it. -/
theorem Laid.held?_iff {t : Tier} (h : t.Laid) {key : String} {e : Entry} :
    t.held? key = some e ↔ (key, e) ∈ t.view.entries := by
  rw [h.held?_eq]
  constructor
  · rintro ⟨x, hx, rfl, rfl⟩
    exact List.mem_map_of_mem (mem_recency.mpr hx)
  · intro hp
    obtain ⟨x, hx, he⟩ := List.mem_map.mp hp
    exact ⟨x, mem_recency.mp hx, congrArg Prod.fst he, congrArg Prod.snd he⟩

/-- Only a put gives a key something that it has not had. -/
theorem Sound.of_held?_apply {t : Tier} (h : t.Sound) (hf : t.Fits) (op : Op) {key : String} {e : Entry}
    (he : (t.apply op).1.held? key = some e) :
    t.held? key = some e ∨ ∃ now, op = .put key e.value e.expireAt now := by
  rw [(apply_sound h hf op).1.toLaid.held?_iff] at he
  rw [h.toLaid.held?_iff]
  exact Lru.mem_apply (l := t.view) (by rw [apply_view h]; exact he)

theorem Sound.of_held?_put {t : Tier} (h : t.Sound) (hf : t.Fits) {key k : String} {v : ByteArray}
    {expireAt : Option Instant} {now : Instant} {e : Entry}
    (he : (t.put k v expireAt now).1.held? key = some e) :
    key = k ∧ e = ⟨v, expireAt⟩ ∨ key ≠ k ∧ t.held? key = some e := by
  rw [(h.put hf k v expireAt now).1.toLaid.held?_iff, put_view h] at he
  rw [h.toLaid.held?_iff]
  rcases Lru.mem_put he with hp | ⟨hm, hk⟩
  · exact .inl ⟨congrArg Prod.fst hp, congrArg Prod.snd hp⟩
  · exact .inr ⟨hk, hm⟩

theorem Sound.of_held?_remove {t : Tier} (h : t.Sound) (hf : t.Fits) {key k : String} {e : Entry}
    (he : (t.remove k).1.held? key = some e) : key ≠ k ∧ t.held? key = some e := by
  rw [(h.remove hf k).1.toLaid.held?_iff, remove_view h] at he
  rw [h.toLaid.held?_iff]
  obtain ⟨hm, hk⟩ := Lru.mem_remove he
  exact ⟨hk, hm⟩

/-- A removal leaves what is under another key. -/
theorem Sound.held?_remove_of_ne {t : Tier} (h : t.Sound) (hf : t.Fits) {key k : String} (hk : key ≠ k)
    {e : Entry} (he : t.held? key = some e) : (t.remove k).1.held? key = some e := by
  rw [h.toLaid.held?_iff] at he
  rw [(h.remove hf k).1.toLaid.held?_iff, remove_view h, Lru.remove_entries]
  exact List.mem_filter.mpr ⟨he, bne_iff_ne.mpr hk⟩

/-- A lookup leaves what has not expired. -/
theorem Sound.held?_get_of_live {t : Tier} (h : t.Sound) (hf : t.Fits) {key : String} {e : Entry}
    {now : Instant} (he : t.held? key = some e) (hlive : e.isExpiredAt now = false) (k : String) :
    (t.get k now).1.held? key = some e := by
  rw [← find?_view h.toLaid] at he
  rw [← find?_view (h.get hf k now).1.toLaid,
    show (t.get k now).1.view = (t.view.get k now).1 by rw [view_get h]]
  exact Lru.find?_get_of_live he hlive k

end Tier

end PeerCache
