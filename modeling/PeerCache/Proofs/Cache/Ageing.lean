import Mathlib
import PeerCache.Proofs.Cache.Budget
import PeerCache.Proofs.Cache.OneKey

/-!
# What becomes of entries that are left alone

While a tier is busy with other keys (`Tier.Elsewhere`) its entries move towards the least recent end,
and go from there one after the other:

    l.entries = kept ++ young    kept <:+ old, and the keys of young are none of old      (Lru.Ages old l)

So they go in the order in which they stand (`Tier.Sound.held?_newer`).  An entry at the recent end is the
last one to go (`Tier.MostRecent`), and this is where a lookup brings what it finds
(`Tier.Sound.mostRecent_get`).
-/

namespace PeerCache

namespace Tier

/-- The operations touch no key that the tier holds; what they put may make entries go. -/
def Elsewhere (t : Tier) (ops : List Op) : Prop := ∀ op ∈ ops, ∀ key ∈ touched? op, t.held? key = none

end Tier

namespace Lru

open Tier (Op touched?)

variable {old older newer : List (String × Entry)} {l l' : Lru} {key : String} {p : String × Entry}

/-! ## Ageing -/

/-- Of some old entries a recent end is left, before entries of other keys. -/
def Ages (old : List (String × Entry)) (l : Lru) : Prop :=
  ∃ kept young, l.entries = kept ++ young ∧ kept <:+ old ∧ ∀ p ∈ young, p.1 ∉ old.map Prod.fst

theorem ages_self (l : Lru) : Ages l.entries l :=
  ⟨l.entries, [], (List.append_nil _).symm, List.suffix_refl _, nofun⟩

/-- The least recent entries go, and perhaps young ones too when no old one is left. -/
theorem Ages.suffix (h : Ages old l) (hs : l'.entries <:+ l.entries) : Ages old l' := by
  obtain ⟨kept, young, hsplit, hkept, hyoung⟩ := h
  obtain ⟨gone, hgone⟩ := hs
  rcases List.append_eq_append_iff.mp (hgone.trans hsplit) with ⟨left, rfl, hleft⟩ | ⟨also, -, rfl⟩
  · exact ⟨left, young, hleft, (List.suffix_append gone left).trans hkept, hyoung⟩
  · refine ⟨[], l'.entries, rfl, List.nil_suffix, fun p hp => hyoung p ?_⟩
    exact List.mem_append_right also hp

theorem Ages.forget (h : Ages old l) (hkey : key ∉ old.map Prod.fst) : Ages old (l.forget key) := by
  obtain ⟨kept, young, hsplit, hkept, hyoung⟩ := h
  have hsame : kept.filter (·.1 != key) = kept := by
    refine List.filter_eq_self.mpr fun p hp => bne_iff_ne.mpr ?_
    rintro rfl
    exact hkey (List.mem_map_of_mem (hkept.subset hp))
  refine ⟨kept, young.filter (·.1 != key), ?_, hkept, fun p hp => hyoung p (List.mem_filter.mp hp).1⟩
  show l.entries.filter (·.1 != key) = _
  rw [hsplit, List.filter_append, hsame]

theorem Ages.use (h : Ages old l) (hkey : key ∉ old.map Prod.fst) (e : Entry) : Ages old (l.use key e) := by
  obtain ⟨kept, young, hsplit, hkept, hyoung⟩ := h.forget hkey
  refine ⟨kept, young ++ [(key, e)], ?_, hkept, ?_⟩
  · show (l.forget key).entries ++ [(key, e)] = _
    rw [hsplit, List.append_assoc]
  · intro p hp
    rcases List.mem_append.mp hp with hp | hp
    · exact hyoung p hp
    · rw [List.mem_singleton.mp hp]
      exact hkey

/-- An operation on another key. -/
theorem Ages.apply (h : Ages old l) {op : Op} (hop : ∀ key ∈ touched? op, key ∉ old.map Prod.fst) :
    Ages old (l.apply op).1 := by
  rcases l.apply_cases op with ⟨-, hgone⟩ | ⟨key, htouched, -, hforget⟩ | ⟨key, e, htouched, -, huse, -⟩
  · exact h.suffix hgone
  · exact (h.forget (hop key htouched)).suffix (hforget ▸ List.suffix_refl _)
  · exact (h.use (hop key htouched) e).suffix huse

theorem Ages.run (h : Ages old l) {ops : List Op}
    (hops : ∀ op ∈ ops, ∀ key ∈ touched? op, key ∉ old.map Prod.fst) : Ages old (l.run ops).1 := by
  induction ops generalizing l with
  | nil => exact h
  | cons op ops ih =>
    obtain ⟨hop, hrest⟩ := List.forall_mem_cons.mp hops
    exact ih (h.apply hop) hrest

/-- Entries go in the order in which they stand: if one is left, so are all that have been used since. -/
theorem Ages.mem_newer (h : Ages (older ++ p :: newer) l) (hnodup : ((older ++ p :: newer).map Prod.fst).Nodup)
    (hp : p ∈ l.entries) {q : String × Entry} (hq : q ∈ newer) : q ∈ l.entries := by
  obtain ⟨kept, young, hsplit, hkept, hyoung⟩ := h
  have hmem : p ∈ older ++ p :: newer := List.mem_append_right older List.mem_cons_self
  have hpkept : p ∈ kept := by
    rw [hsplit] at hp
    exact (List.mem_append.mp hp).resolve_right fun hyoung' =>
      hyoung p hyoung' (List.mem_map_of_mem hmem)
  have hnewer : newer <:+ older ++ p :: newer := (List.suffix_cons p newer).trans (List.suffix_append older _)
  have hsub : newer <:+ kept := by
    refine (List.suffix_or_suffix_of_suffix hkept hnewer).resolve_left fun hshort => ?_
    -- otherwise the entry stands twice
    rw [List.map_append, List.nodup_append, List.map_cons, List.nodup_cons] at hnodup
    exact hnodup.2.1.1 (List.mem_map_of_mem (hshort.subset hpkept))
  rw [hsplit]
  exact List.mem_append_left young (hsub.subset hq)

end Lru

namespace Tier

variable {t : Tier} {key : String} {e : Entry} {ops : List Op} {older newer : List (String × Entry)}

/-! ## Of a tier -/

theorem Sound.nodup_view (h : t.Sound) : (t.view.entries.map Prod.fst).Nodup := by
  have hkeys : t.view.entries.map Prod.fst = t.recency.map Slot.key := by
    show (t.recency.map pair).map Prod.fst = _
    rw [List.map_map]
    rfl
  rw [hkeys]
  exact ((recency_perm t).map Slot.key).nodup_iff.mpr h.toOrdered.keys_nodup

theorem Sound.ages_run (h : t.Sound) (hf : t.Fits) (hops : t.Elsewhere ops) :
    Lru.Ages t.view.entries (t.run ops).1.view := by
  have hkeys : ∀ op ∈ ops, ∀ key ∈ touched? op, key ∉ t.view.entries.map Prod.fst := by
    intro op hop key hkey hmem
    obtain ⟨p, hp, rfl⟩ := List.mem_map.mp hmem
    cases (hops op hop p.1 hkey).symm.trans (h.toLaid.held?_iff.mpr hp)
  have hrun := (Lru.ages_self t.view).run hkeys
  rw [run_view h hf] at hrun
  exact hrun

/-- While a tier is busy with other keys, an entry does not go before those that were used before it. -/
theorem Sound.held?_newer (h : t.Sound) (hf : t.Fits) (hsplit : t.view.entries = older ++ (key, e) :: newer)
    (hops : t.Elsewhere ops) (hheld : (t.run ops).1.held? key = some e) :
    ∀ p ∈ newer, (t.run ops).1.held? p.1 = some p.2 := by
  have hages := h.ages_run hf hops
  have hnodup := h.nodup_view
  have hlaid := (run_sound h hf ops).1.toLaid
  rw [hsplit] at hages hnodup
  rw [hlaid.held?_iff] at hheld
  intro p hp
  rw [hlaid.held?_iff]
  exact hages.mem_newer hnodup hheld hp

/-- The entry under a key is the most recently used one, and the last one to go while the tier is busy
with other keys. -/
structure MostRecent (t : Tier) (key : String) (e : Entry) : Prop where
  recent : ∃ older, t.view.entries = older ++ [(key, e)]
  outlasts : ∀ ops, t.Elsewhere ops → ∀ k x, t.held? k = some x → (t.run ops).1.held? k = some x →
    (t.run ops).1.held? key = some e

theorem Sound.mostRecent (h : t.Sound) (hf : t.Fits) (hlast : t.view.entries = older ++ [(key, e)]) :
    t.MostRecent key e := by
  refine ⟨⟨older, hlast⟩, fun ops hops k x hheld hleft => ?_⟩
  rw [h.toLaid.held?_iff, hlast, List.mem_append, List.mem_singleton] at hheld
  rcases hheld with hx | hx
  · obtain ⟨before, after, rfl⟩ := List.append_of_mem hx
    rw [List.append_assoc, List.cons_append] at hlast
    exact h.held?_newer hf hlast hops hleft (key, e) (List.mem_append_right after List.mem_cons_self)
  · cases hx
    exact hleft

/-- A lookup brings what it finds to the recent end. -/
theorem Sound.mostRecent_get (h : t.Sound) (hf : t.Fits) {now : Instant} (hget : (t.get key now).2 = some e) :
    (t.get key now).1.MostRecent key e := by
  obtain ⟨hs, hfits⟩ := h.get hf key now
  have hview := view_get h key now
  obtain ⟨hheld, hlive⟩ := h.toLaid.of_get hget
  rw [← find?_view h.toLaid] at hheld
  have huse : (t.view.get key now).1.entries = (t.view.forget key).entries ++ [(key, e)] := by
    unfold Lru.get
    simp only [hheld, hlive, Bool.false_eq_true, ↓reduceIte]
    rfl
  rw [hview] at huse
  exact hs.mostRecent hfits huse

end Tier

end PeerCache
