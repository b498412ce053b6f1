import Mathlib
import PeerCache.Coordinator

/-!
# Flights

What joining and dropping do to the flights of a coordinator, apart from its counters.  A site is
where a load runs: its number, its group and its key.

    join    the load of the key's site, or a new site under the next number     (join_cases)
    drop    this one site goes, no other                                        (mem_sites_drop)

A coordinator is tidy (`Coordinator.Tidy`) if no key has two flights and every number is below the
next one; joining and dropping keep it so.
-/

namespace PeerCache

namespace Coordinator

/-- Number, group and key of every flight. -/
def sites (c : Coordinator) : List (Nat × String × String) :=
  c.flights.map fun f => (f.load, f.group, f.key)

theorem isFor_iff {f : Flight} {group key : String} :
    f.isFor group key = true ↔ f.group = group ∧ f.key = key := by
  simp [Flight.isFor]

theorem mem_sites {c : Coordinator} {n : Nat} {group key : String} :
    (n, group, key) ∈ c.sites ↔ ∃ f ∈ c.flights, f.load = n ∧ f.isFor group key = true := by
  simp only [sites, List.mem_map, Prod.mk.injEq, isFor_iff]

/-- Counting callers moves no flight. -/
theorem sites_countWaiter (fs : List Flight) (group key : String) :
    (fs.map (countWaiter group key)).map (fun f => (f.load, f.group, f.key))
      = fs.map fun f => (f.load, f.group, f.key) := by
  rw [List.map_map]
  apply List.map_congr_left
  intro f _
  show ((countWaiter group key f).load, (countWaiter group key f).group, (countWaiter group key f).key) = _
  unfold countWaiter
  split <;> rfl

/-- **Everything that joining can do**: the ticket names a load that has a site for the key and
nothing moves, or there is none, and the ticket starts a load under the next number. -/
theorem join_cases (c : Coordinator) (group key : String) :
    (∃ n, (n, group, key) ∈ c.sites ∧ (c.join group key).2 = ⟨n, false⟩ ∧
      (c.join group key).1.sites = c.sites ∧ (c.join group key).1.nextLoad = c.nextLoad) ∨
    ((∀ n, (n, group, key) ∉ c.sites) ∧ (c.join group key).2 = ⟨c.nextLoad, true⟩ ∧
      (c.join group key).1.sites = (c.nextLoad, group, key) :: c.sites ∧
      (c.join group key).1.nextLoad = c.nextLoad + 1) := by
  unfold join
  cases hf : c.flight? group key with
  | some f =>
    left
    have hm : f ∈ c.flights := List.mem_of_find?_eq_some hf
    have hfor : f.isFor group key = true := List.find?_some (p := fun f : Flight => f.isFor group key) hf
    exact ⟨f.load, mem_sites.mpr ⟨f, hm, rfl, hfor⟩, rfl, sites_countWaiter .., rfl⟩
  | none =>
    right
    refine ⟨?_, rfl, rfl, rfl⟩
    intro n hn
    obtain ⟨f, hm, -, hfor⟩ := mem_sites.mp hn
    exact List.find?_eq_none.mp hf f hm hfor

@[simp] theorem drop_nextLoad (c : Coordinator) (group key : String) (n : Nat) :
    (c.drop group key n).nextLoad = c.nextLoad := rfl

theorem drop_sites (c : Coordinator) (group key : String) (n : Nat) :
    (c.drop group key n).sites = c.sites.filter (· != (n, group, key)) := by
  unfold sites drop
  rw [List.filter_map]
  congr 1
  apply List.filter_congr
  intro f _
  rw [Bool.eq_iff_iff]
  simp [Flight.isFor]
  tauto

theorem mem_sites_drop {c : Coordinator} {group key : String} {n : Nat}
    {x : Nat × String × String} :
    x ∈ (c.drop group key n).sites ↔ x ∈ c.sites ∧ x ≠ (n, group, key) := by
  rw [drop_sites, List.mem_filter, bne_iff_ne]

/-- No key has two flights, and numbers are given out in order. -/
structure Tidy (c : Coordinator) : Prop where
  keys : (c.sites.map (·.2)).Nodup
  lt_next : ∀ x ∈ c.sites, x.1 < c.nextLoad

theorem tidy_empty : Tidy {} := ⟨List.nodup_nil, by simp [sites]⟩

theorem Tidy.join {c : Coordinator} (h : c.Tidy) (group key : String) :
    (c.join group key).1.Tidy := by
  rcases join_cases c group key with ⟨n, -, -, hs, hn⟩ | ⟨hnone, -, hs, hn⟩
  · exact ⟨by rw [hs]; exact h.keys, by rw [hs, hn]; exact h.lt_next⟩
  · constructor
    · rw [hs, List.map_cons, List.nodup_cons]
      refine ⟨?_, h.keys⟩
      intro hm
      obtain ⟨⟨n, g, k⟩, hx, he⟩ := List.mem_map.mp hm
      cases he
      exact hnone n hx
    · rw [hs, hn]
      intro x hx
      rcases List.mem_cons.mp hx with rfl | hx
      · exact Nat.lt_succ_self _
      · exact Nat.lt_succ_of_lt (h.lt_next x hx)

theorem Tidy.drop {c : Coordinator} (h : c.Tidy) (group key : String) (n : Nat) :
    (c.drop group key n).Tidy := by
  constructor
  · rw [drop_sites]
    exact h.keys.sublist (List.filter_sublist.map _)
  · intro x hx
    exact h.lt_next x (mem_sites_drop.mp hx).1

/-- A key's flight has one number. -/
theorem Tidy.number_unique {c : Coordinator} (h : c.Tidy) {m n : Nat} {group key : String}
    (hm : (m, group, key) ∈ c.sites) (hn : (n, group, key) ∈ c.sites) : m = n := by
  have he := List.inj_on_of_nodup_map h.keys hm hn rfl
  exact congrArg Prod.fst he

end Coordinator

end PeerCache
