import Mathlib
import PeerCache.Proofs.Coordinator.SingleFlight

/-!
# The books of a coordinator

A flight is the record of a load under way, and beside the flights a coordinator keeps three numbers.
Calls and loads are never forgotten (`Calls`), so the books can be checked against all that has ever
happened:

    flights         the loads that have not finished, each under its own number      (Inv.sites_perm)
    loads           all loads that were ever started                                 (Counted)
    coalesced       the calls that started none                                      (Counted)

A load that drops its flight finds it there, and takes no other (`Inv.dropFlight_erase`).

Main statement: `flights_exact`.
-/

namespace PeerCache

namespace Coordinator

theorem inFlight_eq (c : Coordinator) : c.inFlight = c.sites.length := by
  simp [inFlight, sites]

/-- Joining counts one: a load if it starts one, otherwise a caller who has joined. -/
theorem join_counts (c : Coordinator) (group key : String) :
    (c.join group key).1.loads = c.loads + (if (c.join group key).2.starts then 1 else 0) ∧
      (c.join group key).1.coalesced = c.coalesced + (if (c.join group key).2.starts then 0 else 1) := by
  unfold join
  cases c.flight? group key with
  | some f => simp
  | none => simp

theorem Tidy.nodup_keys {c : Coordinator} (h : c.Tidy) :
    (c.flights.map fun f => (f.group, f.key)).Nodup := by
  have hkeys := h.keys
  unfold sites at hkeys
  rw [List.map_map] at hkeys
  exact hkeys

/-- The flight of a key is the only one for it. -/
theorem Tidy.eq_of_isFor {c : Coordinator} (h : c.Tidy) {f g : Flight} {group key : String}
    (hf : f ∈ c.flights) (hg : g ∈ c.flights) (hff : f.isFor group key = true)
    (hgf : g.isFor group key = true) : g = f := by
  apply List.inj_on_of_nodup_map h.nodup_keys hg hf
  obtain ⟨hfg, hfk⟩ := isFor_iff.mp hff
  obtain ⟨hgg, hgk⟩ := isFor_iff.mp hgf
  simp [hgg, hgk, hfg, hfk]

theorem flight?_eq_some {c : Coordinator} {f : Flight} {group key : String}
    (h : c.flight? group key = some f) : f ∈ c.flights ∧ f.isFor group key = true := by
  unfold flight? at h
  exact ⟨List.mem_of_find?_eq_some h, List.find?_some (p := fun f : Flight => f.isFor group key) h⟩

theorem Tidy.flight?_iff {c : Coordinator} (h : c.Tidy) {n : Nat} {group key : String} :
    (∃ f, c.flight? group key = some f ∧ f.load = n) ↔ (n, group, key) ∈ c.sites := by
  rw [mem_sites]
  constructor
  · rintro ⟨f, hf, hload⟩
    obtain ⟨hmem, hfor⟩ := flight?_eq_some hf
    exact ⟨f, hmem, hload, hfor⟩
  · rintro ⟨f, hmem, hload, hfor⟩
    cases hfound : c.flight? group key with
    | none => exact absurd hfor (List.find?_eq_none.mp hfound f hmem)
    | some g =>
      obtain ⟨hg, hgfor⟩ := flight?_eq_some hfound
      rw [h.eq_of_isFor hmem hg hfor hgfor]
      exact ⟨f, rfl, hload⟩

/-- Dropping takes out the flight of the key, if that has the number. -/
theorem Tidy.drop_erase {c : Coordinator} (h : c.Tidy) {f : Flight} {group key : String}
    (hf : c.flight? group key = some f) :
    (c.drop group key f.load).flights = c.flights.erase f := by
  obtain ⟨hmem, hfor⟩ := flight?_eq_some hf
  rw [(List.Nodup.of_map _ h.nodup_keys).erase_eq_filter]
  show c.flights.filter _ = _
  apply List.filter_congr
  intro g hg
  by_cases hgf : g = f
  · subst hgf
    simp [hfor]
  · have hother : g.isFor group key = false := by
      by_contra hgfor
      exact hgf (h.eq_of_isFor hmem hg hfor (by simpa using hgfor))
    simp [hother, hgf]

/-- After that the key has no flight. -/
theorem Tidy.flight?_drop {c : Coordinator} (h : c.Tidy) {n : Nat} {group key : String}
    (hn : (n, group, key) ∈ c.sites) : (c.drop group key n).flight? group key = none := by
  rw [Option.eq_none_iff_forall_ne_some]
  intro f hf
  obtain ⟨hbefore, hne⟩ := mem_sites_drop.mp ((h.drop group key n).flight?_iff.mp ⟨f, hf, rfl⟩)
  exact hne (by rw [h.number_unique hbefore hn])

end Coordinator

/-- Number, group and key of a load. -/
def StartedLoad.site (l : StartedLoad) : Nat × String × String := (l.number, l.group, l.key)

namespace Calls

def Event.isCall : Event → Bool
  | call .. => true
  | _ => false

variable {s : Calls}

/-! ## The numbers -/

/-- The counters tell how many loads were started, and how many calls were made. -/
structure Counted (s : Calls) : Prop where
  loads : s.coordinator.loads = s.loads.length
  calls : s.coordinator.loads + s.coordinator.coalesced = s.calls.length

theorem call_loads (s : Calls) (caller group key : String) :
    (s.call caller group key).1.loads.length =
      s.loads.length + (if (s.call caller group key).2 then 1 else 0) := by
  unfold call
  simp only
  split <;> simp

/-- A call counts in exactly one of the two counters: by whether it has started its own load. -/
theorem call_counts (s : Calls) (caller group key : String) :
    (s.call caller group key).1.coordinator.loads =
        s.coordinator.loads + (if (s.call caller group key).2 then 1 else 0) ∧
      (s.call caller group key).1.coordinator.coalesced =
        s.coordinator.coalesced + (if (s.call caller group key).2 then 0 else 1) :=
  s.coordinator.join_counts group key

theorem dropFlight_counts (s : Calls) (n : Nat) :
    (s.dropFlight n).coordinator.loads = s.coordinator.loads ∧
      (s.dropFlight n).coordinator.coalesced = s.coordinator.coalesced ∧
      (s.dropFlight n).loads.length = s.loads.length ∧ (s.dropFlight n).calls = s.calls := by
  rcases dropFlight_cases s n with hd | ⟨l, e, -, -, hd⟩
  · rw [hd]
    exact ⟨rfl, rfl, rfl, rfl⟩
  · rw [hd]
    exact ⟨rfl, rfl, List.length_modify .., rfl⟩

theorem Counted.step (h : s.Counted) (e : Event) : (s.step e).Counted := by
  obtain ⟨hloads, hcalls⟩ := h
  cases e with
  | call caller group key =>
    obtain ⟨hl, hc⟩ := s.call_counts caller group key
    have hlength := s.call_loads caller group key
    have hmade : (s.call caller group key).1.calls.length = s.calls.length + 1 := by
      simp [Calls.call]
    constructor
    · show (s.call caller group key).1.coordinator.loads = (s.call caller group key).1.loads.length
      omega
    · show (s.call caller group key).1.coordinator.loads +
        (s.call caller group key).1.coordinator.coalesced = (s.call caller group key).1.calls.length
      rw [hl, hc, hmade]
      split <;> omega
  | endWork n e => exact ⟨by simpa [Calls.step, Calls.endWork] using hloads, hcalls⟩
  | dropFlight n =>
    obtain ⟨hl, hc, hlength, hmade⟩ := s.dropFlight_counts n
    constructor
    · show (s.dropFlight n).coordinator.loads = (s.dropFlight n).loads.length
      omega
    · show (s.dropFlight n).coordinator.loads + (s.dropFlight n).coordinator.coalesced =
        (s.dropFlight n).calls.length
      rw [hl, hc, hmade]
      exact hcalls
  | receive i => exact ⟨hloads, by simpa [Calls.step, Calls.receive] using hcalls⟩
  | giveUp i => exact ⟨hloads, by simpa [Calls.step, Calls.giveUp] using hcalls⟩

theorem counted_run (es : List Event) : (run {} es).Counted := by
  have hrun (s : Calls) (hs : s.Counted) : (s.run es).Counted := by
    induction es generalizing s with
    | nil => exact hs
    | cons e es ih => exact ih _ (hs.step e)
  exact hrun {} ⟨rfl, rfl⟩

/-- The calls on record are the calls that were made. -/
theorem length_calls (s : Calls) (es : List Event) :
    (s.run es).calls.length = s.calls.length + es.countP (·.isCall) := by
  induction es generalizing s with
  | nil => simp [run]
  | cons e es ih =>
    have hstep : (s.step e).calls.length = s.calls.length + (if e.isCall then 1 else 0) := by
      cases e with
      | call caller group key => simp [Calls.step, Calls.call, Event.isCall]
      | endWork n e => rfl
      | dropFlight n =>
        show (s.dropFlight n).calls.length = _
        rw [(s.dropFlight_counts n).2.2.2]
        rfl
      | receive i => simp [Calls.step, Calls.receive, Event.isCall]
      | giveUp i => simp [Calls.step, Calls.giveUp, Event.isCall]
    show ((s.step e).run es).calls.length = _
    rw [ih, hstep, List.countP_cons]
    omega

/-! ## The flights -/

/-- Loads have the numbers from zero on, in the order in which they were started. -/
theorem Inv.numbers (h : s.Inv) : s.loads.map (·.number) = List.range s.loads.length := by
  apply List.ext_getElem
  · simp
  · intro n hn hn'
    have hlt : n < s.loads.length := by simpa using hn
    rw [List.getElem_map, List.getElem_range]
    exact h.number n _ (List.getElem?_eq_getElem hlt)

theorem Inv.nodup_numbers (h : s.Inv) : (s.loads.map (·.number)).Nodup := by
  rw [h.numbers]
  exact List.nodup_range

/-- **The flights are those of the loads that have not finished**, under their numbers. -/
theorem Inv.sites_perm (h : s.Inv) :
    s.coordinator.sites.Perm ((s.loads.filter fun l => !l.isFinished).map (·.site)) := by
  have hsites : s.coordinator.sites.Nodup := List.Nodup.of_map _ h.tidy.keys
  have hloads : ((s.loads.filter fun l => !l.isFinished).map (·.site)).Nodup := by
    have hnumbers : ((s.loads.filter fun l => !l.isFinished).map (·.number)).Nodup :=
      h.nodup_numbers.sublist (List.filter_sublist.map _)
    apply List.Nodup.of_map (·.1)
    rw [List.map_map]
    exact hnumbers
  rw [List.perm_ext_iff_of_nodup hsites hloads]
  rintro ⟨n, group, key⟩
  rw [h.sites n group key, List.mem_map]
  constructor
  · rintro ⟨l, hl, rfl, rfl, hu⟩
    refine ⟨l, List.mem_filter.mpr ⟨List.mem_of_getElem? hl, ?_⟩, ?_⟩
    · simpa [StartedLoad.Unfinished] using hu
    · rw [StartedLoad.site, h.number n l hl]
  · rintro ⟨l, hl, he⟩
    obtain ⟨hmem, hu⟩ := List.mem_filter.mp hl
    obtain ⟨m, hm⟩ := List.mem_iff_getElem?.mp hmem
    have hnumber := h.number m l hm
    simp only [StartedLoad.site, Prod.mk.injEq] at he
    obtain ⟨rfl, rfl, rfl⟩ := he
    subst hnumber
    exact ⟨l, hm, rfl, rfl, by simpa [StartedLoad.Unfinished] using hu⟩

/-- As many flights as loads have been started and not finished. -/
theorem Inv.inFlight_add (h : s.Inv) :
    s.coordinator.inFlight + s.loads.countP (·.isFinished) = s.loads.length := by
  have hlength := h.sites_perm.length_eq
  have hsplit := List.length_eq_length_filter_add (l := s.loads) fun l => l.isFinished
  rw [List.length_map] at hlength
  rw [Coordinator.inFlight_eq, List.countP_eq_length_filter]
  omega

/-- A key has a flight exactly while a load of it has not finished, and this is that load's. -/
theorem Inv.flight?_iff (h : s.Inv) {group key : String} {n : Nat} :
    (∃ f, s.coordinator.flight? group key = some f ∧ f.load = n) ↔
      ∃ l ∈ s.loads, l.number = n ∧ l.group = group ∧ l.key = key ∧ l.Unfinished := by
  rw [h.tidy.flight?_iff, h.sites n group key]
  constructor
  · rintro ⟨l, hl, hg, hk, hu⟩
    exact ⟨l, List.mem_of_getElem? hl, h.number n l hl, hg, hk, hu⟩
  · rintro ⟨l, hl, rfl, hg, hk, hu⟩
    obtain ⟨m, hm⟩ := List.mem_iff_getElem?.mp hl
    exact ⟨l, by rw [h.number m l hm]; exact hm, hg, hk, hu⟩

/-- **A load drops its own flight**: it is there, it is the only one that goes, and then its key has none. -/
theorem Inv.dropFlight_erase (h : s.Inv) {n : Nat} {l : StartedLoad} {e : Ending}
    (hl : s.loads[n]? = some l) (he : l.stage = .ended e) :
    (∃ f, s.coordinator.flight? l.group l.key = some f ∧ f.load = l.number ∧
      (s.dropFlight n).coordinator.flights = s.coordinator.flights.erase f) ∧
    (s.dropFlight n).coordinator.flight? l.group l.key = none := by
  have hu : l.Unfinished := by
    unfold StartedLoad.Unfinished StartedLoad.isFinished
    rw [he]
  have hsite := (h.sites n l.group l.key).mpr ⟨l, hl, rfl, rfl, hu⟩
  obtain ⟨f, hf, rfl⟩ := h.tidy.flight?_iff.mpr hsite
  have hdrop : (s.dropFlight f.load).coordinator = s.coordinator.drop l.group l.key f.load := by
    unfold Calls.dropFlight
    rw [hl]
    simp only [he]
  rw [hdrop]
  exact ⟨⟨f, hf, (h.number _ l hl).symm, h.tidy.drop_erase hf⟩, h.tidy.flight?_drop hsite⟩

/-- **Flights never leak, and the numbers are exact**, after every sequence of calls, ends of loads
and callers giving up.  A key has a flight exactly while a load of it has been started and has not
finished, with the number of this load, and no two loads have one number; so a load that drops its
flight takes its own and no other, and leaves none of its key.  As many loads are in flight as have been started and not
finished; loads started and calls joined are all calls that were made, and each call counts in one of
the two.  When all loads have finished, no flight is left, whoever has given up. -/
theorem flights_exact (es : List Event) :
    let s := run {} es
    (∀ group key n, (∃ f, s.coordinator.flight? group key = some f ∧ f.load = n) ↔
      ∃ l ∈ s.loads, l.number = n ∧ l.group = group ∧ l.key = key ∧ l.Unfinished) ∧
    (s.loads.map (·.number)).Nodup ∧
    (∀ (n : Nat) (l : StartedLoad) (e : Ending), s.loads[n]? = some l → l.stage = .ended e →
      (∃ f, s.coordinator.flight? l.group l.key = some f ∧ f.load = l.number ∧
        (s.dropFlight n).coordinator.flights = s.coordinator.flights.erase f) ∧
      (s.dropFlight n).coordinator.flight? l.group l.key = none) ∧
    s.coordinator.inFlight = s.coordinator.stats.inFlight ∧
    s.coordinator.stats.loads = s.loads.length ∧
    s.coordinator.inFlight + s.loads.countP (·.isFinished) = s.loads.length ∧
    s.coordinator.stats.loads + s.coordinator.stats.coalesced = es.countP (·.isCall) ∧
    (∀ caller group key,
      let (t, starts) := s.call caller group key
      t.coordinator.stats.loads = s.coordinator.stats.loads + (if starts then 1 else 0) ∧
        t.coordinator.stats.coalesced = s.coordinator.stats.coalesced + (if starts then 0 else 1)) ∧
    ((∀ l ∈ s.loads, ¬ l.Unfinished) → s.coordinator.flights = []) := by
  intro s
  have h : s.Inv := run_inv inv_empty es
  have hcounted : s.Counted := counted_run es
  have hmade : s.calls.length = es.countP (·.isCall) := by
    have hlength := length_calls {} es
    simpa using hlength
  refine ⟨fun group key n => h.flight?_iff, h.nodup_numbers, fun n l e hl he => h.dropFlight_erase hl he,
    rfl, hcounted.loads, h.inFlight_add, hcounted.calls.trans hmade, s.call_counts, ?_⟩
  intro hall
  have hnone : (s.loads.filter fun l => !l.isFinished) = [] := by
    rw [List.filter_eq_nil_iff]
    intro l hl
    simpa [StartedLoad.Unfinished] using hall l hl
  have hlength := h.sites_perm.length_eq
  rw [hnone, ← Coordinator.inFlight_eq] at hlength
  exact List.length_eq_zero_iff.mp hlength

end Calls

end PeerCache
