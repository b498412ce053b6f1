import Mathlib
import PeerCache.Proofs.Coordinator.Records

/-!
# What a flight knows of its callers

A flight counts a caller when it starts or joins the load, and never takes one off again.  So the number
that it shows is that of all calls which have its load (`Calls.Asked`): those that still wait, and those
that have given up (`Inv.askers_unfinished`).  It is the number of those that wait only as long as nobody
has gone (`waiters_count_gone`).

Main statement: `waiters_count_askers`.
-/

namespace PeerCache

def Call.isAbandoned (c : Call) : Bool :=
  match c.fate with
  | .abandoned => true
  | _ => false

/-- The flight that a caller joins counts one more, or there is a new one. -/
theorem Coordinator.join_flights (c : Coordinator) (group key : String) :
    (∃ f, c.flight? group key = some f ∧ (c.join group key).2.load = f.load ∧
      (c.join group key).1.flights = c.flights.map (countWaiter group key)) ∨
    ((c.join group key).2.load = c.nextLoad ∧
      (c.join group key).1.flights = ⟨c.nextLoad, group, key, 1⟩ :: c.flights) := by
  unfold join
  cases c.flight? group key with
  | some f => exact .inl ⟨f, rfl, rfl, rfl⟩
  | none => exact .inr ⟨rfl, rfl⟩

namespace Calls

/-- The calls that have started or joined a load. -/
def askers (s : Calls) (load : Nat) : Nat := (s.calls.map (·.load)).count load

/-- Those of them that still wait for it. -/
def waitingFor (s : Calls) (load : Nat) : Nat := s.calls.countP fun c => c.load == load && c.isWaiting

/-- Those of them that have given up. -/
def goneFrom (s : Calls) (load : Nat) : Nat := s.calls.countP fun c => c.load == load && c.isAbandoned

/-- A flight has counted every call that has its load. -/
def Asked (s : Calls) : Prop := ∀ f ∈ s.coordinator.flights, f.waiters = s.askers f.load

variable {s : Calls}

/-! ## Calls of a load -/

theorem askers_concat {t : Calls} {c : Call} (ht : t.calls = s.calls ++ [c]) (n : Nat) :
    t.askers n = s.askers n + if c.load = n then 1 else 0 := by
  simp [askers, ht, List.count_singleton]

/-- No call has a load that is still to be started. -/
theorem Inv.askers_next (h : s.Inv) : s.askers s.loads.length = 0 := by
  rw [askers, List.count_eq_zero, List.mem_map]
  rintro ⟨c, hc, hload⟩
  obtain ⟨l, hl, -⟩ := h.named c hc
  rw [hload, List.getElem?_eq_none (Nat.le_refl _)] at hl
  cases hl

/-- A flight belongs to a load on record, which has its key. -/
theorem Inv.exists_load (h : s.Inv) {f : Flight} (hf : f ∈ s.coordinator.flights) :
    ∃ l, s.loads[f.load]? = some l ∧ l.group = f.group ∧ l.key = f.key ∧ l.Unfinished :=
  (h.sites f.load f.group f.key).mp
    (Coordinator.mem_sites.mpr ⟨f, hf, rfl, Coordinator.isFor_iff.mpr ⟨rfl, rfl⟩⟩)

/-- Flights of one load are for one key. -/
theorem Inv.isFor_of_load (h : s.Inv) {f g : Flight} {group key : String} (hf : f ∈ s.coordinator.flights)
    (hg : g ∈ s.coordinator.flights) (hload : f.load = g.load) (hfor : f.isFor group key = true) :
    g.isFor group key = true := by
  obtain ⟨l, hl, hlg, hlk, -⟩ := h.exists_load hf
  obtain ⟨k, hk, hkg, hkk, -⟩ := h.exists_load hg
  rw [hload] at hl
  obtain rfl := eq_of_getElem? hl hk
  rw [Coordinator.isFor_iff, ← hlg, ← hlk] at hfor
  rwa [Coordinator.isFor_iff, ← hkg, ← hkk]

/-- A call has received something only of a load that has finished; else it waits or has given up. -/
theorem Inv.askers_unfinished (h : s.Inv) {n : Nat} {l : StartedLoad} (hl : s.loads[n]? = some l)
    (hu : l.Unfinished) : s.askers n = s.waitingFor n + s.goneFrom n := by
  have hcount : s.askers n = s.calls.countP fun c => c.load == n := by
    rw [askers, List.count, List.countP_map]
    rfl
  rw [hcount]
  refine countP_eq_add fun c hc => ?_
  by_cases hload : c.load = n
  · subst hload
    obtain ⟨k, hk, -, -, ho⟩ := h.named c hc
    obtain rfl := eq_of_getElem? hl hk
    cases hfate : c.fate with
    | waiting => simp [Call.isWaiting, Call.isAbandoned, hfate]
    | abandoned => simp [Call.isWaiting, Call.isAbandoned, hfate]
    | received o =>
      have htold := ho o hfate
      unfold StartedLoad.Unfinished StartedLoad.isFinished at hu
      unfold StartedLoad.outcome? at htold
      cases hstage : k.stage with
      | running => rw [hstage] at htold; cases htold
      | ended e => rw [hstage] at htold; cases htold
      | finished e => rw [hstage] at hu; cases hu
  · rw [beq_false_of_ne hload]
    rfl

/-! ## Every step counts -/

/-- A call is counted by the one flight that it joins, or starts. -/
theorem Asked.call (ha : s.Asked) (h : s.Inv) (caller group key : String) :
    (s.call caller group key).1.Asked := by
  have hcalls : (s.call caller group key).1.calls =
      s.calls ++ [⟨caller, group, key, (s.coordinator.join group key).2.load, .waiting⟩] := rfl
  intro g hg
  replace hg : g ∈ (s.coordinator.join group key).1.flights := hg
  rw [askers_concat hcalls]
  rcases s.coordinator.join_flights group key with ⟨f, hfound, hload, hflights⟩ | ⟨hload, hflights⟩
  · obtain ⟨hf, hfor⟩ := Coordinator.flight?_eq_some hfound
    rw [hflights] at hg
    obtain ⟨g, hmem, rfl⟩ := List.mem_map.mp hg
    rw [hload]
    unfold Coordinator.countWaiter
    by_cases hgf : g.isFor group key
    · obtain rfl := h.tidy.eq_of_isFor hf hmem hfor hgf
      simp [hgf, ha g hmem]
    · have hne : f.load ≠ g.load := fun heq => hgf (h.isFor_of_load hf hmem heq hfor)
      simp [hgf, hne, ha g hmem]
  · rw [hflights, h.next] at hg
    rw [hload, h.next]
    rcases List.mem_cons.mp hg with rfl | hg
    · simp [h.askers_next]
    · obtain ⟨l, hl, -⟩ := h.exists_load hg
      have hlt := (List.getElem?_eq_some_iff.mp hl).1
      rw [if_neg (Nat.ne_of_gt hlt)]
      exact ha g hg

/-- Calls keep their loads, whatever becomes of them. -/
theorem Asked.modify (ha : s.Asked) (i : Nat) {f : Call → Call} (hf : ∀ c, ∃ fate, f c = { c with fate }) :
    Asked { s with calls := s.calls.modify i f } := by
  intro g hg
  unfold askers
  rw [map_modify_of_eq fun c _ => ?_]
  · exact ha g hg
  · obtain ⟨fate, he⟩ := hf c
    rw [he]

theorem Asked.step (ha : s.Asked) (h : s.Inv) (e : Event) : (s.step e).Asked := by
  cases e with
  | call caller group key => exact ha.call h caller group key
  | endWork n e => exact ha
  | dropFlight n =>
    show (s.dropFlight n).Asked
    rcases dropFlight_cases s n with hd | ⟨l, e, -, -, hd⟩
    · rw [hd]
      exact ha
    · rw [hd]
      exact fun f hf => ha f (List.mem_filter.mp hf).1
  | receive i =>
    exact ha.modify i fun c =>
      let ⟨fate, he, _⟩ := hear_eq (s.outcomeOf? c.load) c
      ⟨fate, he⟩
  | giveUp i =>
    exact ha.modify i fun c =>
      let ⟨fate, he, _⟩ := giveUp_eq c
      ⟨fate, he⟩

theorem asked_run (es : List Event) : (run {} es).Asked := by
  have hrun (s : Calls) (h : s.Inv) (ha : s.Asked) : (s.run es).Asked := by
    induction es generalizing s with
    | nil => exact ha
    | cons e es ih => exact ih _ (step_inv h e) (ha.step h e)
  exact hrun {} inv_empty nofun

/-! ## What a flight shows -/

theorem Inv.waiters?_eq_none (h : s.Inv) {group key : String} :
    s.coordinator.waiters? group key = none ↔
      ∀ l ∈ s.loads, l.group = group → l.key = key → ¬ l.Unfinished := by
  rw [Coordinator.waiters?, Option.map_eq_none_iff, Option.eq_none_iff_forall_ne_some]
  constructor
  · intro hnone l hl hg hk hu
    obtain ⟨f, hf, -⟩ := h.flight?_iff.mpr ⟨l, hl, rfl, hg, hk, hu⟩
    exact hnone f hf
  · intro hnone f hf
    obtain ⟨l, hl, -, hg, hk, hu⟩ := h.flight?_iff.mp ⟨f, hf, rfl⟩
    exact hnone l hl hg hk hu

/-- **The number of waiters is that of all who have asked**, after every sequence of calls, ends of loads
and callers giving up.  There is one exactly while a load of the key has been started and has not
finished, and it counts all calls that have started or joined this load: those that still wait for it, and
those that have given up.  So it is the number of those that wait exactly if none of them has gone. -/
theorem waiters_count_askers (es : List Event) (group key : String) :
    let s := run {} es
    (s.coordinator.waiters? group key = none ↔
      ∀ l ∈ s.loads, l.group = group → l.key = key → ¬ l.Unfinished) ∧
    ∀ l ∈ s.loads, l.group = group → l.key = key → l.Unfinished →
      s.coordinator.waiters? group key = some (s.askers l.number) ∧
        s.askers l.number = s.waitingFor l.number + s.goneFrom l.number ∧
        (s.coordinator.waiters? group key = some (s.waitingFor l.number) ↔ s.goneFrom l.number = 0) := by
  intro s
  have h : s.Inv := run_inv inv_empty es
  refine ⟨h.waiters?_eq_none, fun l hl hg hk hu => ?_⟩
  obtain ⟨f, hf, hload⟩ := h.flight?_iff.mpr ⟨l, hl, rfl, hg, hk, hu⟩
  have hwaiters : s.coordinator.waiters? group key = some (s.askers l.number) := by
    rw [Coordinator.waiters?, hf, Option.map_some, asked_run es f (Coordinator.flight?_eq_some hf).1, hload]
  obtain ⟨n, hn⟩ := List.mem_iff_getElem?.mp hl
  have hsplit := h.askers_unfinished hn hu
  rw [← h.number n l hn] at hsplit
  refine ⟨hwaiters, hsplit, ?_⟩
  rw [hwaiters, Option.some.injEq]
  omega

/-- **Who has gone is still counted.**  Of two callers one gives up, and the flight shows two waiters
where one call waits. -/
theorem waiters_count_gone :
    let s := run {} [.call "a" "users" "k", .call "b" "users" "k", .giveUp 1]
    (∃ l ∈ s.loads, l.number = 0 ∧ l.group = "users" ∧ l.key = "k" ∧ l.Unfinished) ∧
      s.coordinator.waiters? "users" "k" = some 2 ∧ s.waitingFor 0 = 1 ∧
      s.coordinator.waiters? "users" "k" ≠ some (s.waitingFor 0) := by
  intro s
  have hwaiters : s.coordinator.waiters? "users" "k" = some 2 := by decide
  have hwaiting : s.waitingFor 0 = 1 := by decide
  refine ⟨⟨⟨0, "users", "k", "a", .running⟩, ?_, rfl, rfl, rfl, rfl⟩, hwaiters, hwaiting, ?_⟩
  · exact List.mem_cons_self
  · rw [hwaiters, hwaiting]
    decide

end Calls

end PeerCache
