import Mathlib
import PeerCache.Coordinator.Calls
import PeerCache.Proofs.Coordinator.Flights
import PeerCache.Proofs.Lists

/-!
# One load at a time, and one outcome for all its callers

Runs of the steps of `Calls`, in any order and from any number of callers.  In every state of a
run (`Calls.Inv`) the flights are those of the loads that have not finished, no key has two of
them, and every call names a load of its own key and has received nothing but its outcome:

    s.Inv → (s.step e).Inv                                               (step_inv)
    s.loads[n]? = some l → ∃ stage, (s.step e).loads[n]? = some { l with stage }   (step_load)
    s.calls[i]? = some c → ∃ fate, (s.step e).calls[i]? = some { c with fate }     (step_call)

Leaving all the giving up out of a run changes nothing but the fates of those who gave up
(`run_sober`).

Main statement: `single_flight`.
-/

namespace PeerCache

/-- A load is unfinished until it has dropped its flight. -/
def StartedLoad.Unfinished (l : StartedLoad) : Prop := l.isFinished = false

namespace Calls

/-! ## Runs -/

inductive Event where
  | call (caller group key : String)
  | endWork (load : Nat) (e : Ending)
  | dropFlight (load : Nat)
  | receive (call : Nat)
  | giveUp (call : Nat)

namespace Event

def isGivingUp : Event → Bool
  | giveUp _ => true
  | _ => false

end Event

/-- A step that is not possible changes nothing. -/
def step (s : Calls) : Event → Calls
  | .call caller group key => (s.call caller group key).1
  | .endWork n e => s.endWork n e
  | .dropFlight n => s.dropFlight n
  | .receive i => s.receive i
  | .giveUp i => s.giveUp i

def run (s : Calls) (es : List Event) : Calls := es.foldl step s

/-- The end of a load with all its callers listening is a run. -/
theorem finish_eq_run (s : Calls) (l : StartedLoad) (e : Ending) :
    ∃ es, (s.finish l e).1 = s.run es := by
  refine ⟨.endWork l.number e :: .dropFlight l.number ::
    (((s.endWork l.number e).dropFlight l.number).waiting (·.load == l.number)).map .receive, ?_⟩
  show _ = List.foldl step _ _
  rw [List.foldl_cons, List.foldl_cons, List.foldl_map]
  rfl

/-- A caller who goes away, wherever it waits, is a run. -/
theorem abandon_eq_run (s : Calls) (caller : String) : ∃ es, s.abandon caller = s.run es := by
  refine ⟨(s.waiting (·.caller == caller)).map .giveUp, ?_⟩
  unfold run
  rw [List.foldl_map]
  rfl

/-! ## The invariant -/

structure Inv (s : Calls) : Prop where
  tidy : s.coordinator.Tidy
  next : s.coordinator.nextLoad = s.loads.length
  number : ∀ (n : Nat) (l : StartedLoad), s.loads[n]? = some l → l.number = n
  /-- The flights are those of the loads that have not finished. -/
  sites : ∀ n group key, (n, group, key) ∈ s.coordinator.sites ↔
    ∃ l, s.loads[n]? = some l ∧ l.group = group ∧ l.key = key ∧ l.Unfinished
  /-- Every call has a load of its own key, and has received nothing but its outcome. -/
  named : ∀ c ∈ s.calls, ∃ l, s.loads[c.load]? = some l ∧ l.group = c.group ∧ l.key = c.key ∧
    ∀ o, c.fate = .received o → l.outcome? = some o

theorem inv_empty : Inv {} := by
  refine ⟨Coordinator.tidy_empty, rfl, by simp, ?_, by simp⟩
  intro n group key
  simp [Coordinator.sites]

/-! ## What a step does to one load -/

/-- A stage, and those that a load comes to from it. -/
inductive Leads : Stage → Stage → Prop where
  | stay (s : Stage) : Leads s s
  | ends (e : Ending) : Leads .running (.ended e)
  | drops (e : Ending) : Leads (.ended e) (.finished e)
  | both (e : Ending) : Leads .running (.finished e)

theorem Leads.trans {a b c : Stage} (hab : Leads a b) (hbc : Leads b c) : Leads a c := by
  cases hab with
  | stay => exact hbc
  | ends e =>
    cases hbc with
    | stay => exact .ends e
    | drops => exact .both e
  | drops e => cases hbc; exact .drops e
  | both e => cases hbc; exact .both e

/-- A load that comes further keeps what it has told. -/
theorem Leads.outcome? {l : StartedLoad} {stage : Stage} (h : Leads l.stage stage) {o : Outcome}
    (ho : l.outcome? = some o) : StartedLoad.outcome? { l with stage } = some o := by
  obtain ⟨number, group, key, starter, first⟩ := l
  cases h with
  | stay => exact ho
  | ends e => cases ho
  | drops e => cases ho
  | both e => cases ho

/-- A finished load tells what it has returned, or that it was aborted. -/
theorem outcome?_eq_some_iff {l : StartedLoad} {o : Outcome} : l.outcome? = some o ↔
    l.stage = .finished (.returned o) ∨
      l.stage = .finished .panicked ∧ o = .error (.loadAborted l.group l.key) := by
  obtain ⟨number, group, key, starter, stage⟩ := l
  cases stage with
  | running | ended e => simp [StartedLoad.outcome?]
  | finished e => cases e <;> simp [StartedLoad.outcome?, Ending.outcome, eq_comm]

theorem endWork_eq (e : Ending) (l : StartedLoad) :
    ∃ stage, l.endWork e = { l with stage } ∧ Leads l.stage stage ∧
      ((l.endWork e).Unfinished ↔ l.Unfinished) := by
  obtain ⟨number, group, key, starter, stage⟩ := l
  cases stage with
  | running => exact ⟨_, rfl, .ends e, fun _ => rfl, fun _ => rfl⟩
  | ended e => exact ⟨_, rfl, .stay _, Iff.rfl⟩
  | finished e => exact ⟨_, rfl, .stay _, Iff.rfl⟩

theorem finish_eq (l : StartedLoad) :
    ∃ stage, l.finish = { l with stage } ∧ Leads l.stage stage := by
  obtain ⟨number, group, key, starter, stage⟩ := l
  cases stage with
  | running => exact ⟨_, rfl, .stay _⟩
  | ended e => exact ⟨_, rfl, .drops e⟩
  | finished e => exact ⟨_, rfl, .stay _⟩

/-- A flight is dropped by a load whose work has ended, and by no other. -/
theorem dropFlight_cases (s : Calls) (n : Nat) :
    s.dropFlight n = s ∨
      ∃ l e, s.loads[n]? = some l ∧ l.stage = .ended e ∧
        s.dropFlight n = { s with
          coordinator := s.coordinator.drop l.group l.key n
          loads := s.loads.modify n (·.finish) } := by
  unfold dropFlight
  split
  · next l hl =>
    split
    · next e he => exact .inr ⟨l, e, hl, he, rfl⟩
    · exact .inl rfl
  · exact .inl rfl

/-- Loads stay where they are; only their stages move on. -/
theorem step_load {s : Calls} {n : Nat} {l : StartedLoad} (h : s.loads[n]? = some l) (e : Event) :
    ∃ stage, (s.step e).loads[n]? = some { l with stage } ∧ Leads l.stage stage := by
  have hmodify {m : Nat} {f : StartedLoad → StartedLoad}
      (hf : ∃ stage, f l = { l with stage } ∧ Leads l.stage stage) :
      ∃ stage, (s.loads.modify m f)[n]? = some { l with stage } ∧ Leads l.stage stage := by
    obtain ⟨stage, he, hl⟩ := hf
    by_cases hm : m = n
    · exact ⟨stage, getElem?_modify_eq_some.mpr ⟨l, h, by rw [if_pos hm, he]⟩, hl⟩
    · exact ⟨l.stage, getElem?_modify_eq_some.mpr ⟨l, h, by rw [if_neg hm]⟩, .stay _⟩
  have hsame : ∃ stage, s.loads[n]? = some { l with stage } ∧ Leads l.stage stage :=
    ⟨l.stage, h, .stay _⟩
  cases e with
  | call caller group key =>
    show ∃ stage, (s.call caller group key).1.loads[n]? = _ ∧ _
    unfold call
    simp only
    split
    · exact ⟨l.stage, getElem?_concat_eq_some.mpr (.inl h), .stay _⟩
    · exact hsame
  | endWork m e =>
    obtain ⟨stage, hf, hl, -⟩ := endWork_eq e l
    exact hmodify ⟨stage, hf, hl⟩
  | dropFlight m =>
    show ∃ stage, (s.dropFlight m).loads[n]? = _ ∧ _
    rcases dropFlight_cases s m with hd | ⟨k, e, -, -, hd⟩
    · rw [hd]; exact hsame
    · rw [hd]; exact hmodify (finish_eq l)
  | receive i => exact hsame
  | giveUp i => exact hsame

theorem run_load {s : Calls} {n : Nat} {l : StartedLoad} (h : s.loads[n]? = some l) (es : List Event) :
    ∃ stage, (s.run es).loads[n]? = some { l with stage } ∧ Leads l.stage stage := by
  induction es generalizing s l with
  | nil => exact ⟨l.stage, h, .stay _⟩
  | cons e es ih =>
    obtain ⟨stage, hs, hl⟩ := step_load h e
    obtain ⟨last, hr, hlast⟩ := ih hs
    exact ⟨last, hr, hl.trans hlast⟩

/-- A load whose work ends as `e`, and that drops its flight some time after, has then finished as
`e` for good. -/
theorem load_finishes {s : Calls} {n : Nat} {l : StartedLoad} (h : s.loads[n]? = some l)
    (hr : l.stage = .running) (e : Ending) (as bs : List Event) :
    ((((s.endWork n e).run as).dropFlight n).run bs).loads[n]? = some { l with stage := .finished e } := by
  have hend : (s.endWork n e).loads[n]? = some { l with stage := .ended e } := by
    refine getElem?_modify_eq_some.mpr ⟨l, h, ?_⟩
    rw [if_pos rfl]
    unfold StartedLoad.endWork
    rw [hr]
  obtain ⟨stage, has, hl⟩ := run_load hend as
  have hdrop : (((s.endWork n e).run as).dropFlight n).loads[n]? = some { l with stage := .finished e } := by
    unfold dropFlight
    rw [has]
    cases hl with
    | stay => exact getElem?_modify_eq_some.mpr ⟨_, has, by rw [if_pos rfl]; rfl⟩
    | drops => exact has
  obtain ⟨last, hbs, hlast⟩ := run_load hdrop bs
  rw [hbs]
  cases hlast
  rfl

/-! ## What a step does to one call -/

theorem hear_eq (o : Option Outcome) (c : Call) :
    ∃ fate, c.hear o = { c with fate } ∧
      (fate = c.fate ∨ c.fate = .waiting ∧ ∃ v, o = some v ∧ fate = .received v) := by
  obtain ⟨caller, group, key, load, fate⟩ := c
  cases fate with
  | waiting =>
    cases o with
    | none => exact ⟨_, rfl, .inl rfl⟩
    | some v => exact ⟨_, rfl, .inr ⟨rfl, v, rfl, rfl⟩⟩
  | received v => exact ⟨_, rfl, .inl rfl⟩
  | abandoned => exact ⟨_, rfl, .inl rfl⟩

theorem giveUp_eq (c : Call) :
    ∃ fate, c.giveUp = { c with fate } ∧ (fate = c.fate ∨ c.fate = .waiting ∧ fate = .abandoned) := by
  obtain ⟨caller, group, key, load, fate⟩ := c
  cases fate with
  | waiting => exact ⟨_, rfl, .inr ⟨rfl, rfl⟩⟩
  | received v => exact ⟨_, rfl, .inl rfl⟩
  | abandoned => exact ⟨_, rfl, .inl rfl⟩

/-- Calls stay where they are; only their fates change, and not once they have one. -/
theorem step_call {s : Calls} {i : Nat} {c : Call} (h : s.calls[i]? = some c) (e : Event) :
    ∃ fate, (s.step e).calls[i]? = some { c with fate } := by
  have hmodify {j : Nat} {f : Call → Call} {fate : Fate} (hf : f c = { c with fate }) :
      ∃ fate, (s.calls.modify j f)[i]? = some { c with fate } := by
    by_cases hj : j = i
    · exact ⟨fate, getElem?_modify_eq_some.mpr ⟨c, h, by rw [if_pos hj, hf]⟩⟩
    · exact ⟨c.fate, getElem?_modify_eq_some.mpr ⟨c, h, by rw [if_neg hj]⟩⟩
  cases e with
  | call caller group key => exact ⟨c.fate, getElem?_concat_eq_some.mpr (.inl h)⟩
  | endWork n e => exact ⟨c.fate, h⟩
  | dropFlight n =>
    refine ⟨c.fate, ?_⟩
    show (s.dropFlight n).calls[i]? = _
    rcases dropFlight_cases s n with hd | ⟨l, e, -, -, hd⟩
    · rw [hd]; exact h
    · rw [hd]; exact h
  | receive j =>
    obtain ⟨fate, hf, -⟩ := hear_eq (s.outcomeOf? c.load) c
    exact hmodify hf
  | giveUp j =>
    obtain ⟨fate, hf, -⟩ := giveUp_eq c
    exact hmodify hf

theorem run_call {s : Calls} {i : Nat} {c : Call} (h : s.calls[i]? = some c) (es : List Event) :
    ∃ fate, (s.run es).calls[i]? = some { c with fate } := by
  induction es generalizing s c with
  | nil => exact ⟨c.fate, h⟩
  | cons e es ih =>
    obtain ⟨fate, hs⟩ := step_call h e
    obtain ⟨last, hr⟩ := ih hs
    exact ⟨last, hr⟩

/-! ## Every step keeps the invariant -/

/-- **Everything that a call can do**: it joins a load of its key that has not finished, or there is
none and it starts its own. -/
theorem Inv.call_cases {s : Calls} (h : s.Inv) (caller group key : String) :
    (∃ n l, s.loads[n]? = some l ∧ l.group = group ∧ l.key = key ∧ l.Unfinished ∧
      (s.coordinator.join group key).1.sites = s.coordinator.sites ∧
      (s.coordinator.join group key).1.nextLoad = s.loads.length ∧
      s.call caller group key = (⟨(s.coordinator.join group key).1, s.loads,
        s.calls ++ [⟨caller, group, key, n, .waiting⟩]⟩, false)) ∨
    ((∀ l ∈ s.loads, l.group = group → l.key = key → ¬ l.Unfinished) ∧
      (s.coordinator.join group key).1.sites = (s.loads.length, group, key) :: s.coordinator.sites ∧
      (s.coordinator.join group key).1.nextLoad = s.loads.length + 1 ∧
      s.call caller group key = (⟨(s.coordinator.join group key).1,
        s.loads ++ [⟨s.loads.length, group, key, caller, .running⟩],
        s.calls ++ [⟨caller, group, key, s.loads.length, .waiting⟩]⟩, true)) := by
  rcases s.coordinator.join_cases group key with ⟨n, hn, ht, hs, hnext⟩ | ⟨hnone, ht, hs, hnext⟩
  · left
    obtain ⟨l, hl, hg, hk, hu⟩ := (h.sites n group key).mp hn
    refine ⟨n, l, hl, hg, hk, hu, hs, hnext.trans h.next, ?_⟩
    unfold call
    simp only [ht]
    rfl
  · right
    rw [h.next] at ht hs hnext
    refine ⟨?_, hs, hnext, ?_⟩
    · intro l hl hg hk hu
      obtain ⟨n, hn⟩ := List.mem_iff_getElem?.mp hl
      exact hnone n ((h.sites n group key).mpr ⟨l, hn, hg, hk, hu⟩)
    · unfold call
      simp only [ht]
      rfl

theorem Inv.call {s : Calls} (h : s.Inv) (caller group key : String) :
    (s.call caller group key).1.Inv := by
  have htidy := h.tidy.join group key
  rcases h.call_cases caller group key with ⟨n, l, hl, hg, hk, hu, hs, hnext, he⟩ | ⟨-, hs, hnext, he⟩
  · rw [he]
    refine ⟨htidy, hnext, h.number, ?_, ?_⟩
    · intro m g k
      show _ ∈ (s.coordinator.join group key).1.sites ↔ _
      rw [hs]
      exact h.sites m g k
    · intro c hc
      rcases List.mem_append.mp hc with hc | hc
      · exact h.named c hc
      · rw [List.mem_singleton.mp hc]
        exact ⟨l, hl, hg, hk, by simp⟩
  · rw [he]
    refine ⟨htidy, ?_, ?_, ?_, ?_⟩
    · show _ = (s.loads ++ [_]).length
      rw [hnext, List.length_append, List.length_singleton]
    · intro m l hl
      rcases getElem?_concat_eq_some.mp hl with hl | ⟨rfl, rfl⟩
      · exact h.number m l hl
      · rfl
    · intro m g k
      show _ ∈ (s.coordinator.join group key).1.sites ↔ _
      rw [hs, List.mem_cons, h.sites m g k]
      constructor
      · rintro (he | ⟨l, hl, hg, hk, hu⟩)
        · cases he
          exact ⟨_, getElem?_concat_eq_some.mpr (.inr ⟨rfl, rfl⟩), rfl, rfl, rfl⟩
        · exact ⟨l, getElem?_concat_eq_some.mpr (.inl hl), hg, hk, hu⟩
      · rintro ⟨l, hl, rfl, rfl, hu⟩
        rcases getElem?_concat_eq_some.mp hl with hl | ⟨rfl, rfl⟩
        · exact .inr ⟨l, hl, rfl, rfl, hu⟩
        · exact .inl rfl
    · intro c hc
      rcases List.mem_append.mp hc with hc | hc
      · obtain ⟨l, hl, hg, hk, ho⟩ := h.named c hc
        exact ⟨l, getElem?_concat_eq_some.mpr (.inl hl), hg, hk, ho⟩
      · rw [List.mem_singleton.mp hc]
        exact ⟨_, getElem?_concat_eq_some.mpr (.inr ⟨rfl, rfl⟩), rfl, rfl, by simp⟩

/-- Loads that only come further keep what calls have received of them. -/
theorem Inv.named_modify {s : Calls} (h : s.Inv) {n : Nat} {f : StartedLoad → StartedLoad}
    (hf : ∀ l, ∃ stage, f l = { l with stage } ∧ Leads l.stage stage) {c : Call} (hc : c ∈ s.calls) :
    ∃ l, (s.loads.modify n f)[c.load]? = some l ∧ l.group = c.group ∧ l.key = c.key ∧
      ∀ o, c.fate = .received o → l.outcome? = some o := by
  obtain ⟨l, hl, hg, hk, ho⟩ := h.named c hc
  by_cases hn : n = c.load
  · obtain ⟨stage, he, hstage⟩ := hf l
    refine ⟨f l, getElem?_modify_eq_some.mpr ⟨l, hl, by rw [if_pos hn]⟩, ?_⟩
    rw [he]
    exact ⟨hg, hk, fun o hr => hstage.outcome? (ho o hr)⟩
  · exact ⟨l, getElem?_modify_eq_some.mpr ⟨l, hl, by rw [if_neg hn]⟩, hg, hk, ho⟩

theorem Inv.number_modify {s : Calls} (h : s.Inv) {n : Nat} {f : StartedLoad → StartedLoad}
    (hf : ∀ l, ∃ stage, f l = { l with stage }) {m : Nat} {l : StartedLoad}
    (hl : (s.loads.modify n f)[m]? = some l) : l.number = m := by
  obtain ⟨k, hk, rfl⟩ := getElem?_modify_eq_some.mp hl
  split
  · obtain ⟨stage, he⟩ := hf k
    rw [he]
    exact h.number m k hk
  · exact h.number m k hk

theorem Inv.endWork {s : Calls} (h : s.Inv) (n : Nat) (e : Ending) : (s.endWork n e).Inv := by
  refine ⟨h.tidy, ?_, fun m l hl => h.number_modify (fun l => ?_) hl, ?_, fun c hc => h.named_modify
    (fun l => ?_) hc⟩
  · exact h.next.trans (List.length_modify ..).symm
  · obtain ⟨stage, he, -⟩ := endWork_eq e l
    exact ⟨stage, he⟩
  · intro m group key
    rw [show (s.endWork n e).coordinator = s.coordinator from rfl, h.sites m group key]
    constructor
    · rintro ⟨l, hl, hg, hk, hu⟩
      obtain ⟨stage, he, -, hiff⟩ := endWork_eq e l
      refine ⟨if n = m then l.endWork e else l, getElem?_modify_eq_some.mpr ⟨l, hl, rfl⟩, ?_⟩
      split
      · exact ⟨by rw [he]; exact hg, by rw [he]; exact hk, hiff.mpr hu⟩
      · exact ⟨hg, hk, hu⟩
    · rintro ⟨l', hl', hg, hk, hu⟩
      obtain ⟨l, hl, rfl⟩ := getElem?_modify_eq_some.mp hl'
      obtain ⟨stage, he, -, hiff⟩ := endWork_eq e l
      refine ⟨l, hl, ?_⟩
      split at hg
      · rw [if_pos ‹_›] at hk hu
        rw [he] at hg hk
        exact ⟨hg, hk, hiff.mp hu⟩
      · rw [if_neg ‹_›] at hk hu
        exact ⟨hg, hk, hu⟩
  · obtain ⟨stage, he, hl, -⟩ := endWork_eq e l
    exact ⟨stage, he, hl⟩

theorem Inv.dropFlight {s : Calls} (h : s.Inv) (n : Nat) : (s.dropFlight n).Inv := by
  rcases dropFlight_cases s n with hd | ⟨l, e, hl, he, hd⟩
  · rw [hd]; exact h
  rw [hd]
  refine ⟨h.tidy.drop .., ?_, fun m k hk => h.number_modify (fun k => ?_) hk, ?_, fun c hc =>
    h.named_modify (fun k => ?_) hc⟩
  · exact h.next.trans (List.length_modify ..).symm
  · obtain ⟨stage, hf, -⟩ := finish_eq k
    exact ⟨stage, hf⟩
  · intro m group key
    rw [Coordinator.mem_sites_drop, h.sites m group key]
    constructor
    · rintro ⟨⟨k, hk, rfl, rfl, hu⟩, hne⟩
      have hm : n ≠ m := by
        rintro rfl
        rw [hl, Option.some.injEq] at hk
        exact hne (by rw [hk])
      exact ⟨k, getElem?_modify_eq_some.mpr ⟨k, hk, by rw [if_neg hm]⟩, rfl, rfl, hu⟩
    · rintro ⟨k, hk, hg, hkey, hu⟩
      obtain ⟨k, hm, rfl⟩ := getElem?_modify_eq_some.mp hk
      split at hu
      · -- the load that drops its flight has finished now
        next hn =>
        subst hn
        rw [hl, Option.some.injEq] at hm
        subst hm
        unfold StartedLoad.Unfinished StartedLoad.finish StartedLoad.isFinished at hu
        rw [he] at hu
        cases hu
      · next hn =>
        rw [if_neg hn] at hg hkey
        refine ⟨⟨k, hm, hg, hkey, hu⟩, ?_⟩
        intro hx
        exact hn (congrArg Prod.fst hx).symm
  · exact finish_eq k

/-- A call may come to a fate if what it has received then is the outcome of its load. -/
theorem Inv.modify_call {s : Calls} (h : s.Inv) (i : Nat) {f : Call → Call}
    (hf : ∀ c, ∃ fate, f c = { c with fate } ∧
      ∀ o, fate = .received o → c.fate = .received o ∨ s.outcomeOf? c.load = some o) :
    Inv { s with calls := s.calls.modify i f } := by
  refine ⟨h.tidy, h.next, h.number, h.sites, ?_⟩
  intro d hd
  obtain ⟨j, hj⟩ := List.mem_iff_getElem?.mp hd
  obtain ⟨c, hc, rfl⟩ := getElem?_modify_eq_some.mp hj
  obtain ⟨l, hl, hg, hk, ho⟩ := h.named c (List.mem_of_getElem? hc)
  split
  · obtain ⟨fate, he, hr⟩ := hf c
    rw [he]
    refine ⟨l, hl, hg, hk, ?_⟩
    intro o hfate
    rcases hr o hfate with hr | hr
    · exact ho o hr
    · unfold outcomeOf? at hr
      rw [hl] at hr
      exact hr
  · exact ⟨l, hl, hg, hk, ho⟩

theorem Inv.receive {s : Calls} (h : s.Inv) (i : Nat) : (s.receive i).Inv := by
  apply h.modify_call i
  intro c
  obtain ⟨fate, he, hr⟩ := hear_eq (s.outcomeOf? c.load) c
  refine ⟨fate, he, ?_⟩
  rintro o rfl
  rcases hr with hr | ⟨-, v, hv, hr⟩
  · exact .inl hr.symm
  · cases hr
    exact .inr hv

theorem Inv.giveUp {s : Calls} (h : s.Inv) (i : Nat) : (s.giveUp i).Inv := by
  apply h.modify_call i
  intro c
  obtain ⟨fate, he, hr⟩ := giveUp_eq c
  refine ⟨fate, he, ?_⟩
  rintro o rfl
  rcases hr with hr | ⟨-, hr⟩
  · exact .inl hr.symm
  · cases hr

theorem step_inv {s : Calls} (h : s.Inv) (e : Event) : (s.step e).Inv := by
  cases e with
  | call caller group key => exact h.call caller group key
  | endWork n e => exact h.endWork n e
  | dropFlight n => exact h.dropFlight n
  | receive i => exact h.receive i
  | giveUp i => exact h.giveUp i

theorem run_inv {s : Calls} (h : s.Inv) (es : List Event) : (s.run es).Inv := by
  induction es generalizing s with
  | nil => exact h
  | cons e es ih => exact ih (step_inv h e)

/-- No key has two loads that have not finished. -/
theorem Inv.unfinished_unique {s : Calls} (h : s.Inv) {m n : Nat} {k l : StartedLoad}
    (hk : s.loads[m]? = some k) (hl : s.loads[n]? = some l) (hg : k.group = l.group)
    (hkey : k.key = l.key) (hku : k.Unfinished) (hlu : l.Unfinished) : m = n := by
  have hm := (h.sites m l.group l.key).mpr ⟨k, hk, hg, hkey, hku⟩
  have hn := (h.sites n l.group l.key).mpr ⟨l, hl, rfl, rfl, hlu⟩
  exact h.tidy.number_unique hm hn

/-- A caller's own load starts exactly if no load of its key is unfinished. -/
theorem Inv.starts_iff {s : Calls} (h : s.Inv) (caller group key : String) :
    (s.call caller group key).2 = true ↔
      ∀ l ∈ s.loads, l.group = group → l.key = key → ¬ l.Unfinished := by
  rcases h.call_cases caller group key with ⟨n, l, hl, hg, hk, hu, -, -, he⟩ | ⟨hnone, -, -, he⟩
  · rw [he]
    refine ⟨fun hf => (by cases hf), ?_⟩
    intro hnone
    exact absurd hu (hnone l (List.mem_of_getElem? hl) hg hk)
  · rw [he]
    exact ⟨fun _ => hnone, fun _ => rfl⟩

/-- A caller who listens to a finished load hears its outcome, if it has not given up. -/
theorem Inv.receive_finished {s : Calls} (h : s.Inv) {i : Nat} {c : Call} (hc : s.calls[i]? = some c)
    {l : StartedLoad} (hl : s.loads[c.load]? = some l) (ha : c.fate ≠ .abandoned) {o : Outcome}
    (ho : l.outcome? = some o) : (s.receive i).calls[i]? = some { c with fate := .received o } := by
  have hout : s.outcomeOf? c.load = some o := by
    unfold outcomeOf?
    rw [hl]
    exact ho
  refine getElem?_modify_eq_some.mpr ⟨c, hc, ?_⟩
  rw [if_pos rfl, hout]
  unfold Call.hear
  obtain ⟨k, hk, -, -, hr⟩ := h.named c (List.mem_of_getElem? hc)
  obtain ⟨caller, group, key, load, fate⟩ := c
  cases fate with
  | waiting => rfl
  | abandoned => exact absurd rfl ha
  | received v =>
    rw [hl, Option.some.injEq] at hk
    subst hk
    have hv := hr v rfl
    rw [ho, Option.some.injEq] at hv
    rw [hv]

/-! ## Giving up concerns nobody else -/

/-- The same but for the fates of calls that were given up in the first. -/
structure Parallel (s u : Calls) : Prop where
  coordinator : u.coordinator = s.coordinator
  loads : u.loads = s.loads
  length : u.calls.length = s.calls.length
  calls : ∀ (i : Nat) (c : Call), s.calls[i]? = some c →
    ∃ d, u.calls[i]? = some d ∧ (d = c ∨ c.fate = .abandoned ∧ ∃ fate, d = { c with fate })

theorem Parallel.refl (s : Calls) : Parallel s s := ⟨rfl, rfl, rfl, fun _ c hc => ⟨c, hc, .inl rfl⟩⟩

theorem Parallel.call {s u : Calls} (h : Parallel s u) (caller group key : String) :
    Parallel (s.call caller group key).1 (u.call caller group key).1 := by
  have hjoin : u.coordinator.join group key = s.coordinator.join group key := by rw [h.coordinator]
  unfold Calls.call
  simp only [hjoin, h.loads]
  refine ⟨rfl, rfl, by simp [h.length], ?_⟩
  intro i c hc
  rcases getElem?_concat_eq_some.mp hc with hc | ⟨rfl, rfl⟩
  · obtain ⟨d, hd, hcase⟩ := h.calls i c hc
    exact ⟨d, getElem?_concat_eq_some.mpr (.inl hd), hcase⟩
  · exact ⟨_, getElem?_concat_eq_some.mpr (.inr ⟨h.length.symm, rfl⟩), .inl rfl⟩

theorem Parallel.dropFlight {s u : Calls} (h : Parallel s u) (n : Nat) :
    Parallel (s.dropFlight n) (u.dropFlight n) := by
  unfold Calls.dropFlight
  rw [h.loads]
  split
  · split
    · exact ⟨by rw [h.coordinator], rfl, h.length, h.calls⟩
    · exact h
  · exact h

theorem Parallel.receive {s u : Calls} (h : Parallel s u) (i : Nat) :
    Parallel (s.receive i) (u.receive i) := by
  have hout : u.outcomeOf? = s.outcomeOf? := by
    unfold outcomeOf?
    rw [h.loads]
  refine ⟨h.coordinator, h.loads, by simp [Calls.receive, h.length], ?_⟩
  intro j c' hc'
  obtain ⟨c, hc, rfl⟩ := getElem?_modify_eq_some.mp hc'
  obtain ⟨d, hd, hcase⟩ := h.calls j c hc
  refine ⟨_, getElem?_modify_eq_some.mpr ⟨d, hd, rfl⟩, ?_⟩
  rw [hout]
  rcases hcase with rfl | ⟨ha, fate, rfl⟩
  · exact .inl rfl
  · right
    have hc : c.hear (s.outcomeOf? c.load) = c := by
      unfold Call.hear
      rw [ha]
    obtain ⟨last, he, -⟩ := hear_eq (s.outcomeOf? c.load) { c with fate }
    split
    · rw [hc, he]
      exact ⟨ha, last, rfl⟩
    · exact ⟨ha, fate, rfl⟩

/-- A call that is given up in the first alone. -/
theorem Parallel.giveUp {s u : Calls} (h : Parallel s u) (i : Nat) : Parallel (s.giveUp i) u := by
  refine ⟨h.coordinator, h.loads, by simp [Calls.giveUp, h.length], ?_⟩
  intro j c' hc'
  obtain ⟨c, hc, rfl⟩ := getElem?_modify_eq_some.mp hc'
  obtain ⟨d, hd, hcase⟩ := h.calls j c hc
  refine ⟨d, hd, ?_⟩
  obtain ⟨fate, he, hf⟩ := giveUp_eq c
  split
  · rw [he]
    rcases hf with rfl | ⟨hw, rfl⟩
    · exact hcase
    · right
      rcases hcase with rfl | ⟨ha, -⟩
      · exact ⟨rfl, d.fate, rfl⟩
      · rw [hw] at ha
        cases ha
  · exact hcase

/-- A run, and the same run with nobody giving up, differ in the fates of those who gave up. -/
theorem run_sober {s u : Calls} (h : Parallel s u) (es : List Event) :
    Parallel (s.run es) (u.run (es.filter fun e => !e.isGivingUp)) := by
  induction es generalizing s u with
  | nil => exact h
  | cons e es ih =>
    cases e with
    | call caller group key => exact ih (h.call caller group key)
    | endWork n e =>
      have hloads : (u.endWork n e).loads = (s.endWork n e).loads :=
        congrArg (fun ls => ls.modify n (·.endWork e)) h.loads
      exact ih ⟨h.coordinator, hloads, h.length, h.calls⟩
    | dropFlight n => exact ih (h.dropFlight n)
    | receive i => exact ih (h.receive i)
    | giveUp i => exact ih (h.giveUp i)

/-! ## Single flight -/

/-- How a call made in `s` stands in a later state `t`: it names a load of its key that is its own,
started by this call, or had not finished before it; and what it has received, or will receive as
soon as it listens when that load has finished, is what that load has returned, or that it was aborted if
it has panicked. -/
def Served (s t : Calls) (caller group key : String) : Prop :=
  ∃ c l, t.calls[s.calls.length]? = some c ∧ t.loads[c.load]? = some l ∧
    c.caller = caller ∧ c.group = group ∧ c.key = key ∧ l.group = group ∧ l.key = key ∧
    (if (s.call caller group key).2 then c.load = s.loads.length ∧ l.starter = caller
      else ∃ k, s.loads[c.load]? = some k ∧ k.Unfinished) ∧
    (∀ o, c.fate = .received o → l.stage = .finished (.returned o) ∨
      l.stage = .finished .panicked ∧ o = .error (.loadAborted group key)) ∧
    ∀ o, l.stage = .finished (.returned o) ∨
        l.stage = .finished .panicked ∧ o = .error (.loadAborted group key) →
      c.fate ≠ .abandoned →
      (t.receive s.calls.length).calls[s.calls.length]? = some { c with fate := .received o }

theorem Inv.served {s : Calls} (h : s.Inv) (caller group key : String) (es : List Event) :
    Served s ((s.call caller group key).1.run es) caller group key := by
  generalize hi : s.calls.length = i
  generalize hrun : (s.call caller group key).1.run es = t
  have ht : t.Inv := hrun ▸ run_inv (h.call caller group key) es
  have hjoined : ∃ n l0, (s.call caller group key).1.calls[i]? = some ⟨caller, group, key, n, .waiting⟩ ∧
      (s.call caller group key).1.loads[n]? = some l0 ∧ l0.group = group ∧ l0.key = key ∧
      (if (s.call caller group key).2 then n = s.loads.length ∧ l0.starter = caller
        else ∃ k, s.loads[n]? = some k ∧ k.Unfinished) := by
    rcases h.call_cases caller group key with ⟨n, l, hl, hg, hk, hu, -, -, he⟩ | ⟨-, -, -, he⟩
    · rw [he]
      exact ⟨n, l, getElem?_concat_eq_some.mpr (.inr ⟨hi.symm, rfl⟩), hl, hg, hk, ⟨l, hl, hu⟩⟩
    · rw [he]
      exact ⟨_, _, getElem?_concat_eq_some.mpr (.inr ⟨hi.symm, rfl⟩),
        getElem?_concat_eq_some.mpr (.inr ⟨rfl, rfl⟩), rfl, rfl, ⟨rfl, rfl⟩⟩
  obtain ⟨n, l0, hc0, hl0, hg, hk, hown⟩ := hjoined
  obtain ⟨fate, hc⟩ := run_call hc0 es
  obtain ⟨stage, hl, -⟩ := run_load hl0 es
  rw [hrun] at hc hl
  subst hi hg hk
  refine ⟨_, _, hc, hl, rfl, rfl, rfl, rfl, rfl, hown, ?_, ?_⟩
  · intro o ho
    obtain ⟨l, hl', -, -, hr⟩ := ht.named _ (List.mem_of_getElem? hc)
    rw [hl, Option.some.injEq] at hl'
    subst hl'
    exact outcome?_eq_some_iff.mp (hr o ho)
  · intro o ho ha
    exact ht.receive_finished hc hl ha (outcome?_eq_some_iff.mpr ho)

/-- **Single flight**, after every sequence of calls, ends of loads and callers giving up: no key
has two unfinished loads; a caller's own load starts exactly if its key has none; a load finishes as
its work has ended; every call that is not given up gets the outcome of the one load it named, which
had not finished when it called; and had nobody given up, loads, flights and all other calls would
be the same. -/
theorem single_flight (es : List Event) :
    let s := run {} es
    let sober := run {} (es.filter fun e => !e.isGivingUp)
    (∀ (m n : Nat) (k l : StartedLoad), s.loads[m]? = some k → s.loads[n]? = some l →
      k.group = l.group → k.key = l.key → k.Unfinished → l.Unfinished → m = n) ∧
    (∀ caller group key, (s.call caller group key).2 = true ↔
      ∀ l ∈ s.loads, l.group = group → l.key = key → ¬ l.Unfinished) ∧
    (∀ (n : Nat) (l : StartedLoad), s.loads[n]? = some l → l.stage = .running → ∀ e as bs,
      ((((s.endWork n e).run as).dropFlight n).run bs).loads[n]? =
        some { l with stage := .finished e }) ∧
    (∀ caller group key later,
      Served s ((s.call caller group key).1.run later) caller group key) ∧
    sober.coordinator = s.coordinator ∧ sober.loads = s.loads ∧
      ∀ (i : Nat) (c : Call), s.calls[i]? = some c → c.fate ≠ .abandoned → sober.calls[i]? = some c := by
  intro s sober
  have h : s.Inv := run_inv inv_empty es
  refine ⟨?_, h.starts_iff, fun n l hl hr => load_finishes hl hr, h.served, ?_⟩
  · intro m n k l hk hl hg hkey hku hlu
    exact h.unfinished_unique hk hl hg hkey hku hlu
  · have hp := run_sober (Parallel.refl {}) es
    refine ⟨hp.coordinator, hp.loads, ?_⟩
    intro i c hc ha
    obtain ⟨d, hd, rfl | ⟨hab, -⟩⟩ := hp.calls i c hc
    · exact hd
    · exact absurd hab ha

end Calls

end PeerCache
