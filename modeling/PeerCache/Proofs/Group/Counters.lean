import Mathlib
import PeerCache.Proofs.Group.Lookups
import PeerCache.Proofs.Group.Traffic
import PeerCache.Proofs.Lists

/-!
# The counters of a group add up

The counters of a group are bumped at different moments, by callers and by loads, in the group, in its
tiers and in its coordinator.  Beside the group a machine (`Traffic`) keeps all calls that have waited and
all loads, so that the counters can be checked against what has happened:

    gets, hits, misses, lookups        each get is one lookup, a hit or a miss            (Group.Even)
    loads and joined calls             each call that has waited is one of the two        (Group.Even)
    calls of a source and its errors   the loads that turned to it, and that it failed    (Recorded)

A load that has not been released has a flight (`Flying`), so with none left all loads are over.

Main statement: `Traffic.counters_add_up`.
-/

namespace PeerCache

/-! ## What a load counts -/

namespace Source

/-- How often loads have turned to a source. -/
def calls (c : GroupCounters) : Source → Nat
  | backfill => c.backfills
  | owner => c.peerFetches

/-- How often the source had no value. -/
def errors (c : GroupCounters) : Source → Nat
  | backfill => c.backfillErrors
  | owner => c.peerFetchErrors

end Source

namespace Ending

def isValue : Ending → Bool
  | returned (.ok _) => true
  | _ => false

def isError : Ending → Bool
  | returned (.error _) => true
  | _ => false

def isPanicked : Ending → Bool
  | panicked => true
  | _ => false

end Ending

namespace Course

def turnedTo (x : Source) (c : Course) : Bool := decide (c.source? = some x)

/-- The source had no value. -/
def failedAt (x : Source) (c : Course) : Bool := c.turnedTo x && c.ending?.any (·.isError)

/-- The value came from the source. -/
def servedBy (x : Source) (c : Course) : Bool := c.turnedTo x && c.ending?.any (·.isValue)

/-- The value came from a source. -/
def isServed (c : Course) : Bool := c.source?.isSome && c.ending?.any (·.isValue)

def isPanicked (c : Course) : Bool := c.ending?.any (·.isPanicked)

end Course

/-- A load that turns to a source counts there. -/
theorem Group.beginLoad_counters (g : Group) (m : Membership) (l : Load) (now : Instant) :
    (g.beginLoad m l now).1.counters =
      match (g.beginLoad m l now).2 with
      | .ended _ => g.counters
      | .ask .. => { g.counters with backfills := g.counters.backfills + 1 }
      | .fetch .. => { g.counters with peerFetches := g.counters.peerFetches + 1 } := by
  unfold beginLoad
  split
  · split
    · rfl
    · split <;> rfl
  · rfl

/-- A load that takes a turn counts what has happened in it. -/
structure Tells (g h : Group) (c d : Course) : Prop where
  quiet : g.Quiet h
  calls : ∀ x : Source, x.calls h.counters + (c.turnedTo x).toNat = x.calls g.counters + (d.turnedTo x).toNat
  errors : ∀ x : Source, x.errors h.counters + (c.failedAt x).toNat = x.errors g.counters + (d.failedAt x).toNat

namespace GroupLoad

variable {t : GroupLoad} {g h : Group} {turn : Turn} {c : Course}

/-- **Everything that a turn of a load can do**: it counts what has happened, and leaves the flights alone
unless it releases the load, which drops its own flight. -/
theorem advance?_cases (hstep : t.advance? g turn = some (h, c)) :
    Tells g h t.course c ∧ t.course.isReleased = false ∧
      (c.isReleased = false ∧ h.coordinator = g.coordinator ∨
        c.isReleased = true ∧ h.coordinator = g.coordinator.drop g.name t.load.key t.load.number) := by
  unfold advance? at hstep
  split at hstep
  · next m now hcourse =>
    rw [hcourse]
    have hquiet := g.quiet_beginLoad m t.load now
    have haside := (g.beginLoad_cases m t.load now).1
    have hcounters := g.beginLoad_counters m t.load now
    generalize g.beginLoad m t.load now = r at hstep hquiet haside hcounters
    obtain ⟨g', first⟩ := r
    dsimp only at hquiet haside hcounters
    cases first with
    | ended | ask | fetch =>
      cases hstep
      refine ⟨⟨hquiet, fun x => ?_, fun x => ?_⟩, rfl, .inl ⟨rfl, haside.coordinator⟩⟩
      · rw [hcounters]
        cases x <;> rfl
      · rw [hcounters]
        cases x <;> rfl
  · next expireAt a now hcourse =>
    rw [hcourse]
    have hquiet := g.quiet_settleBackfill t.load expireAt a now
    have haside := g.settleBackfill_aside t.load expireAt a now
    cases hstep
    refine ⟨⟨hquiet, ?_, ?_⟩, rfl, .inl ⟨rfl, haside.coordinator⟩⟩
    · intro x
      cases x <;> cases a <;> rfl
    · intro x
      cases x <;> cases a <;> rfl
  · next expireAt e now hcourse =>
    rw [hcourse]
    have hquiet := g.quiet_settleFetch t.load expireAt e now
    have haside := g.settleFetch_aside t.load expireAt e now
    cases hstep
    refine ⟨⟨hquiet, ?_, ?_⟩, rfl, .inl ⟨rfl, haside.coordinator⟩⟩
    · intro x
      rcases e with (err | v) | _ <;> cases x <;> rfl
    · intro x
      rcases e with (err | v) | _ <;> cases x <;> rfl
  · next x e hcourse =>
    rw [hcourse]
    cases hstep
    exact ⟨⟨⟨rfl, rfl, rfl, rfl, fun _ => rfl⟩, fun _ => rfl, fun _ => rfl⟩, rfl, .inr ⟨rfl, rfl⟩⟩
  · cases hstep

end GroupLoad

namespace Traffic

variable {s : Traffic} {g : Group}

/-! ## The flights -/

/-- Loads stand at their numbers, and those that have not been released have a flight. -/
structure Flying (s : Traffic) : Prop where
  next : s.group.coordinator.nextLoad = s.loads.length
  number : ∀ (n : Nat) (t : GroupLoad), s.loads[n]? = some t → t.load.number = n
  site : ∀ t ∈ s.loads, t.course.isReleased = false →
    (t.load.number, s.group.name, t.load.key) ∈ s.group.coordinator.sites

theorem Flying.on (h : s.Flying) (hname : g.name = s.group.name)
    (hcoordinator : g.coordinator = s.group.coordinator) : (s.on g).Flying := by
  refine ⟨?_, h.number, fun t ht hcourse => ?_⟩
  · show g.coordinator.nextLoad = _
    rw [hcoordinator]
    exact h.next
  · show (_, g.name, _) ∈ g.coordinator.sites
    rw [hname, hcoordinator]
    exact h.site t ht hcourse

/-- A load takes its turn.  If it drops a flight, it is its own, since no two loads have one number. -/
theorem Flying.advance (h : s.Flying) {n : Nat} {t : GroupLoad} {turn : Turn} {c : Course}
    (ht : s.loads[n]? = some t) (hstep : t.advance? s.group turn = some (g, c)) :
    Flying { s.on g with loads := s.loads.modify n fun t => { t with course := c } } := by
  obtain ⟨htells, hcourse, hflight⟩ := GroupLoad.advance?_cases hstep
  have hname : g.name = s.group.name := htells.quiet.name
  refine ⟨?_, fun k u hu => ?_, fun u hu hopen => ?_⟩
  · show g.coordinator.nextLoad = (s.loads.modify n _).length
    rw [List.length_modify]
    rcases hflight with ⟨-, heq⟩ | ⟨-, heq⟩
    · rw [heq]
      exact h.next
    · rw [heq]
      exact h.next
  · obtain ⟨a, ha, rfl⟩ := getElem?_modify_eq_some.mp hu
    have hnumber := h.number k a ha
    split <;> exact hnumber
  · obtain ⟨k, hk⟩ := List.mem_iff_getElem?.mp hu
    obtain ⟨a, ha, rfl⟩ := getElem?_modify_eq_some.mp hk
    have hsite := h.site a (List.mem_of_getElem? ha)
    show (_, g.name, _) ∈ g.coordinator.sites
    rw [hname]
    by_cases hn : n = k
    · subst hn
      obtain rfl := eq_of_getElem? ht ha
      rw [if_pos rfl] at hopen ⊢
      rcases hflight with ⟨-, heq⟩ | ⟨hreleased, -⟩
      · rw [heq]
        exact hsite hcourse
      · rw [show c.isReleased = false from hopen] at hreleased
        cases hreleased
    · rw [if_neg hn] at hopen ⊢
      rcases hflight with ⟨-, heq⟩ | ⟨-, heq⟩
      · rw [heq]
        exact hsite hopen
      · rw [heq, Coordinator.mem_sites_drop]
        refine ⟨hsite hopen, fun hsame => hn ?_⟩
        have hnumber := congrArg Prod.fst hsame
        rw [← h.number n t ht, ← h.number k a ha]
        exact hnumber.symm

/-- A get may start a load, under the next number. -/
theorem Flying.join (h : s.Flying) (caller key : String) (owner : Peer) :
    (s.enter caller key (s.group.join key owner)).Flying := by
  rcases s.group.join_cases key owner with
    ⟨c, n, hjoin, -, hsites, hnext⟩ | ⟨c, n, hjoin, hn, -, hsites, hnext⟩
  · rw [hjoin]
    refine ⟨hnext.trans (by simpa [enter] using h.next), fun k t hk => ?_, fun t ht hcourse => ?_⟩
    · exact h.number k t (by simpa [enter] using hk)
    · show _ ∈ c.sites
      rw [hsites]
      exact h.site t (by simpa [enter] using ht) hcourse
  · have hlength := h.next
    rw [hjoin]
    refine ⟨hnext.trans (by simp [enter, hlength]), fun k t hk => ?_, fun t ht hcourse => ?_⟩
    · rcases getElem?_concat_eq_some.mp (show (s.loads ++ [_])[k]? = some t from hk) with hk | ⟨rfl, rfl⟩
      · exact h.number k t hk
      · exact hn.trans hlength
    · show _ ∈ c.sites
      rw [hsites]
      rcases List.mem_append.mp (show t ∈ s.loads ++ [_] from ht) with ht | ht
      · exact List.mem_cons_of_mem _ (h.site t ht hcourse)
      · rw [List.mem_singleton.mp ht]
        exact List.mem_cons_self

/-! ## The records -/

/-- The counts of calls and loads are those of the records. -/
structure Recorded (s : Traffic) : Prop where
  waited : s.group.counters.misses = s.calls.length
  started : s.group.coordinator.loads = s.loads.length
  turned : ∀ x : Source, x.calls s.group.counters = s.loads.countP fun t => t.course.turnedTo x
  failed : ∀ x : Source, x.errors s.group.counters = s.loads.countP fun t => t.course.failedAt x

theorem Recorded.on (h : s.Recorded) (hmisses : g.counters.misses = s.group.counters.misses)
    (hloads : g.coordinator.loads = s.group.coordinator.loads)
    (hcounters : ∀ x : Source, x.calls g.counters = x.calls s.group.counters ∧
      x.errors g.counters = x.errors s.group.counters) : (s.on g).Recorded :=
  ⟨hmisses.trans h.waited, hloads.trans h.started, fun x => (hcounters x).1.trans (h.turned x),
    fun x => (hcounters x).2.trans (h.failed x)⟩

/-- A load that takes its turn counts where it has come to. -/
theorem Recorded.advance (h : s.Recorded) {n : Nat} {t : GroupLoad} {c d : Course}
    (ht : s.loads[n]? = some t) (hc : t.course = c) (htells : Tells s.group g c d)
    (hloads : g.coordinator.loads = s.group.coordinator.loads) :
    Recorded { s.on g with loads := s.loads.modify n fun t => { t with course := d } } := by
  subst hc
  obtain ⟨hwaited, hstarted, hturned, hfailed⟩ := h
  obtain ⟨hquiet, hcalls, herrors⟩ := htells
  have hcount (p : Course → Bool) :
      (s.loads.modify n fun t => { t with course := d }).countP (fun t => p t.course) + (p t.course).toNat =
        s.loads.countP (fun t => p t.course) + (p d).toNat :=
    countP_modify ht fun t => p t.course
  refine ⟨hquiet.misses.trans hwaited, ?_, fun x => ?_, fun x => ?_⟩
  · show g.coordinator.loads = (s.loads.modify n _).length
    rw [List.length_modify]
    exact hloads.trans hstarted
  · have hturn := hcount (Course.turnedTo x)
    have hcall := hcalls x
    have hbefore := hturned x
    show x.calls g.counters = (s.loads.modify n _).countP _
    omega
  · have hfail := hcount (Course.failedAt x)
    have herror := herrors x
    have hbefore := hfailed x
    show x.errors g.counters = (s.loads.modify n _).countP _
    omega

/-- A call is recorded if it waits, and its load if it is new. -/
theorem Recorded.get (h : s.Recorded) (caller : String) (m : Membership) (key : String) (now : Instant) :
    (s.enter caller key (s.group.get m key now)).Recorded := by
  obtain ⟨p, ⟨-, hcoordinator, hcounters, -⟩, ⟨v, hget, -⟩ | ⟨hget, -⟩⟩ := s.group.get_cases m key now
  · rw [hget]
    refine h.on ?_ (congrArg Coordinator.loads hcoordinator) fun x => ?_
    · show p.counters.misses = _
      rw [hcounters]
    · show x.calls { p.counters with hits := p.counters.hits + 1 } = _ ∧
        x.errors { p.counters with hits := p.counters.hits + 1 } = _
      rw [hcounters]
      cases x <;> exact ⟨rfl, rfl⟩
  · obtain ⟨h', n, started, hjoin, -, hjoined, hloads, -⟩ := p.countMiss.join_counts key (m.ownerOf key)
    rw [hget, hjoin]
    have hcounts : h'.counters = { s.group.counters with
        gets := s.group.counters.gets + 1, misses := s.group.counters.misses + 1 } := by
      rw [hjoined, Group.countMiss, hcounters]
    have hbefore : p.countMiss.coordinator.loads = s.group.coordinator.loads :=
      congrArg Coordinator.loads hcoordinator
    -- a new load is queued, so it has turned to no source
    have hqueued (q : Course → Bool) (hq : q .queued = false) :
        (s.loads ++ (started.map fun l => (⟨l, .queued⟩ : GroupLoad)).toList).countP (fun t => q t.course) =
          s.loads.countP fun t => q t.course := by
      rw [List.countP_append]
      cases started <;> simp [hq]
    refine ⟨?_, ?_, fun x => ?_, fun x => ?_⟩
    · show h'.counters.misses = (s.calls ++ [_]).length
      rw [hcounts, List.length_append, ← h.waited]
      rfl
    · show h'.coordinator.loads = (s.loads ++ (started.map _).toList).length
      rw [hloads, hbefore, h.started, List.length_append]
      cases started <;> rfl
    · refine (congrArg x.calls hcounts).trans (Eq.trans ?_ (hqueued (Course.turnedTo x) rfl).symm)
      cases x with
      | backfill => exact h.turned .backfill
      | owner => exact h.turned .owner
    · refine (congrArg x.errors hcounts).trans (Eq.trans ?_ (hqueued (Course.failedAt x) rfl).symm)
      cases x with
      | backfill => exact h.failed .backfill
      | owner => exact h.failed .owner

/-! ## Runs -/

/-- The counters add up, and are those of the records. -/
structure Balanced (s : Traffic) : Prop where
  even : s.group.Even
  flying : s.Flying
  recorded : s.Recorded

/-- What is neither a get nor a turn of a load. -/
theorem Balanced.on (h : s.Balanced) (hquiet : s.group.Quiet g)
    (hcoordinator : g.coordinator = s.group.coordinator)
    (hcounters : ∀ x : Source, x.calls g.counters = x.calls s.group.counters ∧
      x.errors g.counters = x.errors s.group.counters) : (s.on g).Balanced :=
  have hloads := congrArg Coordinator.loads hcoordinator
  ⟨h.even.quiet hquiet hloads (congrArg Coordinator.coalesced hcoordinator),
    h.flying.on hquiet.name hcoordinator, h.recorded.on hquiet.misses hloads hcounters⟩

theorem Balanced.get (h : s.Balanced) (caller : String) (m : Membership) (key : String) (now : Instant) :
    (s.enter caller key (s.group.get m key now)).Balanced := by
  refine ⟨?_, ?_, h.recorded.get caller m key now⟩
  · have heven := h.even.get m key now
    generalize s.group.get m key now = r at heven ⊢
    rcases r with ⟨g, o | ⟨n, started⟩⟩ <;> exact heven
  · obtain ⟨p, ⟨hname, hcoordinator, -, -⟩, ⟨v, hget, -⟩ | ⟨hget, -⟩⟩ := s.group.get_cases m key now
    · rw [hget]
      exact h.flying.on hname hcoordinator
    · rw [hget, ← s.enter_on p.countMiss]
      exact (h.flying.on (g := p.countMiss) hname hcoordinator).join caller key (m.ownerOf key)

theorem Balanced.advance (h : s.Balanced) (n : Nat) (turn : Turn) : (s.advance n turn).Balanced := by
  rcases s.advance_cases n turn with heq | ⟨t, g, c, ht, hstep, heq⟩
  · rw [heq]
    exact h
  · obtain ⟨htells, -, hflight⟩ := GroupLoad.advance?_cases hstep
    have hsame : g.coordinator.loads = s.group.coordinator.loads ∧
        g.coordinator.coalesced = s.group.coordinator.coalesced := by
      rcases hflight with ⟨-, heq⟩ | ⟨-, heq⟩ <;> rw [heq] <;> exact ⟨rfl, rfl⟩
    rw [heq]
    exact ⟨h.even.quiet htells.quiet hsame.1 hsame.2, h.flying.advance ht hstep,
      h.recorded.advance ht rfl htells hsame.1⟩

theorem Balanced.modify_call (h : s.Balanced) (i : Nat) (f : Call → Call) :
    Balanced { s with calls := s.calls.modify i f } := by
  obtain ⟨heven, ⟨hnext, hnumber, hsite⟩, ⟨hwaited, hstarted, hturned, hfailed⟩⟩ := h
  exact ⟨heven, ⟨hnext, hnumber, hsite⟩,
    ⟨hwaited.trans (List.length_modify ..).symm, hstarted, hturned, hfailed⟩⟩

theorem Balanced.step (h : s.Balanced) (e : Event) : (s.step e).Balanced := by
  have haccept (m : Membership) (key : String) : (s.step (.accept m key)).Balanced :=
    h.on ⟨rfl, rfl, rfl, rfl, fun _ => rfl⟩ rfl fun x => by cases x <;> exact ⟨rfl, rfl⟩
  cases e with
  | get caller m key now => exact h.get caller m key now
  | serve caller m key now =>
    rcases s.step_serve caller m key now with heq | heq
    · rw [heq]
      exact haccept m key
    · rw [heq]
      exact (haccept m key).get caller m key now
  | accept m key => exact haccept m key
  | turn n turn => exact h.advance n turn
  | receive i => exact h.modify_call i _
  | giveUp i => exact h.modify_call i _
  | set key v e now =>
    exact h.on (s.group.quiet_setWith key v e now) rfl fun x => by cases x <;> exact ⟨rfl, rfl⟩
  | remove key =>
    exact h.on (s.group.quiet_removeLocal key) rfl fun x => by cases x <;> exact ⟨rfl, rfl⟩
  | reconfigure c now =>
    exact h.on (s.group.quiet_reconfigure c now) rfl fun x => by cases x <;> exact ⟨rfl, rfl⟩

theorem balanced_run (c : GroupConfig) (es : List Event) : ((start c).run es).Balanced := by
  have hrun (s : Traffic) (hs : s.Balanced) : (s.run es).Balanced := by
    induction es generalizing s with
    | nil => exact hs
    | cons e es ih => exact ih _ (hs.step e)
  refine hrun (start c) ⟨Group.even_create c, ⟨rfl, nofun, nofun⟩, ⟨rfl, rfl, fun x => ?_, fun x => ?_⟩⟩
  · cases x <;> rfl
  · cases x <;> rfl

/-! ## What follows -/

/-- A source fails in some of the loads that turn to it. -/
theorem Recorded.errors_le (h : s.Recorded) (x : Source) :
    x.errors s.group.counters ≤ x.calls s.group.counters := by
  rw [h.turned, h.failed]
  refine List.countP_mono_left fun t _ hfailed => ?_
  exact (Bool.and_eq_true_iff.mp hfailed).1

/-- A load that has turned to a source has turned to one of the two. -/
theorem countP_sources (loads : List GroupLoad) (p : Course → Bool) :
    loads.countP (fun t => t.course.source?.isSome && p t.course) =
      loads.countP (fun t => t.course.turnedTo .backfill && p t.course) +
        loads.countP fun t => t.course.turnedTo .owner && p t.course := by
  refine countP_eq_add fun t _ => ?_
  unfold Course.turnedTo
  rcases t.course.source? with _ | _ | _ <;> simp

/-- A load turns to one source at most. -/
theorem Recorded.calls_le (h : s.Recorded) :
    Source.backfill.calls s.group.counters + Source.owner.calls s.group.counters ≤ s.group.coordinator.loads := by
  have hsources := countP_sources s.loads fun _ => true
  simp only [Bool.and_true] at hsources
  rw [h.turned, h.turned, h.started, ← hsources]
  exact List.countP_le_length

/-- With no flight left, every load has been released. -/
theorem Flying.released (h : s.Flying) (hidle : s.group.coordinator.inFlight = 0) :
    ∀ t ∈ s.loads, t.course.isReleased = true := by
  intro t ht
  by_contra hopen
  have hsite := h.site t ht (Bool.eq_false_iff.mpr hopen)
  rw [Coordinator.inFlight_eq] at hidle
  rw [List.length_eq_zero_iff.mp hidle] at hsite
  cases hsite

/-- If all loads have ended and none has panicked, a source has failed or has had a value. -/
theorem Recorded.served (h : s.Recorded) (hreleased : ∀ t ∈ s.loads, t.course.isReleased = true)
    (hcalm : ∀ t ∈ s.loads, t.course.isPanicked = false) (x : Source) :
    x.calls s.group.counters =
      x.errors s.group.counters + s.loads.countP fun t => t.course.servedBy x := by
  rw [h.turned, h.failed]
  refine countP_eq_add fun t ht => ?_
  have hr := hreleased t ht
  have hp := hcalm t ht
  unfold Course.failedAt Course.servedBy
  cases hc : t.course with
  | released y e =>
    rw [hc] at hp
    cases (Course.released y e).turnedTo x with
    | false => rfl
    | true => rcases e with (err | v) | _ <;> first | rfl | cases hp
  | queued | asking | fetching | ended =>
    rw [hc] at hr
    cases hr

/-- **The counters of a group add up**, in every state that callers, loads, writers and registrations can
bring it to, under whatever rings.  Every get is one lookup in a tier and a hit or a miss, every miss a call
that has started a load or joined one, and every load turns to one source at most.  When no load is in
flight and none has panicked, the loads that a source had a value for are those that turned to one and
did not fail.  The counts of loads and calls are those of the loads and calls on record. -/
theorem counters_add_up (c : GroupConfig) (es : List Event) :
    let s := (start c).run es
    let counters := s.group.counters
    let coordinator := s.group.coordinator
    let main := s.group.cache.main.tally
    let hot := s.group.cache.hot.tally
    counters.gets = counters.hits + counters.misses ∧
    counters.misses = coordinator.loads + coordinator.coalesced ∧
    counters.gets = main.hits + main.misses + hot.hits + hot.misses ∧
    main.hits + hot.hits ≤ counters.hits ∧
    counters.backfills + counters.peerFetches ≤ coordinator.loads ∧
    counters.backfillErrors ≤ counters.backfills ∧
    counters.peerFetchErrors ≤ counters.peerFetches ∧
    (coordinator.inFlight = 0 → (∀ t ∈ s.loads, t.course.isPanicked = false) →
      counters.backfills - counters.backfillErrors + (counters.peerFetches - counters.peerFetchErrors) =
        s.loads.countP fun t => t.course.isServed) ∧
    coordinator.loads = s.loads.length ∧ counters.misses = s.calls.length := by
  intro s counters coordinator main hot
  obtain ⟨⟨hgets, hlookups, htierHits, hmisses⟩, hflying, hrecorded⟩ := balanced_run c es
  have hbackfill := hrecorded.errors_le .backfill
  have howner := hrecorded.errors_le .owner
  refine ⟨hgets, hmisses, ?_, htierHits, hrecorded.calls_le, hbackfill, howner, fun hidle hcalm => ?_,
    hrecorded.started, hrecorded.waited⟩
  · have hsum (a b c d : Nat) : a + b + (c + d) = a + c + b + d := by omega
    exact hlookups.trans (hsum main.hits hot.hits main.misses hot.misses)
  · have hreleased := hflying.released hidle
    have hb : counters.backfills = counters.backfillErrors + _ := hrecorded.served hreleased hcalm .backfill
    have ho : counters.peerFetches = counters.peerFetchErrors + _ := hrecorded.served hreleased hcalm .owner
    have hadd : s.loads.countP (fun t => t.course.isServed) =
        s.loads.countP (fun t => t.course.servedBy .backfill) +
          s.loads.countP fun t => t.course.servedBy .owner :=
      countP_sources s.loads fun c => c.ending?.any Ending.isValue
    rw [hadd, hb, ho, Nat.add_sub_cancel_left, Nat.add_sub_cancel_left]

/-- A get that the backfill serves, and a second one that finds the value. -/
example :
    let m : Membership := ⟨⟨"a:1"⟩, ⟨1⟩, {}, Ring.build [⟨"a:1"⟩] 1⟩
    let s := (start { name := "users", backfill := some (.table []) }).run
      [.get "x" m "k" ⟨0⟩, .turn 0 (.begin m ⟨0⟩), .turn 0 (.answered (.value ⟨#[1]⟩) ⟨1⟩), .turn 0 .release,
        .get "y" m "k" ⟨2⟩]
    s.group.counters.gets = 2 ∧ s.group.counters.hits = 1 ∧ s.group.counters.backfills = 1 ∧
      s.group.coordinator.inFlight = 0 ∧ (s.loads.countP fun t => t.course.isServed) = 1 := by
  decide +kernel

end Traffic

end PeerCache
