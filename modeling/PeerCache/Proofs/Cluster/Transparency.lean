import Mathlib
import PeerCache.Proofs.Cluster.Basic
import PeerCache.Proofs.Coordinator.Flights
import PeerCache.Proofs.Group.Steps
import PeerCache.Proofs.Lists

/-!
# Read-through caching is transparent

If the sources of all nodes answer alike, by one function `f` of the key, and nobody sets a value,
then nothing in the cluster can tell the caches from `f`: whatever is held, was read or is on its
way under a key is what `f` says of that key (`Cluster.Inv`).

The invariant spans all nodes, both of their tiers, every load and every request.  It holds at the
start (`inv_start`) and each step keeps it (`step_inv`); steps are made of five changes of a cluster
(`Inv.modifyMember`, `Inv.setRequest`, `Inv.setLoad`, `Inv.addRequest`, `Inv.startLoad`), so a step
has to answer only for what it changes itself.

Main statement: `transparent`.
-/

namespace PeerCache

/-! ## Faithful answers -/

/-- What may be told of a key. -/
def Faithful (f : String → Answer) (key : String) : Outcome → Prop
  | .ok v => f key = .value v
  | .error (.itemNotFound _ k) => k = key ∧ f key = .missing
  | .error _ => True

namespace Ending

def Faithful (f : String → Answer) (key : String) : Ending → Prop
  | returned o => PeerCache.Faithful f key o
  | panicked => True

/-- An end that says nothing about the key. -/
def Failed : Ending → Prop
  | returned (.ok _) => False
  | returned (.error (.itemNotFound ..)) => False
  | _ => True

theorem Faithful.outcome {f : String → Answer} {key : String} {e : Ending} (h : e.Faithful f key)
    (group : String) : PeerCache.Faithful f key (e.outcome group key) := by
  cases e with
  | returned o => exact h
  | panicked => trivial

theorem Failed.faithful {e : Ending} (h : e.Failed) (f : String → Answer) (key : String) :
    e.Faithful f key := by
  rcases e with (err | v) | _
  · cases err <;> trivial
  · exact h.elim
  · trivial

/-- A load that asks a faithful source ends faithfully. -/
theorem faithful_settleBackfill (f : String → Answer) (g : Group) (l : Load)
    (expireAt : Option Instant) (now : Instant) :
    (g.settleBackfill l expireAt (f l.key) now).2.Faithful f l.key := by
  cases hf : f l.key with
  | value v => exact hf
  | missing => exact ⟨rfl, hf⟩
  | failed text => trivial
  | panicked => trivial

end Ending

/-- The source of a group, if it has one, answers like `f`. -/
def Sourced (f : String → Answer) (files : FileTree) (b : Option Backfill) : Prop :=
  ∀ source, b = some source → ∀ key, source.fetch files key = f key

namespace Cluster

variable {f : String → Answer} {trees : List FileTree} {s : Cluster}

/-! ## The invariant -/

/-- The source and both tiers of a node agree with `f`. -/
structure MemberOk (f : String → Answer) (m : Member) : Prop where
  sourced : Sourced f m.files m.group.settings.backfill
  holds : m.group.Holds fun key v => f key = .value v

/-- A load of the key has this number at this node. -/
def HasLoad (s : Cluster) (host number : Nat) (key : String) : Prop :=
  ∃ t ∈ s.loads, t.host = host ∧ t.load.number = number ∧ t.load.key = key

/-- Requests wait for loads of their own key, and their answers are faithful. -/
def RequestOk (f : String → Answer) (s : Cluster) (q : Request) : Prop :=
  match q.phase with
  | .waiting n => s.HasLoad q.host n q.key
  | .answered o => Faithful f q.key o
  | _ => True

/-- Loads ask for their own key, a faithful source or a node, and end faithfully. -/
def LoadOk (f : String → Answer) (s : Cluster) (t : LoadTask) : Prop :=
  match t.phase with
  | .asking source _ => ∀ m, s.members[t.host]? = some m → source.fetch m.files t.load.key = f t.load.key
  | .fetching _ _ (some r) => ∃ q, s.requests[r]? = some q ∧ q.key = t.load.key
  | .ended e | .released e => e.Faithful f t.load.key
  | _ => True

structure Inv (f : String → Answer) (trees : List FileTree) (s : Cluster) : Prop where
  files : ∀ (i : Nat) (m : Member), s.members[i]? = some m → trees[i]? = some m.files
  member : ∀ m ∈ s.members, MemberOk f m
  request : ∀ q ∈ s.requests, RequestOk f s q
  load : ∀ t ∈ s.loads, LoadOk f s t
  /-- Whoever joins a flight joins a load of its key. -/
  site : ∀ i m, s.members[i]? = some m → ∀ n group key,
    (n, group, key) ∈ m.group.coordinator.sites → s.HasLoad i n key
  /-- Numbers of loads are given out once at each node. -/
  fresh : ∀ t ∈ s.loads, ∀ m, s.members[t.host]? = some m →
    t.load.number < m.group.coordinator.nextLoad
  unique : ∀ t ∈ s.loads, ∀ u ∈ s.loads, t.host = u.host → t.load.number = u.load.number →
    t.load.key = u.load.key

/-! ## What no step takes back -/

/-- Requests and loads only come further, and files stay. -/
structure Grows (s u : Cluster) : Prop where
  requests : ∀ (r : Nat) (q : Request), s.requests[r]? = some q →
    ∃ p, u.requests[r]? = some { q with phase := p }
  loads : ∀ t ∈ s.loads, ∃ p, { t with phase := p } ∈ u.loads
  files : ∀ (i : Nat) (m : Member), u.members[i]? = some m →
    ∃ a, s.members[i]? = some a ∧ m.files = a.files

theorem HasLoad.mono {u : Cluster} (hu : Grows s u) {i n : Nat} {key : String}
    (h : s.HasLoad i n key) : u.HasLoad i n key := by
  obtain ⟨t, ht, hi, hn, hk⟩ := h
  obtain ⟨p, hp⟩ := hu.loads t ht
  exact ⟨_, hp, hi, hn, hk⟩

theorem RequestOk.mono {u : Cluster} (hu : Grows s u) {q : Request} (h : RequestOk f s q) :
    RequestOk f u q := by
  unfold RequestOk at h ⊢
  split
  · next n hp =>
    rw [hp] at h
    exact h.mono hu
  · next o hp =>
    rw [hp] at h
    exact h
  · trivial

theorem LoadOk.mono {u : Cluster} (hu : Grows s u) {t : LoadTask} (h : LoadOk f s t) :
    LoadOk f u t := by
  unfold LoadOk at h ⊢
  split
  · next source x hp =>
    rw [hp] at h
    intro m hm
    obtain ⟨a, ha, hf⟩ := hu.files _ m hm
    rw [hf]
    exact h a ha
  · next owner x r hp =>
    rw [hp] at h
    obtain ⟨q, hq, hk⟩ := h
    obtain ⟨p, hr⟩ := hu.requests r q hq
    exact ⟨_, hr, hk⟩
  · next e hp =>
    rw [hp] at h
    exact h
  · next e hp =>
    rw [hp] at h
    exact h
  · trivial

theorem grows_modifyMember {i : Nat} {u : Member → Member}
    (hu : ∀ m, s.members[i]? = some m → (u m).files = m.files) :
    Grows s { s with members := s.members.modify i u } := by
  refine ⟨fun r q hq => ⟨q.phase, hq⟩, fun t ht => ⟨t.phase, ht⟩, ?_⟩
  intro j m hm
  obtain ⟨a, ha, rfl⟩ := getElem?_modify_eq_some.mp hm
  refine ⟨a, ha, ?_⟩
  split
  · next hi => subst hi; exact hu a ha
  · rfl

theorem grows_setGroup (s : Cluster) (i : Nat) (g : Group) : Grows s (s.setGroup i g) :=
  grows_modifyMember fun _ _ => rfl

theorem grows_setRequest (s : Cluster) (r : Nat) (p : RequestPhase) :
    Grows s (s.setRequest r p) := by
  refine ⟨?_, fun t ht => ⟨t.phase, ht⟩, fun i m hm => ⟨m, hm, rfl⟩⟩
  intro j q hq
  refine ⟨if r = j then p else q.phase, getElem?_modify_eq_some.mpr ⟨q, hq, ?_⟩⟩
  split <;> rfl

theorem grows_setLoad (s : Cluster) (n : Nat) (p : LoadPhase) : Grows s (s.setLoad n p) := by
  refine ⟨fun r q hq => ⟨q.phase, hq⟩, ?_, fun i m hm => ⟨m, hm, rfl⟩⟩
  intro t ht
  obtain ⟨j, hj⟩ := List.mem_iff_getElem?.mp ht
  refine ⟨if n = j then p else t.phase, List.mem_of_getElem? (i := j)
    (getElem?_modify_eq_some.mpr ⟨t, hj, ?_⟩)⟩
  split <;> rfl

theorem grows_addRequest (s : Cluster) (q : Request) : Grows s (s.addRequest q) :=
  ⟨fun _ p hp => ⟨p.phase, getElem?_concat_eq_some.mpr (.inl hp)⟩, fun t ht => ⟨t.phase, ht⟩,
    fun _ m hm => ⟨m, hm, rfl⟩⟩

/-! ## Five changes -/

/-- A node changes: it stays faithful, and its flights and numbers are still those of its loads. -/
theorem Inv.modifyMember (h : Inv f trees s) {i : Nat} {u : Member → Member}
    (hu : ∀ m, s.members[i]? = some m → MemberOk f (u m) ∧ (u m).files = m.files ∧
      (∀ x ∈ (u m).group.coordinator.sites, x ∈ m.group.coordinator.sites) ∧
      m.group.coordinator.nextLoad ≤ (u m).group.coordinator.nextLoad) :
    Inv f trees { s with members := s.members.modify i u } := by
  have hg : Grows s { s with members := s.members.modify i u } :=
    grows_modifyMember fun m hm => (hu m hm).2.1
  refine ⟨?_, ?_, fun q hq => (h.request q hq).mono hg, fun t ht => (h.load t ht).mono hg, ?_, ?_, h.unique⟩
  · intro j m hm
    obtain ⟨a, ha, hf⟩ := hg.files j m hm
    rw [hf]
    exact h.files j a ha
  · intro m hm
    rcases mem_modify hm with hm | ⟨a, ha, rfl⟩
    · exact h.member m hm
    · exact (hu a ha).1
  · intro j m hm n group key hsite
    obtain ⟨a, ha, rfl⟩ := getElem?_modify_eq_some.mp hm
    split at hsite
    · next hi =>
      subst hi
      exact h.site i a ha n group key ((hu a ha).2.2.1 _ hsite)
    · exact h.site j a ha n group key hsite
  · intro t ht m hm
    obtain ⟨a, ha, rfl⟩ := getElem?_modify_eq_some.mp hm
    have hlt := h.fresh t ht a ha
    split
    · next hi =>
      subst hi
      exact Nat.lt_of_lt_of_le hlt (hu a ha).2.2.2
    · exact hlt

/-- A request comes further. -/
theorem Inv.setRequest (h : Inv f trees s) {r : Nat} {p : RequestPhase}
    (hq : ∀ q, s.requests[r]? = some q → RequestOk f s { q with phase := p }) :
    Inv f trees (s.setRequest r p) := by
  have hg := grows_setRequest s r p
  refine ⟨h.files, h.member, ?_, fun t ht => (h.load t ht).mono hg, h.site, h.fresh, h.unique⟩
  intro q' hq'
  rcases mem_modify hq' with hm | ⟨q, hm, rfl⟩
  · exact (h.request q' hm).mono hg
  · exact (hq q hm).mono hg

/-- A load comes further. -/
theorem Inv.setLoad (h : Inv f trees s) {n : Nat} {p : LoadPhase}
    (ht : ∀ t, s.loads[n]? = some t → LoadOk f s { t with phase := p }) : Inv f trees (s.setLoad n p) := by
  have hg := grows_setLoad s n p
  have hsame : ∀ t' ∈ (s.setLoad n p).loads, ∃ t ∈ s.loads, t'.host = t.host ∧ t'.load = t.load := by
    intro t' ht'
    rcases mem_modify ht' with hm | ⟨t, hm, rfl⟩
    · exact ⟨t', hm, rfl, rfl⟩
    · exact ⟨t, List.mem_of_getElem? hm, rfl, rfl⟩
  refine ⟨h.files, h.member, fun q hq => (h.request q hq).mono hg, ?_,
    fun i m hm k group key hs => (h.site i m hm k group key hs).mono hg, ?_, ?_⟩
  · intro t' ht'
    rcases mem_modify ht' with hm | ⟨t, hm, rfl⟩
    · exact (h.load t' hm).mono hg
    · exact (ht t hm).mono hg
  · intro t' ht' m hm
    obtain ⟨t, htm, hh, hl⟩ := hsame t' ht'
    rw [hh] at hm
    rw [hl]
    exact h.fresh t htm m hm
  · intro t' ht' u' hu' hh hn
    obtain ⟨t, htm, hth, htl⟩ := hsame t' ht'
    obtain ⟨u, hum, huh, hul⟩ := hsame u' hu'
    rw [htl, hul] at hn ⊢
    exact h.unique t htm u hum (by rw [← hth, ← huh, hh]) hn

/-- A new request. -/
theorem Inv.addRequest (h : Inv f trees s) {q : Request} (hq : RequestOk f s q) :
    Inv f trees (s.addRequest q) := by
  have hg := grows_addRequest s q
  refine ⟨h.files, h.member, ?_, fun t ht => (h.load t ht).mono hg, h.site, h.fresh, h.unique⟩
  intro q' hq'
  rcases List.mem_append.mp hq' with hm | hm
  · exact (h.request q' hm).mono hg
  · rw [List.mem_singleton.mp hm]
    exact hq.mono hg

/-- The nodes after the group of one has changed. -/
theorem member_setGroup {i j : Nat} {m a : Member} {g : Group} (hm : s.members[i]? = some m)
    (ha : (s.setGroup i g).members[j]? = some a) :
    (j = i ∧ a = { m with group := g }) ∨ (j ≠ i ∧ s.members[j]? = some a) := by
  obtain ⟨b, hb, rfl⟩ := getElem?_modify_eq_some.mp ha
  by_cases hj : i = j
  · subst hj
    obtain rfl := eq_of_getElem? hm hb
    exact .inl ⟨rfl, if_pos rfl⟩
  · rw [if_neg hj]
    exact .inr ⟨fun e => hj e.symm, hb⟩

/-- A new load, under the number of the flight that was made for it. -/
theorem Inv.startLoad (h : Inv f trees s) {i : Nat} {m : Member} (hm : s.members[i]? = some m)
    {c : Coordinator} {l : Load} {group : String} (hl : l.number = m.group.coordinator.nextLoad)
    (hs : c.sites = (l.number, group, l.key) :: m.group.coordinator.sites)
    (hn : c.nextLoad = m.group.coordinator.nextLoad + 1) :
    Inv f trees ((s.setGroup i { m.group with coordinator := c }).addLoad { host := i, load := l }) := by
  have hg : Grows s ((s.setGroup i { m.group with coordinator := c }).addLoad { host := i, load := l }) := by
    have hmod := grows_setGroup s i { m.group with coordinator := c }
    exact ⟨hmod.requests, fun t ht => ⟨t.phase, List.mem_append_left _ ht⟩, hmod.files⟩
  refine ⟨?_, ?_, fun q hq => (h.request q hq).mono hg, ?_, ?_, ?_, ?_⟩
  · intro j a' ha'
    obtain ⟨a, ha, hf⟩ := hg.files j a' ha'
    rw [hf]
    exact h.files j a ha
  · intro a' ha'
    obtain ⟨j, hj⟩ := List.mem_iff_getElem?.mp ha'
    rcases member_setGroup hm hj with ⟨rfl, rfl⟩ | ⟨-, ha⟩
    · have hok := h.member m (List.mem_of_getElem? hm)
      exact ⟨hok.sourced, hok.holds.congr rfl⟩
    · exact h.member a' (List.mem_of_getElem? ha)
  · intro t ht
    rcases List.mem_append.mp ht with ht | ht
    · exact (h.load t ht).mono hg
    · rw [List.mem_singleton.mp ht]
      trivial
  · intro j a' ha' n g key hsite
    rcases member_setGroup hm ha' with ⟨rfl, rfl⟩ | ⟨-, ha⟩
    · replace hsite : (n, g, key) ∈ c.sites := hsite
      rw [hs, List.mem_cons] at hsite
      rcases hsite with he | hsite
      · cases he
        exact ⟨_, List.mem_append_right _ (List.mem_singleton_self _), rfl, rfl, rfl⟩
      · exact (h.site j m hm n g key hsite).mono hg
    · exact (h.site j a' ha n g key hsite).mono hg
  · intro t ht a' ha'
    rcases List.mem_append.mp ht with ht | ht
    · rcases member_setGroup hm ha' with ⟨hi, rfl⟩ | ⟨-, ha⟩
      · have hlt := h.fresh t ht m (by rw [hi]; exact hm)
        show t.load.number < c.nextLoad
        omega
      · exact h.fresh t ht a' ha
    · rw [List.mem_singleton.mp ht] at ha' ⊢
      rcases member_setGroup hm ha' with ⟨-, rfl⟩ | ⟨hi, -⟩
      · show l.number < c.nextLoad
        omega
      · exact absurd rfl hi
  · intro t ht u hu hh hnum
    have hnew : ∀ t ∈ s.loads, t.host = i → t.load.number ≠ l.number := by
      intro t ht hi
      have hlt := h.fresh t ht m (by rw [hi]; exact hm)
      omega
    rcases List.mem_append.mp ht with ht | ht
    · rcases List.mem_append.mp hu with hu | hu
      · exact h.unique t ht u hu hh hnum
      · rw [List.mem_singleton.mp hu] at hh hnum
        exact absurd hnum (hnew t ht hh)
    · rw [List.mem_singleton.mp ht] at hh hnum ⊢
      rcases List.mem_append.mp hu with hu | hu
      · exact absurd hnum.symm (hnew u hu hh.symm)
      · rw [List.mem_singleton.mp hu]

/-! ## Every step keeps the invariant -/

/-- A group changes, but has no new flights. -/
theorem Inv.setGroup (h : Inv f trees s) {i : Nat} {m : Member} (hm : s.members[i]? = some m) {g : Group}
    (hset : g.settings = m.group.settings) (hg : g.Holds fun key v => f key = .value v)
    (hs : ∀ x ∈ g.coordinator.sites, x ∈ m.group.coordinator.sites)
    (hn : m.group.coordinator.nextLoad ≤ g.coordinator.nextLoad) : Inv f trees (s.setGroup i g) := by
  apply h.modifyMember
  intro a ha
  obtain rfl := eq_of_getElem? hm ha
  have hok := h.member a (List.mem_of_getElem? ha)
  refine ⟨⟨?_, hg⟩, rfl, hs, hn⟩
  show Sourced f a.files g.settings.backfill
  rw [hset]
  exact hok.sourced

/-- A group changes nothing but its entries and counters. -/
theorem Inv.setAside (h : Inv f trees s) {i : Nat} {m : Member} (hm : s.members[i]? = some m) {g : Group}
    (ha : Group.Aside m.group g) (hg : g.Holds fun key v => f key = .value v) :
    Inv f trees (s.setGroup i g) :=
  h.setGroup hm ha.settings hg (fun x hx => by rwa [ha.coordinator] at hx) (by rw [ha.coordinator])

theorem Inv.holds (h : Inv f trees s) {i : Nat} {m : Member} (hm : s.members[i]? = some m) :
    m.group.Holds fun key v => f key = .value v :=
  (h.member m (List.mem_of_getElem? hm)).holds

theorem Inv.advance (h : Inv f trees s) {r : Nat} {now : Instant} {u : Cluster}
    (hu : s.advance? r now = some u) : Inv f trees u := by
  simp only [advance?, Option.bind_eq_bind, Option.bind_eq_some_iff, Option.some.injEq] at hu
  obtain ⟨q, hq, m, hm, ⟨g, p, started⟩, hadv, rfl⟩ := hu
  -- a request that comes further without a load
  have hplain {g : Group} {p : RequestPhase} (ha : Group.Aside m.group g)
      (hg : g.Holds fun key v => f key = .value v) (hp : RequestOk f s { q with phase := p }) :
      Inv f trees ((s.setGroup q.host g).setRequest r p) := by
    apply (h.setAside hm ha hg).setRequest
    intro q' hq'
    obtain rfl := eq_of_getElem? hq hq'
    exact hp.mono (grows_setGroup ..)
  unfold Member.advance? at hadv
  split at hadv
  · obtain ⟨ha, hc⟩ := Group.accept_aside m.group m.membership q.key
    have hg := (h.holds hm).congr hc
    split at hadv
    · next he =>
      rw [he] at ha hg
      cases hadv
      exact hplain ha hg trivial
    · next e he =>
      have herr := Group.accept_eq_some (congrArg Prod.snd he)
      rw [he] at ha hg
      cases hadv
      subst herr
      exact hplain ha hg trivial
  · cases hadv
    exact hplain ⟨rfl, rfl, rfl⟩ ((h.holds hm).congr rfl) trivial
  · next owner _ =>
    have ha := m.group.probe_aside (Group.home (m.membership.isLocal owner)) q.key now
    obtain ⟨hg, hv⟩ := (h.holds hm).probe (Group.home (m.membership.isLocal owner)) q.key now
    split at hadv
    · next v he =>
      rw [he] at ha hg hv
      cases hadv
      exact hplain ⟨ha.name, ha.settings, ha.coordinator⟩ (hg.congr rfl) (hv v rfl)
    · next he =>
      rw [he] at ha hg
      split at hadv
      · cases hadv
        exact hplain ⟨ha.name, ha.settings, ha.coordinator⟩ (hg.congr rfl) trivial
      · cases hadv
        exact hplain ha hg trivial
  · split at hadv
    · next v he =>
      cases hadv
      exact hplain ⟨rfl, rfl, rfl⟩ ((h.holds hm).congr rfl) ((h.holds hm).glance he)
    · cases hadv
      exact hplain ⟨rfl, rfl, rfl⟩ ((h.holds hm).congr rfl) trivial
  · next owner _ =>
    rcases m.group.join_cases q.key owner with ⟨c, n, hj, hn, hs, hnext⟩ | ⟨c, n, hj, rfl, -, hs, hnext⟩
    · rw [hj] at hadv
      cases hadv
      have hset := h.setGroup hm (g := { m.group with coordinator := c }) rfl ((h.holds hm).congr rfl)
        (fun x hx => by rwa [← hs]) (Nat.le_of_eq hnext.symm)
      apply hset.setRequest
      intro q' hq'
      obtain rfl := eq_of_getElem? hq hq'
      exact h.site _ m hm n m.group.name _ hn
    · rw [hj] at hadv
      cases hadv
      have hstart := h.startLoad hm (l := ⟨m.group.coordinator.nextLoad, q.key, owner⟩) rfl hs hnext
      show Inv f trees ((addLoad _ _).setRequest r (.waiting m.group.coordinator.nextLoad))
      apply hstart.setRequest
      intro q' hq'
      obtain rfl := eq_of_getElem? hq hq'
      exact ⟨_, List.mem_append_right _ (List.mem_singleton_self _), rfl, rfl, rfl⟩
  · cases hadv

theorem Inv.hear (h : Inv f trees s) {r : Nat} {u : Cluster} (hu : s.hear? r = some u) :
    Inv f trees u := by
  simp only [hear?, Option.bind_eq_bind, Option.bind_eq_some_iff] at hu
  obtain ⟨q, hq, hu⟩ := hu
  split at hu
  · next n hp =>
    simp only [Option.bind_eq_some_iff] at hu
    obtain ⟨m, hm, t, ht, hu⟩ := hu
    split at hu
    · next e hrel =>
      cases hu
      apply h.setRequest
      intro q' hq'
      obtain rfl := eq_of_getElem? hq hq'
      -- the load found is the one the request waits for, as numbers are given out once
      have htm : t ∈ s.loads := List.mem_of_find?_eq_some ht
      have hnum : t.host = q'.host ∧ t.load.number = n := by
        simpa using List.find?_some (p := fun t : LoadTask => t.host == q'.host && t.load.number == n) ht
      have hwait := h.request q' (List.mem_of_getElem? hq)
      unfold RequestOk at hwait
      rw [hp] at hwait
      obtain ⟨t', ht', hhost, hnumber, hkey⟩ := hwait
      have hk := h.unique t htm t' ht' (hnum.1.trans hhost.symm) (hnum.2.trans hnumber.symm)
      have hend := h.load t htm
      unfold LoadOk at hend
      rw [hrel] at hend
      show Faithful f q'.key (e.outcome m.group.name t.load.key)
      rw [← hkey, ← hk]
      exact Ending.Faithful.outcome hend m.group.name
    · cases hu
  · cases hu

theorem Inv.abandon (h : Inv f trees s) {r : Nat} {u : Cluster} (hu : s.abandon? r = some u) :
    Inv f trees u := by
  simp only [abandon?, Option.bind_eq_bind, Option.bind_eq_some_iff] at hu
  obtain ⟨q, -, hu⟩ := hu
  split at hu
  · cases hu
    exact h.setRequest fun _ _ => trivial
  · cases hu

/-- A load comes further, and the group with it. -/
theorem Inv.workOn {n : Nat} {t : LoadTask} (ht : s.loads[n]? = some t) {g : Group}
    {p : LoadPhase} (hset : Inv f trees (s.setGroup t.host g)) (hp : LoadOk f s { t with phase := p }) :
    Inv f trees ((s.setGroup t.host g).setLoad n p) := by
  apply hset.setLoad
  intro t' ht'
  obtain rfl := eq_of_getElem? ht ht'
  exact hp.mono (grows_setGroup ..)

theorem Inv.work (h : Inv f trees s) {n : Nat} {now : Instant} {u : Cluster}
    (hu : s.work? n now = some u) : Inv f trees u := by
  simp only [work?, Option.bind_eq_bind, Option.bind_eq_some_iff, Option.some.injEq] at hu
  obtain ⟨t, ht, m, hm, ⟨g, p⟩, hwork, rfl⟩ := hu
  have hok := h.member m (List.mem_of_getElem? hm)
  have hload := h.load t (List.mem_of_getElem? ht)
  unfold Member.work? at hwork
  unfold LoadOk at hload
  split at hwork
  · obtain ⟨ha, hc, hcases⟩ := m.group.beginLoad_cases m.membership t.load now
    have hg := hok.holds.congr hc
    generalize m.group.beginLoad m.membership t.load now = b at ha hg hwork hcases
    obtain ⟨g', step⟩ := b
    rcases hcases with ⟨e, -, hpeek, rfl⟩ | ⟨-, -, rfl⟩ | ⟨source, -, hsource, rfl⟩ | ⟨-, rfl⟩
    · cases hwork
      exact Inv.workOn ht (h.setAside hm ha hg) (hok.holds.main.peek hpeek)
    · cases hwork
      exact Inv.workOn ht (h.setAside hm ha hg) trivial
    · cases hwork
      refine Inv.workOn ht (h.setAside hm ha hg) ?_
      intro a hia
      obtain rfl := eq_of_getElem? hm hia
      exact hok.sourced source hsource t.load.key
    · cases hwork
      exact Inv.workOn ht (h.setAside hm ha hg) trivial
  · next source expireAt hp =>
    rw [hp] at hload
    have hf := hload m hm
    rw [hf] at hwork
    have ha := m.group.settleBackfill_aside t.load expireAt (f t.load.key) now
    have hg : (m.group.settleBackfill t.load expireAt (f t.load.key) now).1.Holds
        fun key v => f key = .value v := hok.holds.settleBackfill fun v hv => hv
    have he := Ending.faithful_settleBackfill f m.group t.load expireAt now
    cases hwork
    exact Inv.workOn ht (h.setAside hm ha hg) he
  · next e hp =>
    rw [hp] at hload
    cases hwork
    have hset := h.setGroup hm (g := m.group.release t.load) rfl (hok.holds.congr rfl)
      (fun x hx => (Coordinator.mem_sites_drop.mp hx).1) (Nat.le_refl _)
    exact Inv.workOn ht hset hload
  · cases hwork

theorem Inv.endFetch (h : Inv f trees s) {n : Nat} {e : Ending} {now : Instant} {u : Cluster}
    (he : ∀ t, s.loads[n]? = some t → e.Faithful f t.load.key) (hu : s.endFetch? n e now = some u) :
    Inv f trees u := by
  simp only [endFetch?, Option.bind_eq_bind, Option.bind_eq_some_iff, Option.some.injEq] at hu
  obtain ⟨t, ht, m, hm, ⟨g, p⟩, hsettle, rfl⟩ := hu
  unfold Member.settle? at hsettle
  split at hsettle
  · next owner expireAt r hp =>
    have hfaith := he t ht
    have ha := m.group.settleFetch_aside t.load expireAt e now
    have hend := m.group.settleFetch_ending t.load expireAt e now
    have hg : (m.group.settleFetch t.load expireAt e now).1.Holds fun key v => f key = .value v := by
      apply (h.holds hm).settleFetch
      rintro v rfl
      exact hfaith
    generalize m.group.settleFetch t.load expireAt e now = b at ha hend hg hsettle
    obtain ⟨g', e'⟩ := b
    obtain rfl : e' = e := hend
    cases hsettle
    exact Inv.workOn ht (h.setAside hm ha hg) hfaith
  · cases hsettle

theorem Inv.deliver (h : Inv f trees s) {n j : Nat} {u : Cluster} (hu : s.deliver? n j = some u) :
    Inv f trees u := by
  simp only [deliver?, Option.bind_eq_bind, Option.bind_eq_some_iff] at hu
  obtain ⟨t, ht, m, -, hu⟩ := hu
  split at hu
  · next owner expireAt hp =>
    split at hu
    · cases hu
      have hadd : Inv f trees (s.addRequest ⟨j, t.load.key, true, .arrived⟩) := h.addRequest trivial
      show Inv f trees ((s.addRequest ⟨j, t.load.key, true, .arrived⟩).setLoad n
        (.fetching owner expireAt (some s.requests.length)))
      apply hadd.setLoad
      intro t' ht'
      obtain rfl := eq_of_getElem? ht ht'
      exact ⟨_, getElem?_concat_eq_some.mpr (.inr ⟨rfl, rfl⟩), rfl⟩
    · cases hu
  · cases hu

theorem Inv.respond (h : Inv f trees s) {n : Nat} {now : Instant} {u : Cluster}
    (hu : s.respond? n now = some u) : Inv f trees u := by
  simp only [respond?, Option.bind_eq_bind, Option.bind_eq_some_iff] at hu
  obtain ⟨t, ht, hu⟩ := hu
  split at hu
  · next owner expireAt r hp =>
    simp only [Option.bind_eq_some_iff] at hu
    obtain ⟨q, hq, hu⟩ := hu
    split at hu
    · next o ho =>
      refine h.endFetch ?_ hu
      intro t' ht'
      obtain rfl := eq_of_getElem? ht ht'
      -- the request at the other node has the key of the load, and a faithful answer
      have hload := h.load t' (List.mem_of_getElem? ht)
      unfold LoadOk at hload
      rw [hp] at hload
      obtain ⟨q', hq', hkey⟩ := hload
      obtain rfl := eq_of_getElem? hq hq'
      have hans := h.request q' (List.mem_of_getElem? hq)
      unfold RequestOk at hans
      rw [ho] at hans
      rw [← hkey]
      exact hans
    · cases hu
  · cases hu

theorem Inv.removeLocal (h : Inv f trees s) {i : Nat} {key : String} {u : Cluster}
    (hu : s.removeLocal? i key = some u) : Inv f trees u := by
  simp only [removeLocal?, Option.bind_eq_bind, Option.bind_eq_some_iff, Option.some.injEq] at hu
  obtain ⟨m, hm, rfl⟩ := hu
  exact h.setAside hm (m.group.removeLocal_aside key) ((h.holds hm).removeLocal key)

/-- Removals on their way hold nothing. -/
theorem Inv.removals (h : Inv f trees s) (ms : List (Peer × String)) :
    Inv f trees { s with removals := ms } :=
  ⟨h.files, h.member, h.request, h.load, h.site, h.fresh, h.unique⟩

theorem Inv.remove (h : Inv f trees s) {i : Nat} {key : String} {u : Cluster}
    (hu : s.remove? i key = some u) : Inv f trees u := by
  simp only [remove?, Option.bind_eq_bind, Option.bind_eq_some_iff, Option.some.injEq] at hu
  obtain ⟨m, -, v, hv, rfl⟩ := hu
  exact (h.removeLocal hv).removals _

theorem Inv.deliverRemoval (h : Inv f trees s) {d j : Nat} {u : Cluster}
    (hu : s.deliverRemoval? d j = some u) : Inv f trees u := by
  simp only [deliverRemoval?, Option.bind_eq_bind, Option.bind_eq_some_iff] at hu
  obtain ⟨⟨p, key⟩, -, m, -, hu⟩ := hu
  split at hu
  · exact (h.removals (s.removals.eraseIdx d)).removeLocal hu
  · cases hu

/-- A new ring touches no group. -/
theorem Inv.setPeers (h : Inv f trees s) (i : Nat) (addrs : List String) :
    Inv f trees { s with members := s.members.modify i (·.setPeers addrs) } := by
  apply h.modifyMember
  intro m hm
  have hok := h.member m (List.mem_of_getElem? hm)
  unfold Member.setPeers
  split
  · exact ⟨⟨hok.sourced, hok.holds⟩, rfl, fun x hx => hx, Nat.le_refl _⟩
  · exact ⟨hok, rfl, fun x hx => hx, Nat.le_refl _⟩

/-- A group that is registered again gets a source that answers like `f`, and its tiers keep what fits. -/
theorem Inv.register (h : Inv f trees s) {i : Nat} {c : GroupConfig} {now : Instant}
    (hc : ∀ m, s.members[i]? = some m → Sourced f m.files c.backfill) :
    Inv f trees { s with members := s.members.modify i (·.register c now) } := by
  apply h.modifyMember
  intro m hm
  have hok := h.member m (List.mem_of_getElem? hm)
  unfold Member.register
  split
  · split
    · exact ⟨⟨hc m hm, hok.holds.reconfigure c now⟩, rfl, fun x hx => hx, Nat.le_refl _⟩
    · exact ⟨hok, rfl, fun x hx => hx, Nat.le_refl _⟩
  · exact ⟨hok, rfl, fun x hx => hx, Nat.le_refl _⟩

/-- What may happen: nobody sets a value, every configuration has a source that answers like `f`
where it is registered, and the transport has no answers of its own. -/
def Event.Quiet (f : String → Answer) (trees : List FileTree) : Event → Prop
  | .set .. => False
  | .endFetch _ e _ => e.Failed
  | .register i c _ => ∀ files, trees[i]? = some files → Sourced f files c.backfill
  | _ => True

theorem step_inv (h : Inv f trees s) {e : Event} (he : e.Quiet f trees) {u : Cluster}
    (hu : s.step? e = some u) : Inv f trees u := by
  cases e with
  | get i key => cases hu; exact h.addRequest trivial
  | serve i key => cases hu; exact h.addRequest trivial
  | advance r now => exact h.advance hu
  | hear r => exact h.hear hu
  | abandon r => exact h.abandon hu
  | work n now => exact h.work hu
  | deliver n j => exact h.deliver hu
  | respond n now => exact h.respond hu
  | endFetch n e now => exact h.endFetch (fun t _ => he.faithful f t.load.key) hu
  | remove i key => exact h.remove hu
  | removeLocal i key => exact h.removeLocal hu
  | deliverRemoval d j => exact h.deliverRemoval hu
  | loseRemoval d => cases hu; exact h.removals _
  | set i key v e now => exact he.elim
  | setPeers i addrs => cases hu; exact h.setPeers i addrs
  | register i c now => cases hu; exact h.register fun m hm => he m.files (h.files i m hm)

theorem run_inv (h : Inv f trees s) {es : List Event} (he : ∀ e ∈ es, e.Quiet f trees) :
    Inv f trees (s.run es) := by
  induction es generalizing s with
  | nil => exact h
  | cons e es ih =>
    rw [List.forall_mem_cons] at he
    show Inv f trees (((s.step? e).getD s).run es)
    cases hu : s.step? e with
    | none => exact ih h he.2
    | some u => exact ih (step_inv h he.1 hu) he.2

theorem inv_start {founders : List Founder} (h : ∀ a ∈ founders, Sourced f a.files a.config.backfill) :
    Inv f (founders.map (·.files)) (start founders) := by
  refine ⟨?_, ?_, by simp [start], by simp [start], ?_, by simp [start], by simp [start]⟩
  · intro i m hm
    simp only [start, List.getElem?_map, Option.map_eq_some_iff] at hm
    obtain ⟨a, ha, rfl⟩ := hm
    rw [List.getElem?_map, ha]
    rfl
  · intro m hm
    obtain ⟨a, ha, rfl⟩ := List.mem_map.mp hm
    exact ⟨h a ha, Group.holds_create _ a.config⟩
  · intro i m hm n group key hs
    obtain ⟨a, ha, rfl⟩ := List.mem_map.mp (List.mem_of_getElem? hm)
    cases hs

/-- **Read-through caching is transparent.**  In a cluster whose sources answer by `f`, after every
sequence of quiet events: whatever a tier of a node holds under a key is the value `f` gives it, a
get or a request of a peer that is answered with a value is answered with that one, and it is told
that a key does not exist only if `f` says so. -/
theorem transparent (f : String → Answer) (founders : List Founder) (es : List Event)
    (hsource : ∀ a ∈ founders, Sourced f a.files a.config.backfill)
    (hquiet : ∀ e ∈ es, e.Quiet f (founders.map (·.files))) :
    let s := (start founders).run es
    (∀ m ∈ s.members, ∀ kind, ∀ x ∈ (m.group.cache.tier kind).slots,
      f x.key = .value x.entry.value) ∧
    (∀ q ∈ s.requests, ∀ v, q.phase = .answered (.ok v) → f q.key = .value v) ∧
    ∀ q ∈ s.requests, ∀ group key, q.phase = .answered (.error (.itemNotFound group key)) →
      key = q.key ∧ f q.key = .missing := by
  intro s
  have h : Inv f (founders.map (·.files)) s := run_inv (inv_start hsource) hquiet
  have hanswer : ∀ q ∈ s.requests, ∀ o, q.phase = .answered o → Faithful f q.key o := by
    intro q hq o ho
    have hok := h.request q hq
    unfold RequestOk at hok
    rw [ho] at hok
    exact hok
  refine ⟨?_, fun q hq v hv => hanswer q hq _ hv, fun q hq group key hk => hanswer q hq _ hk⟩
  intro m hm kind x hx
  exact ((h.member m hm).holds.tier kind).all x hx

/-- Two nodes on one ring, and one table behind both; the first node owns `2`, the other one `1` and `x`. -/
def twoNodes : List Founder :=
  ["a:1", "b:1"].map fun addr =>
    { membership := ⟨⟨addr⟩, ⟨2⟩, {}, Ring.build [⟨"a:1"⟩, ⟨"b:1"⟩] 2⟩,
      config := { name := "g", backfill := some (.table [("1", ⟨#[1]⟩), ("2", ⟨#[2]⟩)]) } }

/-- The first node reads its own key and one of the other node, which has it from its source. -/
def readsOfFirst : List Event :=
  [.get 0 "2", .advance 0 ⟨1⟩, .advance 0 ⟨2⟩, .advance 0 ⟨3⟩, .work 0 ⟨4⟩, .work 0 ⟨5⟩, .work 0 ⟨6⟩, .hear 0,
    .get 0 "1", .advance 1 ⟨7⟩, .advance 1 ⟨8⟩, .advance 1 ⟨9⟩, .advance 1 ⟨10⟩, .work 1 ⟨11⟩, .deliver 1 1,
    .advance 2 ⟨12⟩, .advance 2 ⟨13⟩, .advance 2 ⟨14⟩, .advance 2 ⟨15⟩, .work 2 ⟨16⟩, .work 2 ⟨17⟩, .work 2 ⟨18⟩,
    .hear 2, .respond 1 ⟨19⟩, .work 1 ⟨20⟩, .hear 1]

/-- The other node loses an answer, and asks for a key that does not exist. -/
def readsOfSecond : List Event :=
  [.get 1 "2", .advance 3 ⟨21⟩, .advance 3 ⟨22⟩, .advance 3 ⟨23⟩, .advance 3 ⟨24⟩, .work 3 ⟨25⟩, .deliver 3 0,
    .endFetch 3 (.returned (.error (.timeout "a:1" 2000))) ⟨26⟩, .work 3 ⟨27⟩, .hear 3,
    .get 1 "x", .advance 5 ⟨28⟩, .advance 5 ⟨29⟩, .advance 5 ⟨30⟩, .work 4 ⟨31⟩, .work 4 ⟨32⟩, .work 4 ⟨33⟩, .hear 5]

/-- A removal, a node that leaves the ring, and a group that is resized. -/
def changes : List Event :=
  [.remove 1 "2", .deliverRemoval 0 0, .setPeers 1 ["b:1"],
    .register 0 { name := "g", main := { capacity := .items 1 } } ⟨34⟩]

/-- Both reads of the first node are answered.  Of the other node's reads one fails, and one is told that
there is nothing.  In the end `2` is removed, and `1` is in the hot tier of the first node and in the main
tier of the other. -/
theorem transparent_twoNodes :
    let f := (Backfill.table [("1", ⟨#[1]⟩), ("2", ⟨#[2]⟩)]).fetch FileTree.empty
    let s := (start twoNodes).run (readsOfFirst ++ readsOfSecond ++ changes)
    (s.members.map (fun m => (m.group.cache.main.slots.map (·.key), m.group.cache.hot.slots.map (·.key))) =
        [([], ["1"]), (["1"], [])] ∧
      s.requests.map (·.phase) = [.answered (.ok ⟨#[2]⟩), .answered (.ok ⟨#[1]⟩), .answered (.ok ⟨#[1]⟩),
        .answered (.error (.timeout "a:1" 2000)), .arrived, .answered (.error (.itemNotFound "g" "x"))]) ∧
    (∀ m ∈ s.members, ∀ kind, ∀ x ∈ (m.group.cache.tier kind).slots,
      f x.key = .value x.entry.value) ∧
    (∀ q ∈ s.requests, ∀ v, q.phase = .answered (.ok v) → f q.key = .value v) ∧
    ∀ q ∈ s.requests, ∀ group key, q.phase = .answered (.error (.itemNotFound group key)) →
      key = q.key ∧ f q.key = .missing := by
  refine ⟨by cbv, transparent _ twoNodes _ ?_ ?_⟩
  · intro a ha source hs key
    obtain ⟨addr, -, rfl⟩ := List.mem_map.mp ha
    cases hs
    rfl
  · simp only [readsOfFirst, readsOfSecond, changes, List.cons_append, List.nil_append, List.forall_mem_cons,
      Event.Quiet, Ending.Failed, true_and]
    refine ⟨?_, by simp⟩
    intro files _ source hs
    cases hs

end Cluster

end PeerCache
