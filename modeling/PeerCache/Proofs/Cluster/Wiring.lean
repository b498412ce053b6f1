import Mathlib
import PeerCache.Proofs.Cluster.Progress

/-!
# Who waits for what

The flights of the coordinators are the loads that are not released: each node has one for each of
its loads, and no two for one key (`Flights`).  A request that waits, waits for a load of its node
and its key; a fetch that has got to a node is a request there for the same key (`Wired`).

All that flights depend on is what a node knows of its loads (`Desk`) and what is known of a load
(`Booking`), and only two kinds of step touch these: one starts a load, one releases it.

Main statement: a node has one load of a key in flight at a time (`Wired.flying_unique`).
-/

namespace PeerCache

/-- What a node knows of its loads. -/
structure Desk where
  group : String
  sites : List (Nat × String × String)
  next : Nat

/-- What is known of a load while it runs. -/
structure Booking where
  host : Nat
  load : Load
  flying : Bool

def Member.desk (m : Member) : Desk :=
  ⟨m.group.name, m.group.coordinator.sites, m.group.coordinator.nextLoad⟩

def LoadTask.booking (t : LoadTask) : Booking := ⟨t.host, t.load, t.phase.isFlying⟩

/-- Flights and flying loads are the same, and the number of a load is its own. -/
structure Flights (ds : List Desk) (bs : List Booking) : Prop where
  site : ∀ {i : Nat} {d : Desk}, ds[i]? = some d → ∀ {k : Nat} {group key : String},
    (k, group, key) ∈ d.sites → group = d.group ∧ ∃ (n : Nat) (b : Booking), bs[n]? = some b ∧
      b.host = i ∧ b.load.number = k ∧ b.load.key = key ∧ b.flying = true
  flight : ∀ {n : Nat} {b : Booking}, bs[n]? = some b → b.flying = true →
    ∃ d, ds[b.host]? = some d ∧ (b.load.number, d.group, b.load.key) ∈ d.sites
  number : ∀ {n : Nat} {b : Booking}, bs[n]? = some b → ∃ d, ds[b.host]? = some d ∧ b.load.number < d.next
  unique : ∀ {n k : Nat} {b c : Booking}, bs[n]? = some b → bs[k]? = some c → b.host = c.host →
    b.load.number = c.load.number → n = k
  keys : ∀ {i : Nat} {d : Desk}, ds[i]? = some d → (d.sites.map (·.2)).Nodup

namespace Flights

variable {ds : List Desk} {bs : List Booking}

/-! ## Flights -/

theorem flying_unique (h : Flights ds bs) {n k : Nat} {b c : Booking} (hb : bs[n]? = some b)
    (hc : bs[k]? = some c) (hfb : b.flying = true) (hfc : c.flying = true) (hh : b.host = c.host)
    (hk : b.load.key = c.load.key) : n = k := by
  obtain ⟨d, hd, hsb⟩ := h.flight hb hfb
  obtain ⟨d', hd', hsc⟩ := h.flight hc hfc
  rw [← hh] at hd'
  obtain rfl := eq_of_getElem? hd hd'
  rw [← hk] at hsc
  have he := List.inj_on_of_nodup_map (h.keys hd) hsb hsc rfl
  exact h.unique hb hc hh (congrArg Prod.fst he)

/-- A load of the key starts under the next number. -/
def takeOff (key : String) (d : Desk) : Desk :=
  { d with sites := (d.next, d.group, key) :: d.sites, next := d.next + 1 }

theorem start (h : Flights ds bs) {i : Nat} {d : Desk} (hd : ds[i]? = some d) {key : String} (owner : Peer)
    (hfree : ∀ k, (k, d.group, key) ∉ d.sites) :
    Flights (ds.modify i (takeOff key)) (bs ++ [⟨i, ⟨d.next, key, owner⟩, true⟩]) := by
  have hnew : (ds.modify i (takeOff key))[i]? = some (takeOff key d) :=
    getElem?_modify_eq_some.mpr ⟨d, hd, (if_pos rfl).symm⟩
  have hdesk {j : Nat} {a : Desk} (ha : ds[j]? = some a) : ∃ a', (ds.modify i (takeOff key))[j]? = some a' ∧
      a'.group = a.group ∧ (∀ x ∈ a.sites, x ∈ a'.sites) ∧ a.next ≤ a'.next := by
    by_cases hj : i = j
    · subst hj
      obtain rfl := eq_of_getElem? hd ha
      exact ⟨_, hnew, rfl, fun x hx => List.mem_cons_of_mem _ hx, Nat.le_succ _⟩
    · exact ⟨a, getElem?_modify_eq_some.mpr ⟨a, ha, (if_neg hj).symm⟩, rfl, fun x hx => hx, Nat.le_refl _⟩
  have hlt {n : Nat} {b : Booking} (hb : bs[n]? = some b) (hi : b.host = i) : b.load.number < d.next := by
    obtain ⟨d', hd', hlt⟩ := h.number hb
    rw [hi] at hd'
    obtain rfl := eq_of_getElem? hd hd'
    exact hlt
  constructor
  case site =>
    intro j d' hd' k group key' hs
    have hold {a : Desk} (ha : ds[j]? = some a) (hs : (k, group, key') ∈ a.sites) :
        group = a.group ∧ ∃ (n : Nat) (b : Booking), (bs ++ [⟨i, ⟨d.next, key, owner⟩, true⟩])[n]? = some b ∧
          b.host = j ∧ b.load.number = k ∧ b.load.key = key' ∧ b.flying = true := by
      obtain ⟨hg, n, b, hb, hrest⟩ := h.site ha hs
      exact ⟨hg, n, b, getElem?_concat_eq_some.mpr (.inl hb), hrest⟩
    obtain ⟨a, ha, rfl⟩ := getElem?_modify_eq_some.mp hd'
    by_cases hj : i = j
    · subst hj
      obtain rfl := eq_of_getElem? hd ha
      rw [if_pos rfl] at hs ⊢
      rcases List.mem_cons.mp hs with he | hs
      · cases he
        exact ⟨rfl, bs.length, _, getElem?_concat_eq_some.mpr (.inr ⟨rfl, rfl⟩), rfl, rfl, rfl, rfl⟩
      · exact hold (a := a) ha hs
    · rw [if_neg hj] at hs ⊢
      exact hold (a := a) ha hs
  case flight =>
    intro n b hb hfly
    rcases getElem?_concat_eq_some.mp hb with hb | ⟨-, rfl⟩
    · obtain ⟨a, ha, hs⟩ := h.flight hb hfly
      obtain ⟨a', ha', hg, hsites, -⟩ := hdesk ha
      exact ⟨a', ha', by rw [hg]; exact hsites _ hs⟩
    · exact ⟨_, hnew, List.mem_cons_self⟩
  case number =>
    intro n b hb
    rcases getElem?_concat_eq_some.mp hb with hb | ⟨-, rfl⟩
    · obtain ⟨a, ha, hlt⟩ := h.number hb
      obtain ⟨a', ha', -, -, hle⟩ := hdesk ha
      exact ⟨a', ha', Nat.lt_of_lt_of_le hlt hle⟩
    · exact ⟨_, hnew, Nat.lt_succ_self _⟩
  case unique =>
    intro n k b c hb hc hh hn
    rcases getElem?_concat_eq_some.mp hb with hb | ⟨hnl, rfl⟩
    · rcases getElem?_concat_eq_some.mp hc with hc | ⟨hkl, rfl⟩
      · exact h.unique hb hc hh hn
      · exact absurd hn (Nat.ne_of_lt (hlt hb hh))
    · rcases getElem?_concat_eq_some.mp hc with hc | ⟨hkl, rfl⟩
      · exact absurd hn.symm (Nat.ne_of_lt (hlt hc hh.symm))
      · omega
  case keys =>
    intro j d' hd'
    obtain ⟨a, ha, rfl⟩ := getElem?_modify_eq_some.mp hd'
    by_cases hj : i = j
    · subst hj
      obtain rfl := eq_of_getElem? hd ha
      rw [if_pos rfl]
      refine List.nodup_cons.mpr ⟨?_, h.keys ha⟩
      intro hm
      obtain ⟨⟨k, group, key'⟩, hx, he⟩ := List.mem_map.mp hm
      cases he
      exact hfree k hx
    · rw [if_neg hj]
      exact h.keys ha

/-- A load is released. -/
def land (l : Load) (d : Desk) : Desk :=
  { d with sites := d.sites.filter (· != (l.number, d.group, l.key)) }

theorem release (h : Flights ds bs) {n : Nat} {b : Booking} (hb : bs[n]? = some b) :
    Flights (ds.modify b.host (land b.load)) (bs.modify n fun b => { b with flying := false }) := by
  have hbooking {k : Nat} {c : Booking}
      (hc : (bs.modify n fun b => { b with flying := false })[k]? = some c) :
      ∃ c', bs[k]? = some c' ∧ c.host = c'.host ∧ c.load = c'.load ∧ (c.flying = true → n ≠ k ∧ c = c') := by
    obtain ⟨c', hc', rfl⟩ := getElem?_modify_eq_some.mp hc
    by_cases hk : n = k
    · rw [if_pos hk]
      exact ⟨c', hc', rfl, rfl, fun hf => absurd hf Bool.false_ne_true⟩
    · rw [if_neg hk]
      exact ⟨c', hc', rfl, rfl, fun _ => ⟨hk, rfl⟩⟩
  have hdesk {j : Nat} {a : Desk} (ha : ds[j]? = some a) : ∃ a', (ds.modify b.host (land b.load))[j]? = some a' ∧
      a'.group = a.group ∧ a'.next = a.next ∧
      ∀ x ∈ a.sites, b.host = j ∧ x = (b.load.number, a.group, b.load.key) ∨ x ∈ a'.sites := by
    refine ⟨_, getElem?_modify_eq_some.mpr ⟨a, ha, rfl⟩, ?_⟩
    by_cases hj : b.host = j
    · rw [if_pos hj]
      refine ⟨rfl, rfl, fun x hx => ?_⟩
      by_cases he : x = (b.load.number, a.group, b.load.key)
      · exact .inl ⟨hj, he⟩
      · exact .inr (List.mem_filter.mpr ⟨hx, bne_iff_ne.mpr he⟩)
    · rw [if_neg hj]
      exact ⟨rfl, rfl, fun x hx => .inr hx⟩
  constructor
  case site =>
    intro j d' hd' k group key hs
    obtain ⟨a, ha, rfl⟩ := getElem?_modify_eq_some.mp hd'
    by_cases hj : b.host = j
    · rw [if_pos hj] at hs ⊢
      obtain ⟨hs, hne⟩ := List.mem_filter.mp hs
      obtain ⟨hg, k', c, hc, hh, hnum, hkey, hfly⟩ := h.site ha hs
      -- the flight of another load than the one that lands
      have hk : n ≠ k' := by
        rintro rfl
        obtain rfl := eq_of_getElem? hb hc
        rw [bne_iff_ne] at hne
        exact hne (by rw [← hnum, hg, hkey])
      exact ⟨hg, k', c, getElem?_modify_eq_some.mpr ⟨c, hc, (if_neg hk).symm⟩, hh, hnum, hkey, hfly⟩
    · rw [if_neg hj] at hs ⊢
      obtain ⟨hg, k', c, hc, hh, hnum, hkey, hfly⟩ := h.site ha hs
      have hk : n ≠ k' := by
        rintro rfl
        obtain rfl := eq_of_getElem? hb hc
        exact hj hh
      exact ⟨hg, k', c, getElem?_modify_eq_some.mpr ⟨c, hc, (if_neg hk).symm⟩, hh, hnum, hkey, hfly⟩
  case flight =>
    intro k c hc hfly
    obtain ⟨c', hc', -, -, hsame⟩ := hbooking hc
    obtain ⟨hk, rfl⟩ := hsame hfly
    obtain ⟨a, ha, hs⟩ := h.flight hc' hfly
    obtain ⟨a', ha', hg, -, hsites⟩ := hdesk ha
    refine ⟨a', ha', ?_⟩
    rw [hg]
    rcases hsites _ hs with ⟨hh, he⟩ | hs
    · exact absurd (h.unique hb hc' hh (congrArg Prod.fst he).symm) hk
    · exact hs
  case number =>
    intro k c hc
    obtain ⟨c', hc', hh, hl, -⟩ := hbooking hc
    obtain ⟨a, ha, hlt⟩ := h.number hc'
    obtain ⟨a', ha', -, hnext, -⟩ := hdesk ha
    exact ⟨a', by rw [hh]; exact ha', by rw [hl, hnext]; exact hlt⟩
  case unique =>
    intro k k' c d hc hd hh hnum
    obtain ⟨c', hc', hch, hcl, -⟩ := hbooking hc
    obtain ⟨d', hd', hdh, hdl, -⟩ := hbooking hd
    exact h.unique hc' hd' (by rw [← hch, ← hdh, hh]) (by rw [← hcl, ← hdl, hnum])
  case keys =>
    intro j d' hd'
    obtain ⟨a, ha, rfl⟩ := getElem?_modify_eq_some.mp hd'
    by_cases hj : b.host = j
    · rw [if_pos hj]
      exact (h.keys ha).sublist (List.filter_sublist.map _)
    · rw [if_neg hj]
      exact h.keys ha

end Flights

namespace Paced

variable {s u : Paced} {e : Event}

def desks (s : Paced) : List Desk := s.cluster.members.map Member.desk

def bookings (s : Paced) : List Booking := s.cluster.loads.map LoadTask.booking

/-! ## Steps -/

theorem desk_at {i : Nat} {m : Member} (hm : s.cluster.members[i]? = some m) : s.desks[i]? = some m.desk := by
  unfold desks
  rw [List.getElem?_map, hm]
  rfl

theorem booking_at {n : Nat} {t : LoadTask} (ht : s.cluster.loads[n]? = some t) :
    s.bookings[n]? = some t.booking := by
  unfold bookings
  rw [List.getElem?_map, ht]
  rfl

theorem load_of_booking {n : Nat} {b : Booking} (hb : s.bookings[n]? = some b) :
    ∃ t, s.cluster.loads[n]? = some t ∧ t.booking = b := by
  unfold bookings at hb
  rw [List.getElem?_map] at hb
  exact Option.map_eq_some_iff.mp hb

theorem desks_setGroup {c : Cluster} {i : Nat} {m : Member} {g : Group} (hm : c.members[i]? = some m)
    (h : Group.SameFlights m.group g) :
    (c.setGroup i g).members.map Member.desk = c.members.map Member.desk := by
  refine map_modify_of_eq fun a ha => ?_
  obtain rfl := eq_of_getElem? hm ha
  unfold Member.desk
  rw [h.name, h.sites, h.nextLoad]

theorem bookings_setLoad {c : Cluster} {n : Nat} {t : LoadTask} {p : LoadPhase} (ht : c.loads[n]? = some t)
    (h : p.isFlying = t.phase.isFlying) :
    (c.setLoad n p).loads.map LoadTask.booking = c.loads.map LoadTask.booking := by
  refine map_modify_of_eq fun a ha => ?_
  obtain rfl := eq_of_getElem? ht ha
  unfold LoadTask.booking
  rw [h]

/-- Only the start and the release of a load touch what flights depend on. -/
theorem Takes.flights (h : s.Takes e u) (hs : Flights s.desks s.bookings) : Flights u.desks u.bookings := by
  have hkeep (hd : u.desks = s.desks) (hb : u.bookings = s.bookings) : Flights u.desks u.bookings := by
    rw [hd, hb]
    exact hs
  cases h with
  | get | serve | hear | abandon | reply | lose => exact hkeep rfl rfl
  | advance hq hm h => exact hkeep (desks_setGroup hm h.sameFlights) rfl
  | begin ht hm hp ha hc h =>
    exact hkeep (desks_setGroup hm ha.sameFlights) (bookings_setLoad ht (by rw [h.rank.2, hp]; rfl))
  | deliver ht hm hp hl => exact hkeep rfl (bookings_setLoad ht (by rw [hp]; rfl))
  | settle ht hm hr h =>
    refine hkeep (desks_setGroup hm h.sameFlights) (bookings_setLoad ht ?_)
    unfold LoadPhase.isFlying
    rw [h.rank.1, h.rank.2]
    rfl
  | remove h hm => exact hkeep (desks_setGroup hm ⟨rfl, rfl, rfl⟩) rfl
  | set hm => exact hkeep (desks_setGroup hm ⟨rfl, rfl, rfl⟩) rfl
  | setPeers i addrs =>
    refine hkeep (map_modify_of_eq fun a _ => ?_) rfl
    unfold Member.desk
    rw [Member.setPeers_group]
  | register i c now =>
    refine hkeep (map_modify_of_eq fun a _ => ?_) rfl
    rcases a.register_cases c now with he | he
    · rw [he]
    · rw [he]
      rfl
  | @start r now q m owner c n hq hm hp hn hfree hsites hnext =>
    subst hn
    have hdesks : (s.cluster.members.modify q.host fun m' =>
        { m' with group := { m.group with coordinator := c } }).map Member.desk =
        s.desks.modify q.host (Flights.takeOff q.key) := by
      refine map_modify_of_comm hm ?_
      unfold Member.desk Flights.takeOff
      simp only [hsites, hnext]
    have hbookings : (s.cluster.loads ++
        [(⟨q.host, ⟨m.group.coordinator.nextLoad, q.key, owner⟩, .queued⟩ : LoadTask)]).map LoadTask.booking =
        s.bookings ++ [⟨q.host, ⟨m.desk.next, q.key, owner⟩, true⟩] :=
      List.map_append
    have hstart := hs.start (desk_at hm) owner hfree
    rw [← hdesks, ← hbookings] at hstart
    exact hstart
  | @release n now t m e ht hm hp =>
    have hdesks : (s.cluster.members.modify t.host fun m' =>
        { m' with group := m.group.release t.load }).map Member.desk =
        s.desks.modify t.host (Flights.land t.load) := by
      refine map_modify_of_comm hm ?_
      unfold Member.desk Flights.land Group.release
      simp only [Coordinator.drop_sites, Coordinator.drop_nextLoad]
    have hbookings : (s.cluster.loads.modify n fun t => { t with phase := .released e }).map LoadTask.booking =
        s.bookings.modify n fun b => { b with flying := false } :=
      map_modify_of_comm ht rfl
    have hrelease := hs.release (booking_at ht)
    rw [← hbookings] at hrelease
    show Flights ((s.cluster.members.modify t.host _).map Member.desk) _
    rw [hdesks]
    exact hrelease

/-! ## Who waits -/

/-- Flights are in order, requests wait for loads of their own, fetches for requests of their own at
another node, the owner, and replies come to loads that have begun. -/
structure Wired (s : Paced) : Prop where
  flights : Flights s.desks s.bookings
  waits : ∀ (r : Nat) (q : Request) (k : Nat), s.cluster.requests[r]? = some q → q.phase = .waiting k →
    ∃ (n : Nat) (t : LoadTask), s.cluster.loads[n]? = some t ∧ t.host = q.host ∧ t.load.number = k ∧
      t.load.key = q.key
  asks : ∀ (n : Nat) (t : LoadTask) (owner : Peer) (x : Option Instant) (r : Nat),
    s.cluster.loads[n]? = some t → t.phase = .fetching owner x (some r) →
    ∃ q, s.cluster.requests[r]? = some q ∧ q.key = t.load.key ∧ q.fromPeer = true ∧
      s.isLocalAt q.host t.load.owner = true
  fetches : ∀ (n : Nat) (t : LoadTask) (owner : Peer) (x : Option Instant) (r : Option Nat),
    s.cluster.loads[n]? = some t → t.phase = .fetching owner x r →
    owner = t.load.owner ∧ s.isLocalAt t.host t.load.owner = false
  replied : ∀ n r, (n, r) ∈ s.replies → ∃ t, s.cluster.loads[n]? = some t ∧ 1 ≤ t.phase.rank

/-- A flight of a node is a load of it that flies. -/
theorem Wired.site (hs : s.Wired) {i : Nat} {m : Member} (hm : s.cluster.members[i]? = some m) {k : Nat}
    {group key : String} (hk : (k, group, key) ∈ m.group.coordinator.sites) :
    ∃ (n : Nat) (t : LoadTask), s.cluster.loads[n]? = some t ∧ t.host = i ∧ t.load.number = k ∧
      t.load.key = key ∧ t.phase.isFlying = true := by
  have hsite : (k, group, key) ∈ m.desk.sites := hk
  obtain ⟨-, n, b, hb, hh, hnum, hkey, hfly⟩ := hs.flights.site (desk_at hm) hsite
  obtain ⟨t, ht, rfl⟩ := load_of_booking hb
  exact ⟨n, t, ht, hh, hnum, hkey, hfly⟩

/-- A number belongs to one load of a node. -/
theorem Wired.unique (hs : s.Wired) {n k : Nat} {t t' : LoadTask} (ht : s.cluster.loads[n]? = some t)
    (ht' : s.cluster.loads[k]? = some t') (hh : t.host = t'.host) (hn : t.load.number = t'.load.number) :
    n = k :=
  hs.flights.unique (booking_at ht) (booking_at ht') hh hn

/-- The load that a request waits for is one of its key. -/
theorem Wired.key_of_waiting (hs : s.Wired) {r n k : Nat} {q : Request} {t : LoadTask}
    (hq : s.cluster.requests[r]? = some q) (hp : q.phase = .waiting k) (ht : s.cluster.loads[n]? = some t)
    (hh : t.host = q.host) (hn : t.load.number = k) : t.load.key = q.key := by
  obtain ⟨n', t', ht', hh', hn', hkey⟩ := hs.waits r q k hq hp
  obtain rfl := hs.unique ht ht' (hh.trans hh'.symm) (hn.trans hn'.symm)
  obtain rfl := eq_of_getElem? ht ht'
  exact hkey

/-- **A node has one load of a key in flight.** -/
theorem Wired.flying_unique (hs : s.Wired) {n k : Nat} {t t' : LoadTask}
    (ht : s.cluster.loads[n]? = some t) (ht' : s.cluster.loads[k]? = some t')
    (hf : t.phase.isFlying = true) (hf' : t'.phase.isFlying = true) (hh : t.host = t'.host)
    (hk : t.load.key = t'.load.key) : n = k :=
  hs.flights.flying_unique (booking_at ht) (booking_at ht') hf hf' hh hk

/-- The number of a load is below the next one. -/
theorem Wired.number_lt (hs : s.Wired) {n : Nat} {t : LoadTask} {m : Member}
    (ht : s.cluster.loads[n]? = some t) (hm : s.cluster.members[t.host]? = some m) :
    t.load.number < m.group.coordinator.nextLoad := by
  obtain ⟨d, hd, hlt⟩ := hs.flights.number (booking_at ht)
  obtain rfl := eq_of_getElem? (desk_at hm) hd
  exact hlt

/-- A load that has a reply has begun. -/
theorem Wired.rank_of_reply (hs : s.Wired) {n : Nat} {t : LoadTask} {r : LoadReply}
    (ht : s.cluster.loads[n]? = some t) (hr : s.reply? n = some r) : 1 ≤ t.phase.rank := by
  obtain ⟨as, bs, he, -⟩ := List.lookup_eq_some_iff.mp hr
  obtain ⟨t', ht', hrank⟩ := hs.replied n r (by rw [he]; exact List.mem_append_right _ List.mem_cons_self)
  obtain rfl := eq_of_getElem? ht ht'
  exact hrank

/-- A request that waits after a step waited before, or joins a load that flies, or starts one. -/
theorem Takes.waiting (h : s.Takes e u) (hs : s.Wired) {r k : Nat} {q : Request}
    (hq' : u.cluster.requests[r]? = some q) (hp : q.phase = .waiting k) :
    s.cluster.requests[r]? = some q ∨ ∃ q₀ owner, s.cluster.requests[r]? = some q₀ ∧
      q₀.phase = .missed owner ∧ q = { q₀ with phase := .waiting k } ∧
      ((∃ (n : Nat) (t : LoadTask), s.cluster.loads[n]? = some t ∧ t.host = q.host ∧ t.load.number = k ∧
          t.load.key = q.key ∧ t.phase.isFlying = true) ∨
        u.cluster.loads[s.cluster.loads.length]? = some ⟨q.host, ⟨k, q.key, owner⟩, .queued⟩) := by
  have hjoins {q₀ : Request} {m : Member} {g : Group} {now : Instant}
      (hq : s.cluster.requests[r]? = some q₀) (hm : s.cluster.members[q₀.host]? = some m)
      (hadv : m.Advances q₀.key now q₀.phase g (.waiting k)) :
      ∃ owner, q₀.phase = .missed owner ∧ ∃ (n : Nat) (t : LoadTask), s.cluster.loads[n]? = some t ∧
        t.host = q₀.host ∧ t.load.number = k ∧ t.load.key = q₀.key ∧ t.phase.isFlying = true := by
    generalize q₀.phase = phase at hadv
    cases hadv with
    | @join owner _ c hn hc => exact ⟨owner, rfl, hs.site hm hn⟩
  cases h.request hq' with
  | same hq => exact .inl hq
  | @advance now q₀ m g p hq hm hadv =>
    cases hp
    obtain ⟨owner, hmiss, hload⟩ := hjoins hq hm hadv
    exact .inr ⟨q₀, owner, hq, hmiss, rfl, .inl hload⟩
  | @start now q₀ m owner n hq hm hmiss hn =>
    cases hp
    refine .inr ⟨q₀, owner, hq, hmiss, rfl, ?_⟩
    cases h with
    | advance hq₁ hm₁ hadv =>
      -- the same event without a new load: there was a flight to join
      obtain rfl := eq_of_getElem? hq hq₁
      obtain ⟨a, -, he⟩ := getElem?_modify_eq_some.mp hq'
      rw [if_pos rfl] at he
      obtain rfl := congrArg Request.phase he
      obtain ⟨-, -, hload⟩ := hjoins hq hm₁ hadv
      exact .inl hload
    | start hq₁ hm₁ hp₁ hn₁ hfree hsites hnext =>
      obtain rfl := eq_of_getElem? hq hq₁
      obtain rfl := eq_of_getElem? hm hm₁
      obtain rfl : owner = _ := RequestPhase.missed.inj (hmiss.symm.trans hp₁)
      subst hn hn₁
      exact .inr (getElem?_concat_eq_some.mpr (.inr ⟨rfl, rfl⟩))
    | remove hrem => exact hrem.elim
  | get | serve | deliver | hear | abandon => cases hp

theorem Wired.step (hs : s.Wired) (h : s.Takes e u) : u.Wired := by
  refine ⟨h.flights hs.flights, ?_, ?_, ?_, ?_⟩
  · intro r q k hq' hp
    have hforward : (∃ (n : Nat) (t : LoadTask), s.cluster.loads[n]? = some t ∧
        t.host = q.host ∧ t.load.number = k ∧ t.load.key = q.key) →
        ∃ (n : Nat) (t : LoadTask), u.cluster.loads[n]? = some t ∧ t.host = q.host ∧ t.load.number = k ∧
          t.load.key = q.key := by
      rintro ⟨n, t, ht, hh, hn, hk⟩
      obtain ⟨p, ht', -⟩ := h.load_forward ht
      exact ⟨n, _, ht', hh, hn, hk⟩
    rcases h.waiting hs hq' hp with hq | ⟨q₀, owner, -, -, -, ⟨n, t, ht, hh, hnum, hkey, -⟩ | ht⟩
    · exact hforward (hs.waits r q k hq hp)
    · exact hforward ⟨n, t, ht, hh, hnum, hkey⟩
    · exact ⟨_, _, ht, rfl, rfl, rfl⟩
  · intro n t owner x r ht' hp
    have hforward : (∃ q, s.cluster.requests[r]? = some q ∧ q.key = t.load.key ∧ q.fromPeer = true ∧
        s.isLocalAt q.host t.load.owner = true) → ∃ q, u.cluster.requests[r]? = some q ∧
        q.key = t.load.key ∧ q.fromPeer = true ∧ u.isLocalAt q.host t.load.owner = true := by
      rintro ⟨q, hq, hk, hpeer, hl⟩
      obtain ⟨p, hq'⟩ := h.request_forward hq
      exact ⟨_, hq', hk, hpeer, (h.isLocalAt_eq _ _).trans hl⟩
    cases h.load ht' with
    | same ht => exact hforward (hs.asks n t owner x r ht hp)
    | start => cases hp
    | begin ht hm hq hb => cases hb <;> cases hp
    | release => cases hp
    | deliver ht hfetch =>
      cases hp
      cases h with
      | deliver ht₁ hm hp₁ hl =>
        obtain rfl := eq_of_getElem? ht ht₁
        obtain rfl := (hs.fetches n _ _ _ _ ht₁ hp₁).1
        exact ⟨_, getElem?_concat_eq_some.mpr (.inr ⟨rfl, rfl⟩), rfl, rfl, (isLocalAt_eq hm _).trans hl⟩
      | remove hrem => exact hrem.elim
    | settle ht hm hr hset => cases hset <;> cases hp
  · intro n t owner x r ht' hp
    rw [h.isLocalAt_eq]
    cases h.load ht' with
    | same ht => exact hs.fetches n t owner x r ht hp
    | start | release => cases hp
    | @begin now t m p ht hm hq hb =>
      replace hp : p = .fetching owner x r := hp
      subst hp
      cases hb with
      | fetch hl => exact ⟨rfl, (isLocalAt_eq hm _).trans hl⟩
    | @deliver j t owner' x' ht hfetch =>
      cases hp
      exact hs.fetches n t _ _ _ ht hfetch
    | settle ht hm hr hset => cases hset <;> cases hp
  · intro n r hr
    have hold (hr : (n, r) ∈ s.replies) : ∃ t, u.cluster.loads[n]? = some t ∧ 1 ≤ t.phase.rank := by
      obtain ⟨t, ht, hrank⟩ := hs.replied n r hr
      obtain ⟨p, ht', hle⟩ := h.load_forward ht
      exact ⟨_, ht', Nat.le_trans hrank hle⟩
    rcases h.replies with he | ⟨k, r', t, rfl, ht, hawaits, hnone, he⟩
    · rw [he] at hr
      exact hold hr
    · rw [he] at hr
      rcases List.mem_cons.mp hr with hnew | hr
      · cases hnew
        obtain ⟨p, ht', hle⟩ := h.load_forward ht
        exact ⟨_, ht', Nat.le_trans (Nat.le_of_eq (LoadPhase.awaits_rank hawaits).symm) hle⟩
      · exact hold hr

theorem wired_start (founders : List Founder) : (start founders).Wired := by
  have hdesk {i : Nat} {d : Desk} (hd : (start founders).desks[i]? = some d) : d.sites = [] := by
    obtain ⟨m, hm, rfl⟩ := List.mem_map.mp (List.mem_of_getElem? hd)
    obtain ⟨a, -, rfl⟩ := List.mem_map.mp hm
    rfl
  refine ⟨⟨?_, ?_, ?_, ?_, ?_⟩, ?_, ?_, ?_, ?_⟩
  · intro i d hd k group key hk
    rw [hdesk hd] at hk
    cases hk
  · intro n b hb; cases hb
  · intro n b hb; cases hb
  · intro n k b c hb; cases hb
  · intro i d hd
    rw [hdesk hd]
    exact List.nodup_nil
  · intro r q k hq; cases hq
  · intro n t owner x r ht; cases ht
  · intro n t owner x r ht; cases ht
  · intro n r hr; cases hr

theorem Reachable.wired (hs : s.Reachable) : s.Wired := by
  obtain ⟨founders, es, rfl⟩ := hs
  exact keeps_always (I := Wired) (fun hi h => hi.step h) (wired_start founders) es

/-! ## Loads that wait -/

/-- A request waits for a load. -/
def WaitsFor (s : Paced) (r n : Nat) : Prop :=
  ∃ (q : Request) (t : LoadTask) (k : Nat), s.cluster.requests[r]? = some q ∧ q.phase = .waiting k ∧
    s.cluster.loads[n]? = some t ∧ t.host = q.host ∧ t.load.number = k

/-- A load waits for another one: its fetch is a request at a node, which waits for that load. -/
def Waits (s : Paced) (a b : Nat) : Prop :=
  ∃ (t : LoadTask) (owner : Peer) (x : Option Instant) (r : Nat), s.cluster.loads[a]? = some t ∧
    t.phase = .fetching owner x (some r) ∧ s.WaitsFor r b

end Paced

end PeerCache
