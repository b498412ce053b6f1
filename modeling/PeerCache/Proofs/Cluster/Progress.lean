import Mathlib
import PeerCache.Proofs.Cluster.Steps
import PeerCache.Proofs.Runs

/-!
# What no step takes back

A request keeps its node and its key, a load its node, number, key and owner, and both only come
further.  A node keeps its address and the name of its group.  A reply that has come stays.

    queued  <  asking, fetching  <  ended  <  released        (LoadPhase.rank, run_load)

Main statement: every run of a cluster is a run of a paced one (`exists_run_eq`).
-/

namespace PeerCache

namespace LoadPhase

/-- How far a load has come. -/
def rank : LoadPhase → Nat
  | queued => 0
  | asking .. | fetching .. => 1
  | ended _ => 2
  | released _ => 3

/-- Its flight is there. -/
def isFlying (p : LoadPhase) : Bool := p.rank < 3

/-- It has still to store what it loads. -/
def isPending (p : LoadPhase) : Bool := p.rank < 2

theorem isFlying_of_rank {p : LoadPhase} (h : p.rank = 1) : p.isFlying = true := by
  unfold isFlying
  rw [h]
  rfl

theorem isFlying_of_isPending {p : LoadPhase} (h : p.isPending = true) : p.isFlying = true := by
  unfold isPending at h
  unfold isFlying
  rw [decide_eq_true_eq] at h ⊢
  omega

theorem awaits_rank {p : LoadPhase} {r : LoadReply} (h : p.awaits r = true) : p.rank = 1 := by
  cases p <;> first | rfl | (cases r <;> cases h)

end LoadPhase

namespace Member

theorem Begins.rank {m : Member} {l : Load} {now : Instant} {p : LoadPhase} (h : m.Begins l now p) :
    1 ≤ p.rank ∧ p.isFlying = true := by
  cases h with
  | present hl h => exact ⟨Nat.le_succ 1, rfl⟩
  | sourceless hl h => exact ⟨Nat.le_succ 1, rfl⟩
  | ask hl h hs => exact ⟨Nat.le_refl 1, rfl⟩
  | fetch hl => exact ⟨Nat.le_refl 1, rfl⟩

theorem Settles.rank {m : Member} {t : LoadTask} {r : LoadReply} {now : Instant} {g : Group} {p : LoadPhase}
    (h : m.Settles t r now g p) : t.phase.rank = 1 ∧ p.rank = 2 := by
  cases h with
  | store ha hk hv => exact ⟨LoadPhase.awaits_rank ha, rfl⟩
  | fail ha hv hg hc he => exact ⟨LoadPhase.awaits_rank ha, rfl⟩

/-- A group keeps its name; the flights change only when a load starts or is released. -/
theorem Advances.sameFlights {m : Member} {key : String} {now : Instant} {p p' : RequestPhase} {g : Group}
    (h : m.Advances key now p g p') : Group.SameFlights m.group g := by
  cases h with
  | join hn hc => exact hc
  | _ => exact ⟨rfl, rfl, rfl⟩

theorem Settles.sameFlights {m : Member} {t : LoadTask} {r : LoadReply} {now : Instant} {g : Group}
    {p : LoadPhase} (h : m.Settles t r now g p) : Group.SameFlights m.group g := by
  cases h with
  | store ha hk hv => exact ⟨rfl, rfl, rfl⟩
  | fail ha hv hg hc he => exact hg.sameFlights

/-- Setting the peers of a node leaves it as it is, or gives it a ring that it is on itself. -/
theorem setPeers_cases (m : Member) (addrs : List String) : m.setPeers addrs = m ∨
    ∃ ps, m.setPeers addrs = { m with membership := { m.membership with
      ring := Ring.build (m.membership.withLocal ps) m.membership.ringConfig.virtualReplicas } } := by
  unfold setPeers Membership.setPeers
  cases addrs.mapM Peer.parse with
  | error e => exact .inl rfl
  | ok ps => exact .inr ⟨ps, rfl⟩

theorem setPeers_group (m : Member) (addrs : List String) : (m.setPeers addrs).group = m.group := by
  rcases m.setPeers_cases addrs with he | ⟨ps, he⟩ <;> rw [he]

theorem setPeers_localPeer (m : Member) (addrs : List String) :
    (m.setPeers addrs).membership.localPeer = m.membership.localPeer := by
  rcases m.setPeers_cases addrs with he | ⟨ps, he⟩ <;> rw [he]

/-- Registering a group again leaves it as it is, or gives it new settings and bounds. -/
theorem register_cases (m : Member) (c : GroupConfig) (now : Instant) :
    m.register c now = m ∨ m.register c now = { m with group := m.group.reconfigure c now } := by
  unfold register
  split
  · split
    · exact .inr rfl
    · exact .inl rfl
  · exact .inl rfl

end Member

namespace Paced

variable {s u : Paced} {e : Event}

/-! ## In one step -/

theorem step_cases (s : Paced) (e : Event) : s.step e = s ∨ s.Takes e (s.step e) := by
  cases h : s.step? e with
  | none => exact .inl (step_of_none h)
  | some u =>
    rw [step_eq h]
    exact .inr (takes h)

/-- What all steps with a property keep, a run of them keeps. -/
theorem keeps {I : Paced → Prop} {p : Paced → Event → Prop}
    (hstep : ∀ {s e}, I s → p s e → s.Takes e (s.step e) → I (s.step e)) (hs : I s) {es : List Event}
    (h : Along step p s es) : I (s.run es) := by
  refine Along.keeps (fun s e hi hp => ?_) hs h
  rcases s.step_cases e with he | ht
  · rw [he]
    exact hi
  · exact hstep hi hp ht

/-- What all steps keep, every run keeps. -/
theorem keeps_always {I : Paced → Prop} (hstep : ∀ {s e u}, I s → s.Takes e u → I u) (hs : I s)
    (es : List Event) : I (s.run es) := by
  refine keeps (p := fun _ _ => True) (fun hi _ ht => hstep hi ht) hs ?_
  induction es generalizing s with
  | nil => trivial
  | cons e es ih =>
    refine ⟨trivial, ih ?_⟩
    rcases s.step_cases e with he | ht
    · rw [he]
      exact hs
    · exact hstep hs ht

/-- What holds at first and not at last, some step that is possible brings to an end. -/
theorem turn {I : Paced → Prop} (hs : I s) (es : List Event) : I (s.run es) ∨
    ∃ as e bs, es = as ++ e :: bs ∧ I (s.run as) ∧ (s.run as).Takes e ((s.run as).step e) ∧
      ¬ I ((s.run as).step e) := by
  rcases exists_turn step hs es with h | ⟨as, e, bs, rfl, hbefore, hafter⟩
  · exact .inl h
  · rcases (s.run as).step_cases e with he | ht
    · exact absurd (he.symm ▸ hbefore) hafter
    · exact .inr ⟨as, e, bs, rfl, hbefore, ht, hafter⟩

/-- Nodes stay, and what is new stands at the end. -/
theorem Takes.lengths (h : s.Takes e u) :
    u.cluster.members.length = s.cluster.members.length ∧
      s.cluster.requests.length ≤ u.cluster.requests.length ∧
      s.cluster.loads.length ≤ u.cluster.loads.length := by
  cases h <;>
    simp [on, Cluster.addRequest, Cluster.addLoad, Cluster.setGroup, Cluster.setRequest, Cluster.setLoad]

theorem Takes.request_forward (h : s.Takes e u) {r : Nat} {q : Request}
    (hq : s.cluster.requests[r]? = some q) : ∃ p, u.cluster.requests[r]? = some { q with phase := p } := by
  have hr : r < s.cluster.requests.length := (List.getElem?_eq_some_iff.mp hq).1
  obtain ⟨q', hq'⟩ : ∃ q', u.cluster.requests[r]? = some q' :=
    ⟨_, List.getElem?_eq_getElem (Nat.lt_of_lt_of_le hr h.lengths.2.1)⟩
  rw [hq']
  cases h.request hq' with
  | same hs => exact ⟨q.phase, by rw [eq_of_getElem? hq hs]⟩
  | get hl | serve hl | deliver hl => omega
  | advance hs | start hs | hear hs | abandon hs => exact ⟨_, by rw [eq_of_getElem? hq hs]⟩

/-- A load stays what it is, and never goes back. -/
theorem LoadAfter.forward {n : Nat} {t t' : LoadTask} (h : s.LoadAfter n e t')
    (ht : s.cluster.loads[n]? = some t) : t'.host = t.host ∧ t'.load = t.load ∧ t.phase.rank ≤ t'.phase.rank := by
  cases h with
  | start hn =>
    have hlt : n < s.cluster.loads.length := (List.getElem?_eq_some_iff.mp ht).1
    omega
  | same hs =>
    obtain rfl := eq_of_getElem? ht hs
    exact ⟨rfl, rfl, Nat.le_refl _⟩
  | begin hs hm hp hb =>
    obtain rfl := eq_of_getElem? ht hs
    rw [hp]
    exact ⟨rfl, rfl, Nat.zero_le _⟩
  | release hs hp =>
    obtain rfl := eq_of_getElem? ht hs
    rw [hp]
    exact ⟨rfl, rfl, Nat.le_succ 2⟩
  | deliver hs hp =>
    obtain rfl := eq_of_getElem? ht hs
    rw [hp]
    exact ⟨rfl, rfl, Nat.le_refl 1⟩
  | settle hs hm hr h =>
    obtain rfl := eq_of_getElem? ht hs
    obtain ⟨h1, h2⟩ := h.rank
    exact ⟨rfl, rfl, by rw [h1, h2]; exact Nat.le_succ 1⟩

theorem Takes.load_forward (h : s.Takes e u) {n : Nat} {t : LoadTask} (ht : s.cluster.loads[n]? = some t) :
    ∃ p, u.cluster.loads[n]? = some { t with phase := p } ∧ t.phase.rank ≤ p.rank := by
  have hn : n < s.cluster.loads.length := (List.getElem?_eq_some_iff.mp ht).1
  obtain ⟨t', ht'⟩ : ∃ t', u.cluster.loads[n]? = some t' :=
    ⟨_, List.getElem?_eq_getElem (Nat.lt_of_lt_of_le hn h.lengths.2.2)⟩
  obtain ⟨hh, hl, hr⟩ := (h.load ht').forward ht
  refine ⟨t'.phase, ?_, hr⟩
  rw [ht', ← hh, ← hl]

/-- A node keeps its address and the name of its group. -/
theorem MemberAfter.before {i : Nat} {m : Member} (h : s.MemberAfter i e m) :
    ∃ a, s.cluster.members[i]? = some a ∧ m.membership.localPeer = a.membership.localPeer ∧
      m.group.name = a.group.name := by
  cases h with
  | same hm => exact ⟨m, hm, rfl, rfl⟩
  | advance hq hi hm h => exact ⟨_, hm, rfl, h.sameFlights.name⟩
  | start hq hi hm => exact ⟨_, hm, rfl, rfl⟩
  | begin ht hi hm ha hc => exact ⟨_, hm, rfl, ha.name⟩
  | release ht hi hm => exact ⟨_, hm, rfl, rfl⟩
  | settle ht hi hm hr h => exact ⟨_, hm, rfl, h.sameFlights.name⟩
  | remove h hm => exact ⟨_, hm, rfl, rfl⟩
  | set hm => exact ⟨_, hm, rfl, rfl⟩
  | setPeers hm => exact ⟨_, hm, Member.setPeers_localPeer .., by rw [Member.setPeers_group]⟩
  | @register c now a hm =>
    rcases a.register_cases c now with he | he <;> rw [he] <;> exact ⟨_, hm, rfl, rfl⟩

/-- A node looks at the same ring until its peers are set. -/
theorem MemberAfter.membership {i : Nat} {m : Member} (h : s.MemberAfter i e m) :
    ∃ a, s.cluster.members[i]? = some a ∧
      ((∃ addrs, e = .plain (.setPeers i addrs) ∧ m = a.setPeers addrs) ∨ m.membership = a.membership) := by
  cases h with
  | setPeers hm => exact ⟨_, hm, .inl ⟨_, rfl, rfl⟩⟩
  | @register c now a hm =>
    rcases a.register_cases c now with he | he <;> rw [he] <;> exact ⟨_, hm, .inr rfl⟩
  | same hm => exact ⟨m, hm, .inr rfl⟩
  | advance _ _ hm | start _ _ hm | begin _ _ hm | release _ _ hm | settle _ _ hm => exact ⟨_, hm, .inr rfl⟩
  | remove _ hm | set hm => exact ⟨_, hm, .inr rfl⟩

/-- A node keeps its settings until it is configured again. -/
theorem MemberAfter.settings {i : Nat} {m : Member} (h : s.MemberAfter i e m) :
    ∃ a, s.cluster.members[i]? = some a ∧ (m.group.settings = a.group.settings ∨
      ∃ c now, e = .plain (.register i c now) ∧ m.group.settings.itemExpiration = c.itemExpiration) := by
  cases h with
  | same hm => exact ⟨m, hm, .inl rfl⟩
  | @advance r now q m g p hq hi hm h =>
    refine ⟨m, hm, .inl ?_⟩
    generalize q.phase = phase at h
    cases h with
    | accept | refuse | look | find | lack | turn | glance | miss | join => rfl
  | start hq hi hm => exact ⟨_, hm, .inl rfl⟩
  | begin ht hi hm ha => exact ⟨_, hm, .inl ha.settings⟩
  | release ht hi hm => exact ⟨_, hm, .inl rfl⟩
  | @settle n now a m r g p ht hi hm hr h =>
    refine ⟨m, hm, .inl ?_⟩
    cases h with
    | store => rfl
    | fail ha hv hg => exact hg.settings
  | remove hrem hm => exact ⟨_, hm, .inl rfl⟩
  | set hm => exact ⟨_, hm, .inl rfl⟩
  | setPeers hm => exact ⟨_, hm, .inl (by rw [Member.setPeers_group])⟩
  | @register c now a hm =>
    refine ⟨a, hm, ?_⟩
    rcases a.register_cases c now with he | he
    · exact .inl (by rw [he])
    · exact .inr ⟨c, now, rfl, by rw [he]; rfl⟩

theorem Takes.member_forward (h : s.Takes e u) {i : Nat} {m : Member} (hm : s.cluster.members[i]? = some m) :
    ∃ m', u.cluster.members[i]? = some m' ∧ m'.membership.localPeer = m.membership.localPeer ∧
      m'.group.name = m.group.name := by
  have hi : i < s.cluster.members.length := (List.getElem?_eq_some_iff.mp hm).1
  obtain ⟨m', hm'⟩ : ∃ m', u.cluster.members[i]? = some m' :=
    ⟨_, List.getElem?_eq_getElem (by rw [h.lengths.1]; exact hi)⟩
  obtain ⟨a, ha, hp, hn⟩ := (h.member hm').before
  obtain rfl := eq_of_getElem? hm ha
  exact ⟨m', hm', hp, hn⟩

theorem Takes.no_member (h : s.Takes e u) {i : Nat} (hm : s.cluster.members[i]? = none) :
    u.cluster.members[i]? = none := by
  rw [List.getElem?_eq_none_iff] at hm ⊢
  rw [h.lengths.1]
  exact hm

/-- The node has this address. -/
def isLocalAt (s : Paced) (i : Nat) (p : Peer) : Bool :=
  s.cluster.members[i]?.any (·.membership.isLocal p)

theorem isLocalAt_eq {i : Nat} {m : Member} (hm : s.cluster.members[i]? = some m) (p : Peer) :
    s.isLocalAt i p = m.membership.isLocal p := by
  unfold isLocalAt
  rw [hm]
  rfl

theorem Takes.isLocalAt_eq (h : s.Takes e u) (i : Nat) (p : Peer) : u.isLocalAt i p = s.isLocalAt i p := by
  cases hm : s.cluster.members[i]? with
  | some m =>
    obtain ⟨m', hm', hp, -⟩ := h.member_forward hm
    rw [Paced.isLocalAt_eq hm, Paced.isLocalAt_eq hm']
    unfold Membership.isLocal
    rw [hp]
  | none =>
    unfold isLocalAt
    rw [hm, h.no_member hm]

/-- The ring of a node gives a key to the node itself. -/
def owns (s : Paced) (i : Nat) (key : String) : Bool :=
  s.cluster.members[i]?.any fun m => m.membership.isLocal (m.membership.ownerOf key)

theorem owns_eq {i : Nat} {m : Member} (hm : s.cluster.members[i]? = some m) (key : String) :
    s.owns i key = m.membership.isLocal (m.membership.ownerOf key) := by
  unfold owns
  rw [hm]
  rfl

theorem Takes.owns_eq (h : s.Takes e u) {i : Nat} {m : Member} (hm : s.cluster.members[i]? = some m)
    (he : ∀ addrs, e ≠ .plain (.setPeers i addrs)) (key : String) :
    u.owns i key = m.membership.isLocal (m.membership.ownerOf key) := by
  obtain ⟨m', hm', -⟩ := h.member_forward hm
  rw [Paced.owns_eq hm']
  obtain ⟨a, ha, hsame⟩ := (h.member hm').membership
  obtain rfl := eq_of_getElem? hm ha
  rcases hsame with ⟨addrs, hset, -⟩ | heq
  · exact absurd hset (he addrs)
  · rw [heq]

theorem Takes.owns_kept (h : s.Takes e u) {i : Nat} (he : ∀ addrs, e ≠ .plain (.setPeers i addrs))
    (key : String) : u.owns i key = s.owns i key := by
  cases hm : s.cluster.members[i]? with
  | some m => rw [h.owns_eq hm he, Paced.owns_eq hm]
  | none =>
    unfold owns
    rw [hm, h.no_member hm]

/-- A reply that has come stays. -/
theorem Takes.replies (h : s.Takes e u) : u.replies = s.replies ∨
    ∃ n r t, e = .reply n r ∧ s.cluster.loads[n]? = some t ∧ t.phase.awaits r = true ∧
      s.reply? n = none ∧ u.replies = (n, r) :: s.replies := by
  cases h with
  | reply ht ha hnone => exact .inr ⟨_, _, _, rfl, ht, ha, hnone, rfl⟩
  | _ => exact .inl rfl

/-- A load that settles has ended. -/
theorem Takes.settled {n : Nat} {now : Instant} (h : s.Takes (.settle n now) u) :
    ∃ t, u.cluster.loads[n]? = some t ∧ t.phase.rank = 2 := by
  cases h with
  | settle ht hm hr hset =>
    exact ⟨_, getElem?_modify_eq_some.mpr ⟨_, ht, (if_pos rfl).symm⟩, hset.rank.2⟩
  | remove hrem => exact hrem.elim

/-! ## In a run -/

theorem run_load {n : Nat} {t : LoadTask} (ht : s.cluster.loads[n]? = some t) (es : List Event) :
    ∃ p, (s.run es).cluster.loads[n]? = some { t with phase := p } ∧ t.phase.rank ≤ p.rank := by
  refine keeps_always (I := fun u => ∃ p, u.cluster.loads[n]? = some { t with phase := p } ∧
    t.phase.rank ≤ p.rank) ?_ ⟨t.phase, ht, Nat.le_refl _⟩ es
  rintro v e w ⟨p, hv, hp⟩ h
  obtain ⟨p', hw, hp'⟩ := h.load_forward hv
  exact ⟨p', hw, Nat.le_trans hp hp'⟩

/-! ## Runs of a cluster -/

/-- Every reply that has come is settled. -/
def Settled (s : Paced) : Prop :=
  ∀ n, s.reply? n ≠ none → ∃ t, s.cluster.loads[n]? = some t ∧ 2 ≤ t.phase.rank

/-- A reply comes, and is settled at once. -/
theorem run_reply_settle (hs : s.Settled) {n : Nat} {t : LoadTask} {m : Member} {r : LoadReply}
    {now : Instant} {g : Group} {p : LoadPhase} (ht : s.cluster.loads[n]? = some t)
    (hm : s.cluster.members[t.host]? = some m) (ha : t.phase.awaits r = true)
    (h : m.settleReply? t r now = some (g, p)) :
    let u := s.run [.reply n r, .settle n now]
    u.cluster = (s.cluster.setGroup t.host g).setLoad n p ∧ u.Settled := by
  have hnone : s.reply? n = none := by
    by_contra hsome
    obtain ⟨t', ht', h2⟩ := hs n hsome
    obtain rfl := eq_of_getElem? ht ht'
    have h1 := LoadPhase.awaits_rank ha
    omega
  have hreply : s.step? (.reply n r) = some { s with replies := (n, r) :: s.replies } := by
    simp [step?, receive?, ht, ha, hnone]
  have hfound : ({ s with replies := (n, r) :: s.replies } : Paced).reply? n = some r :=
    List.lookup_cons_self
  have hsettle : step? { s with replies := (n, r) :: s.replies } (.settle n now) =
      some ⟨(s.cluster.setGroup t.host g).setLoad n p, (n, r) :: s.replies⟩ := by
    simp [step?, settle?, ht, hm, hfound, h, on]
  have hrun : s.run [.reply n r, .settle n now] =
      ⟨(s.cluster.setGroup t.host g).setLoad n p, (n, r) :: s.replies⟩ := by
    show (s.step _).step _ = _
    rw [step_eq hreply, step_eq hsettle]
  intro u
  show u.cluster = _ ∧ Settled u
  rw [show u = _ from hrun]
  refine ⟨rfl, ?_⟩
  intro k hk
  by_cases hkn : n = k
  · subst hkn
    exact ⟨_, getElem?_modify_eq_some.mpr ⟨t, ht, (if_pos rfl).symm⟩,
      Nat.le_of_eq (Member.settles h).rank.2.symm⟩
  · have hold : s.reply? k ≠ none := by
      unfold reply? at hk ⊢
      rwa [List.lookup_cons, beq_eq_false_iff_ne.mpr fun he => hkn he.symm] at hk
    obtain ⟨t', ht', h2⟩ := hs k hold
    exact ⟨t', getElem?_modify_eq_some.mpr ⟨t', ht', (if_neg hkn).symm⟩, h2⟩

/-- Each step of a cluster is one step at its own pace, or the coming of a reply and its settling. -/
theorem exists_step_eq (hs : s.Settled) {e : Cluster.Event} {c : Cluster} (h : s.cluster.step? e = some c) :
    ∃ es, (s.run es).cluster = c ∧ (s.run es).Settled := by
  have hfetch {n : Nat} {x : Ending} {now : Instant} (hx : s.cluster.endFetch? n x now = some c) :
      ∃ es, (s.run es).cluster = c ∧ (s.run es).Settled := by
    simp only [Cluster.endFetch?, Option.bind_eq_bind, Option.bind_eq_some_iff, Option.some.injEq] at hx
    obtain ⟨t, ht, m, hm, ⟨g, p⟩, hset, rfl⟩ := hx
    unfold Member.settle? at hset
    split at hset
    · next owner expireAt q hp =>
      have hsettle : m.settleReply? t (.fetch x) now = some (g, p) := by
        unfold Member.settleReply?
        rw [hp]
        exact hset
      exact ⟨_, run_reply_settle hs ht hm (by rw [hp]; rfl) hsettle⟩
    · cases hset
  cases hset : s.cluster.settles e with
  | false =>
    have hstep : s.step? (.plain e) = some (s.on c) := by
      simp [step?, hset, h]
    refine ⟨[.plain e], ?_⟩
    show (s.step _).cluster = c ∧ (s.step _).Settled
    rw [step_eq hstep]
    refine ⟨rfl, ?_⟩
    intro n hn
    obtain ⟨t, ht, h2⟩ := hs n hn
    obtain ⟨p, ht', hle⟩ := (takes hstep).load_forward ht
    exact ⟨_, ht', Nat.le_trans h2 hle⟩
  | true =>
    cases e with
    | work n now =>
      replace h : s.cluster.work? n now = some c := h
      simp only [Cluster.work?, Option.bind_eq_bind, Option.bind_eq_some_iff, Option.some.injEq] at h
      obtain ⟨t, ht, m, hm, ⟨g, p⟩, hwork, rfl⟩ := h
      have hasking : t.phase.isAsking = true := by simpa [Cluster.settles, ht] using hset
      unfold Member.work? at hwork
      split at hwork
      · next hp => rw [hp] at hasking; cases hasking
      · next source expireAt hp =>
        have hsettle : m.settleReply? t (.backfill (source.fetch m.files t.load.key)) now = some (g, p) := by
          unfold Member.settleReply?
          rw [hp]
          exact hwork
        exact ⟨_, run_reply_settle hs ht hm (by rw [hp]; rfl) hsettle⟩
      · next e hp => rw [hp] at hasking; cases hasking
      · cases hwork
    | respond n now =>
      replace h : s.cluster.respond? n now = some c := h
      simp only [Cluster.respond?, Option.bind_eq_bind, Option.bind_eq_some_iff] at h
      obtain ⟨t, -, h⟩ := h
      split at h
      · simp only [Option.bind_eq_some_iff] at h
        obtain ⟨q, -, h⟩ := h
        split at h
        · exact hfetch h
        · cases h
      · cases h
    | endFetch n x now => exact hfetch h
    | _ => cases hset

/-- **Every run of a cluster is a run of a paced one**: what is proved of all runs in which an answer
may wait to be stored holds of those in which it does not. -/
theorem exists_run_eq (founders : List Founder) (es : List Cluster.Event) :
    ∃ ps, ((start founders).run ps).cluster = (Cluster.start founders).run es := by
  have hrun (s : Paced) (hs : s.Settled) : ∃ ps, (s.run ps).cluster = s.cluster.run es := by
    induction es generalizing s with
    | nil => exact ⟨[], rfl⟩
    | cons e es ih =>
      show ∃ ps, (s.run ps).cluster = ((s.cluster.step? e).getD s.cluster).run es
      cases h : s.cluster.step? e with
      | none => exact ih s hs
      | some c =>
        obtain ⟨as, rfl, has⟩ := exists_step_eq hs h
        obtain ⟨bs, hbs⟩ := ih _ has
        exact ⟨as ++ bs, by rw [run_append]; exact hbs⟩
  exact hrun (start founders) fun n hn => absurd rfl hn

end Paced

end PeerCache
