import Mathlib
import PeerCache.Proofs.Cluster.Paced
import PeerCache.Proofs.Group.Steps
import PeerCache.Proofs.Lists

/-!
# What a step can come to

Everything that a step of a paced cluster can do, said once (`Paced.Takes`, `takes`): which parts
of the cluster change, to what, and under which conditions.  What is true of all steps follows by
its cases, without a look at the functions.

What one place can hold after a step is read off it: a request (`RequestAfter`), a load
(`LoadAfter`), a node (`MemberAfter`).  So an invariant about each of these needs an answer for
each way in which that one thing can change, and for no other.
-/

namespace PeerCache

namespace Group

/-- The same name, and no flight comes or goes. -/
structure SameFlights (g h : Group) : Prop where
  name : h.name = g.name
  sites : h.coordinator.sites = g.coordinator.sites
  nextLoad : h.coordinator.nextLoad = g.coordinator.nextLoad

theorem Aside.sameFlights {g h : Group} (ha : Aside g h) : SameFlights g h :=
  ⟨ha.name, by rw [ha.coordinator], by rw [ha.coordinator]⟩

end Group

namespace Member

/-! ## At a node -/

/-- What a request that starts no load can come to: the group after the step, and the request. -/
inductive Advances (m : Member) (key : String) (now : Instant) :
    RequestPhase → Group → RequestPhase → Prop
  | accept (h : m.membership.isLocal (m.membership.ownerOf key) = true) :
      Advances m key now .arrived (m.group.accept m.membership key).1 .asking
  | refuse (h : m.membership.isLocal (m.membership.ownerOf key) = false) :
      Advances m key now .arrived (m.group.accept m.membership key).1
        (.answered (.error (.notOwned m.group.name key (m.membership.ownerOf key).addr)))
  | look : Advances m key now .asking m.group.countGet (.looking (m.membership.ownerOf key))
  | find {owner : Peer} {v : ByteArray}
      (h : (m.group.probe (Group.home (m.membership.isLocal owner)) key now).2 = some v) :
      Advances m key now (.looking owner)
        (m.group.probe (Group.home (m.membership.isLocal owner)) key now).1.countHit (.answered (.ok v))
  | lack {owner : Peer} (hl : m.membership.isLocal owner = true)
      (h : (m.group.probe .main key now).2 = none) :
      Advances m key now (.looking owner) (m.group.probe .main key now).1.countMiss (.missed owner)
  | turn {owner : Peer} (hl : m.membership.isLocal owner = false)
      (h : (m.group.probe .hot key now).2 = none) :
      Advances m key now (.looking owner) (m.group.probe .hot key now).1 (.glancing owner)
  | glance {owner : Peer} {v : ByteArray} (h : m.group.glance key now = some v) :
      Advances m key now (.glancing owner) m.group.countHit (.answered (.ok v))
  | miss {owner : Peer} (h : m.group.glance key now = none) :
      Advances m key now (.glancing owner) m.group.countMiss (.missed owner)
  | join {owner : Peer} {n : Nat} {c : Coordinator}
      (hn : (n, m.group.name, key) ∈ m.group.coordinator.sites)
      (hc : Group.SameFlights m.group { m.group with coordinator := c }) :
      Advances m key now (.missed owner) { m.group with coordinator := c } (.waiting n)

/-- What the first step of a load can come to; it changes counters alone. -/
inductive Begins (m : Member) (l : Load) (now : Instant) : LoadPhase → Prop
  | present {e : Entry} (hl : m.membership.isLocal l.owner = true)
      (h : m.group.cache.main.peek l.key now = some e) :
      Begins m l now (.ended (.returned (.ok e.value)))
  | sourceless (hl : m.membership.isLocal l.owner = true) (h : m.group.settings.backfill = none) :
      Begins m l now (.ended (.returned (.error (.noBackfill m.group.name))))
  | ask {source : Backfill} (hl : m.membership.isLocal l.owner = true)
      (h : m.group.cache.main.peek l.key now = none) (hs : m.group.settings.backfill = some source) :
      Begins m l now (.asking source (m.group.defaultExpiry now))
  | fetch (hl : m.membership.isLocal l.owner = false) :
      Begins m l now (.fetching l.owner (m.group.defaultExpiry now) none)

variable {m : Member} {q : Request} {t : LoadTask} {now : Instant} {g : Group}

/-- **Everything that a step of a request can do** without starting a load. -/
theorem advances {p : RequestPhase} (h : m.advance? q now = some (g, p, none)) :
    m.Advances q.key now q.phase g p := by
  unfold advance? at h
  generalize q.phase = phase at h
  cases phase with
  | arrived =>
    simp only [Group.accept] at h
    cases hl : m.membership.isLocal (m.membership.ownerOf q.key) with
    | true =>
      simp only [hl, if_true] at h
      cases h
      exact .accept hl
    | false =>
      simp only [hl, Bool.false_eq_true, if_false] at h
      cases h
      exact .refuse hl
  | asking =>
    cases h
    exact .look
  | looking owner =>
    simp only at h
    split at h
    · next g' v he =>
      cases h
      have hfind := Advances.find (congrArg Prod.snd he)
      rw [he] at hfind
      exact hfind
    · next g' he =>
      cases hl : m.membership.isLocal owner with
      | true =>
        rw [hl] at he
        simp only [hl, if_true] at h
        cases h
        have hlack := Advances.lack hl (congrArg Prod.snd he)
        rw [show m.group.probe .main q.key now = (g', none) from he] at hlack
        exact hlack
      | false =>
        rw [hl] at he
        simp only [hl, Bool.false_eq_true, if_false] at h
        cases h
        have hturn := Advances.turn hl (congrArg Prod.snd he)
        rw [show m.group.probe .hot q.key now = (g, none) from he] at hturn
        exact hturn
  | glancing owner =>
    simp only at h
    split at h
    · next v he =>
      cases h
      exact .glance he
    · next he =>
      cases h
      exact .miss he
  | missed owner =>
    simp only at h
    rcases m.group.join_cases q.key owner with ⟨c, n, hj, hn, hs, hnext⟩ | ⟨c, n, hj, -⟩
    · rw [hj] at h
      cases h
      exact .join hn ⟨rfl, hs, hnext⟩
    · rw [hj] at h
      cases h
  | waiting n => cases h
  | answered o => cases h
  | abandoned => cases h

/-- **Everything that a request can do when it starts a load**: its key had no flight, and now has
one under the next number. -/
theorem starts {p : RequestPhase} {l : Load} (h : m.advance? q now = some (g, p, some l)) :
    ∃ owner c, q.phase = .missed owner ∧ g = { m.group with coordinator := c } ∧
      p = .waiting l.number ∧ l = ⟨m.group.coordinator.nextLoad, q.key, owner⟩ ∧
      (∀ n, (n, m.group.name, q.key) ∉ m.group.coordinator.sites) ∧
      c.sites = (l.number, m.group.name, q.key) :: m.group.coordinator.sites ∧
      c.nextLoad = m.group.coordinator.nextLoad + 1 := by
  unfold advance? at h
  generalize q.phase = phase at h
  cases phase with
  | missed owner =>
    simp only at h
    rcases m.group.join_cases q.key owner with ⟨c, n, hj, -⟩ | ⟨c, n, hj, hn, hfree, hs, hnext⟩
    · rw [hj] at h
      cases h
    · rw [hj] at h
      cases h
      subst hn
      exact ⟨owner, c, rfl, rfl, rfl, rfl, hfree, hs, hnext⟩
  | arrived =>
    simp only at h
    split at h <;> cases h
  | looking owner =>
    simp only at h
    split at h
    · cases h
    · split at h <;> cases h
  | glancing owner =>
    simp only at h
    split at h <;> cases h
  | asking => cases h
  | waiting n => cases h
  | answered o => cases h
  | abandoned => cases h

/-- **Everything that the first step of a load can do.** -/
theorem begins {p : LoadPhase} (hp : t.phase = .queued) (h : m.work? t now = some (g, p)) :
    Group.Aside m.group g ∧ g.cache = m.group.cache ∧ m.Begins t.load now p := by
  unfold work? at h
  rw [hp] at h
  obtain ⟨ha, hc, hcases⟩ := m.group.beginLoad_cases m.membership t.load now
  have hask (b : Backfill) (hl : m.membership.isLocal t.load.owner = true)
      (hb : (m.group.beginLoad m.membership t.load now).2 = .ask b (m.group.defaultExpiry now)) :
      m.group.cache.main.peek t.load.key now = none := by
    unfold Group.beginLoad at hb
    rw [if_pos hl] at hb
    cases hpeek : m.group.cache.main.peek t.load.key now with
    | none => rfl
    | some e =>
      rw [hpeek] at hb
      cases hb
  generalize m.group.beginLoad m.membership t.load now = b at ha hc hcases hask h
  obtain ⟨g', step⟩ := b
  rcases hcases with ⟨e, hl, hpeek, rfl⟩ | ⟨hl, hs, rfl⟩ | ⟨source, hl, hs, rfl⟩ | ⟨hl, rfl⟩
  · cases h
    exact ⟨ha, hc, .present hl hpeek⟩
  · cases h
    exact ⟨ha, hc, .sourceless hl hs⟩
  · cases h
    exact ⟨ha, hc, .ask hl (hask source hl rfl) hs⟩
  · cases h
    exact ⟨ha, hc, .fetch hl⟩

end Member

/-! ## In a cluster -/

/-- The tier in which a load that has asked for its value stores it. -/
def LoadPhase.home? : LoadPhase → Option TierKind
  | asking .. => some .main
  | fetching .. => some .hot
  | _ => none

/-- The expiry of what such a load stores, settled when it began. -/
def LoadPhase.expiry? : LoadPhase → Option (Option Instant)
  | asking _ x => some x
  | fetching _ x _ => some x
  | _ => none

namespace Member

/-- What the settling of a reply can come to: the value is stored, or only an error is counted. -/
inductive Settles (m : Member) (t : LoadTask) (r : LoadReply) (now : Instant) : Group → LoadPhase → Prop
  | store {kind : TierKind} {v : ByteArray} {expireAt : Option Instant}
      (ha : t.phase.awaits r = true) (hk : t.phase.home? = some kind) (hv : r.value? = some v)
      (hx : t.phase.expiry? = some expireAt) :
      Settles m t r now (m.group.store kind t.load.key v expireAt now) (.ended (.returned (.ok v)))
  | fail {g : Group} {e : Ending} (ha : t.phase.awaits r = true) (hv : r.value? = none)
      (hg : Group.Aside m.group g) (hc : g.cache = m.group.cache) (he : ∀ v, e ≠ .returned (.ok v)) :
      Settles m t r now g (.ended e)

theorem settles {m : Member} {t : LoadTask} {r : LoadReply} {now : Instant} {g : Group} {p : LoadPhase}
    (h : m.settleReply? t r now = some (g, p)) : m.Settles t r now g p := by
  unfold settleReply? at h
  split at h
  · next source expireAt a hp =>
    have ha : t.phase.awaits (.backfill a) = true := by rw [hp]; rfl
    have hk : t.phase.home? = some .main := by rw [hp]; rfl
    have hx : t.phase.expiry? = some expireAt := by rw [hp]; rfl
    cases a with
    | value v => cases h; exact .store ha hk rfl hx
    | missing => cases h; exact .fail ha rfl ⟨rfl, rfl, rfl⟩ rfl (by rintro v ⟨⟩)
    | failed text => cases h; exact .fail ha rfl ⟨rfl, rfl, rfl⟩ rfl (by rintro v ⟨⟩)
    | panicked => cases h; exact .fail ha rfl ⟨rfl, rfl, rfl⟩ rfl (by rintro v ⟨⟩)
  · next owner expireAt request e hp =>
    have ha : t.phase.awaits (.fetch e) = true := by rw [hp]; rfl
    have hk : t.phase.home? = some .hot := by rw [hp]; rfl
    have hx : t.phase.expiry? = some expireAt := by rw [hp]; rfl
    rcases e with (err | v) | _
    · cases h; exact .fail ha rfl ⟨rfl, rfl, rfl⟩ rfl (by rintro v ⟨⟩)
    · cases h; exact .store ha hk rfl hx
    · cases h; exact .fail ha rfl ⟨rfl, rfl, rfl⟩ rfl (by rintro v ⟨⟩)
  · cases h

end Member

namespace Paced

/-- A removal of a key at a node, of its own or one that it is told. -/
def Removes (s : Paced) (i : Nat) (key : String) : Event → Prop
  | .plain (.remove j k) | .plain (.removeLocal j k) => j = i ∧ k = key
  | .plain (.deliverRemoval d j) => j = i ∧ ∃ p, s.cluster.removals[d]? = some (p, key)
  | _ => False

/-- What a step can come to. -/
inductive Takes (s : Paced) : Event → Paced → Prop
  | get (i : Nat) (key : String) :
      Takes s (.plain (.get i key)) (s.on (s.cluster.addRequest ⟨i, key, false, .asking⟩))
  | serve (i : Nat) (key : String) :
      Takes s (.plain (.serve i key)) (s.on (s.cluster.addRequest ⟨i, key, true, .arrived⟩))
  | advance {r : Nat} {now : Instant} {q : Request} {m : Member} {g : Group} {p : RequestPhase}
      (hq : s.cluster.requests[r]? = some q) (hm : s.cluster.members[q.host]? = some m)
      (h : m.Advances q.key now q.phase g p) :
      Takes s (.plain (.advance r now)) (s.on ((s.cluster.setGroup q.host g).setRequest r p))
  /-- A request starts a load: its key had no flight, and now has one under the next number. -/
  | start {r : Nat} {now : Instant} {q : Request} {m : Member} {owner : Peer} {c : Coordinator} {n : Nat}
      (hq : s.cluster.requests[r]? = some q) (hm : s.cluster.members[q.host]? = some m)
      (hp : q.phase = .missed owner) (hn : n = m.group.coordinator.nextLoad)
      (hfree : ∀ k, (k, m.group.name, q.key) ∉ m.group.coordinator.sites)
      (hs : c.sites = (n, m.group.name, q.key) :: m.group.coordinator.sites)
      (hnext : c.nextLoad = n + 1) :
      Takes s (.plain (.advance r now)) (s.on
        (((s.cluster.setGroup q.host { m.group with coordinator := c }).setRequest r (.waiting n)).addLoad
          { host := q.host, load := ⟨n, q.key, owner⟩ }))
  | hear {r : Nat} {q : Request} {n : Nat} {t : LoadTask} {e : Ending} {group : String}
      (hq : s.cluster.requests[r]? = some q) (hp : q.phase = .waiting n)
      (ht : s.cluster.loadOf? q.host n = some t) (he : t.phase = .released e) :
      Takes s (.plain (.hear r))
        (s.on (s.cluster.setRequest r (.answered (e.outcome group t.load.key))))
  | abandon {r : Nat} {q : Request} (hq : s.cluster.requests[r]? = some q) (ho : q.phase.isOpen = true) :
      Takes s (.plain (.abandon r)) (s.on (s.cluster.setRequest r .abandoned))
  | begin {n : Nat} {now : Instant} {t : LoadTask} {m : Member} {g : Group} {p : LoadPhase}
      (ht : s.cluster.loads[n]? = some t) (hm : s.cluster.members[t.host]? = some m)
      (hp : t.phase = .queued) (ha : Group.Aside m.group g) (hc : g.cache = m.group.cache)
      (h : m.Begins t.load now p) :
      Takes s (.plain (.work n now)) (s.on ((s.cluster.setGroup t.host g).setLoad n p))
  | release {n : Nat} {now : Instant} {t : LoadTask} {m : Member} {e : Ending}
      (ht : s.cluster.loads[n]? = some t) (hm : s.cluster.members[t.host]? = some m)
      (hp : t.phase = .ended e) :
      Takes s (.plain (.work n now))
        (s.on ((s.cluster.setGroup t.host (m.group.release t.load)).setLoad n (.released e)))
  | deliver {n j : Nat} {t : LoadTask} {m : Member} {owner : Peer} {expireAt : Option Instant}
      (ht : s.cluster.loads[n]? = some t) (hm : s.cluster.members[j]? = some m)
      (hp : t.phase = .fetching owner expireAt none) (hl : m.membership.isLocal owner = true) :
      Takes s (.plain (.deliver n j)) (s.on
        ((s.cluster.setLoad n (.fetching owner expireAt (some s.cluster.requests.length))).addRequest
          ⟨j, t.load.key, true, .arrived⟩))
  | reply {n : Nat} {r : LoadReply} {t : LoadTask} (ht : s.cluster.loads[n]? = some t)
      (ha : t.phase.awaits r = true) (hnone : s.reply? n = none) :
      Takes s (.reply n r) { s with replies := (n, r) :: s.replies }
  | settle {n : Nat} {now : Instant} {t : LoadTask} {m : Member} {r : LoadReply} {g : Group} {p : LoadPhase}
      (ht : s.cluster.loads[n]? = some t) (hm : s.cluster.members[t.host]? = some m)
      (hr : s.reply? n = some r) (h : m.Settles t r now g p) :
      Takes s (.settle n now) (s.on ((s.cluster.setGroup t.host g).setLoad n p))
  | remove {e : Event} {i : Nat} {key : String} {m : Member} {rs : List (Peer × String)}
      (h : s.Removes i key e) (hm : s.cluster.members[i]? = some m) :
      Takes s e (s.on { s.cluster.setGroup i (m.group.removeLocal key).1 with removals := rs })
  | lose (d : Nat) :
      Takes s (.plain (.loseRemoval d)) (s.on { s.cluster with removals := s.cluster.removals.eraseIdx d })
  | set {i : Nat} {key : String} {v : ByteArray} {x : Expiration} {now : Instant} {m : Member}
      (hm : s.cluster.members[i]? = some m) :
      Takes s (.plain (.set i key v x now)) (s.on (s.cluster.setGroup i (m.group.setWith key v x now)))
  | setPeers (i : Nat) (addrs : List String) :
      Takes s (.plain (.setPeers i addrs))
        (s.on { s.cluster with members := s.cluster.members.modify i (·.setPeers addrs) })
  | register (i : Nat) (c : GroupConfig) (now : Instant) :
      Takes s (.plain (.register i c now))
        (s.on { s.cluster with members := s.cluster.members.modify i (·.register c now) })

variable {s u : Paced} {e : Event}

theorem takes_advance {r : Nat} {now : Instant} {c : Cluster} (h : s.cluster.advance? r now = some c) :
    s.Takes (.plain (.advance r now)) (s.on c) := by
  simp only [Cluster.advance?, Option.bind_eq_bind, Option.bind_eq_some_iff, Option.some.injEq] at h
  obtain ⟨q, hq, m, hm, ⟨g, p, - | l⟩, hadv, rfl⟩ := h
  · exact .advance hq hm (Member.advances hadv)
  · obtain ⟨owner, c, hp, rfl, rfl, rfl, hfree, hs, hnext⟩ := Member.starts hadv
    exact .start hq hm hp rfl hfree hs hnext

theorem takes_hear {r : Nat} {c : Cluster} (h : s.cluster.hear? r = some c) :
    s.Takes (.plain (.hear r)) (s.on c) := by
  simp only [Cluster.hear?, Option.bind_eq_bind, Option.bind_eq_some_iff] at h
  obtain ⟨q, hq, h⟩ := h
  split at h
  · next n hp =>
    simp only [Option.bind_eq_some_iff] at h
    obtain ⟨m, -, t, ht, h⟩ := h
    split at h
    · next he => cases h; exact .hear hq hp ht he
    · cases h
  · cases h

theorem takes_abandon {r : Nat} {c : Cluster} (h : s.cluster.abandon? r = some c) :
    s.Takes (.plain (.abandon r)) (s.on c) := by
  simp only [Cluster.abandon?, Option.bind_eq_bind, Option.bind_eq_some_iff] at h
  obtain ⟨q, hq, h⟩ := h
  split at h
  · next ho => cases h; exact .abandon hq ho
  · cases h

theorem takes_work {n : Nat} {now : Instant} {c : Cluster} (hs : s.cluster.settles (.work n now) = false)
    (h : s.cluster.work? n now = some c) : s.Takes (.plain (.work n now)) (s.on c) := by
  simp only [Cluster.work?, Option.bind_eq_bind, Option.bind_eq_some_iff, Option.some.injEq] at h
  obtain ⟨t, ht, m, hm, ⟨g, p⟩, hwork, rfl⟩ := h
  have hasking : t.phase.isAsking = false := by simpa [Cluster.settles, ht] using hs
  cases hp : t.phase with
  | queued =>
    obtain ⟨ha, hc, hb⟩ := Member.begins hp hwork
    exact .begin ht hm hp ha hc hb
  | asking source x => rw [hp] at hasking; cases hasking
  | fetching owner x q =>
    simp only [Member.work?, hp] at hwork
    cases hwork
  | ended e =>
    simp only [Member.work?, hp] at hwork
    cases hwork
    exact .release ht hm hp
  | released e =>
    simp only [Member.work?, hp] at hwork
    cases hwork

theorem takes_deliver {n j : Nat} {c : Cluster} (h : s.cluster.deliver? n j = some c) :
    s.Takes (.plain (.deliver n j)) (s.on c) := by
  simp only [Cluster.deliver?, Option.bind_eq_bind, Option.bind_eq_some_iff] at h
  obtain ⟨t, ht, m, hm, h⟩ := h
  split at h
  · next hp =>
    split at h
    · next hl => cases h; exact .deliver ht hm hp hl
    · cases h
  · cases h

theorem takes_remove {i : Nat} {key : String} {c : Cluster} (h : s.cluster.remove? i key = some c) :
    s.Takes (.plain (.remove i key)) (s.on c) := by
  simp only [Cluster.remove?, Cluster.removeLocal?, Option.bind_eq_bind, Option.bind_eq_some_iff,
    Option.some.injEq] at h
  obtain ⟨m, hm, -, ⟨m', hm', rfl⟩, rfl⟩ := h
  exact .remove ⟨rfl, rfl⟩ hm'

theorem takes_removeLocal {i : Nat} {key : String} {c : Cluster}
    (h : s.cluster.removeLocal? i key = some c) : s.Takes (.plain (.removeLocal i key)) (s.on c) := by
  simp only [Cluster.removeLocal?, Option.bind_eq_bind, Option.bind_eq_some_iff, Option.some.injEq] at h
  obtain ⟨m, hm, rfl⟩ := h
  have hrem : s.Takes (.plain (.removeLocal i key))
      (s.on { s.cluster.setGroup i (m.group.removeLocal key).1 with removals := s.cluster.removals }) :=
    .remove ⟨rfl, rfl⟩ hm
  exact hrem

theorem takes_deliverRemoval {d j : Nat} {c : Cluster} (h : s.cluster.deliverRemoval? d j = some c) :
    s.Takes (.plain (.deliverRemoval d j)) (s.on c) := by
  simp only [Cluster.deliverRemoval?, Option.bind_eq_bind, Option.bind_eq_some_iff] at h
  obtain ⟨⟨p, key⟩, hd, m, -, h⟩ := h
  split at h
  · simp only [Cluster.removeLocal?, Option.bind_eq_bind, Option.bind_eq_some_iff, Option.some.injEq] at h
    obtain ⟨m', hm', rfl⟩ := h
    exact .remove ⟨rfl, p, hd⟩ hm'
  · cases h

/-- **Everything that a step can do.** -/
theorem takes (h : s.step? e = some u) : s.Takes e u := by
  cases e with
  | reply n r =>
    simp only [step?, receive?, Option.bind_eq_bind, Option.bind_eq_some_iff] at h
    obtain ⟨t, ht, h⟩ := h
    split at h
    · next hc =>
      cases h
      rw [Bool.and_eq_true, Option.isNone_iff_eq_none] at hc
      exact .reply ht hc.1 hc.2
    · cases h
  | settle n now =>
    simp only [step?, settle?, Option.bind_eq_bind, Option.bind_eq_some_iff, Option.some.injEq] at h
    obtain ⟨t, ht, m, hm, r, hr, ⟨g, p⟩, hset, rfl⟩ := h
    exact .settle ht hm hr (Member.settles hset)
  | plain e =>
    simp only [step?] at h
    split at h
    · cases h
    · next hs =>
      obtain ⟨c, hc, rfl⟩ := Option.map_eq_some_iff.mp h
      rw [Bool.not_eq_true] at hs
      cases e with
      | get i key => cases hc; exact .get i key
      | serve i key => cases hc; exact .serve i key
      | advance r now => exact takes_advance hc
      | hear r => exact takes_hear hc
      | abandon r => exact takes_abandon hc
      | work n now => exact takes_work hs hc
      | deliver n j => exact takes_deliver hc
      | respond n now => cases hs
      | endFetch n e now => cases hs
      | remove i key => exact takes_remove hc
      | removeLocal i key => exact takes_removeLocal hc
      | deliverRemoval d j => exact takes_deliverRemoval hc
      | loseRemoval d => cases hc; exact .lose d
      | set i key v x now =>
        simp only [Cluster.step?, Cluster.set?, Option.bind_eq_bind, Option.bind_eq_some_iff,
          Option.some.injEq] at hc
        obtain ⟨m, hm, rfl⟩ := hc
        exact .set hm
      | setPeers i addrs => cases hc; exact .setPeers i addrs
      | register i c now => cases hc; exact .register i c now

/-! ## At one place -/

/-- What can stand at a place of the requests after a step. -/
inductive RequestAfter (s : Paced) (r : Nat) : Event → Request → Prop
  | same {e : Event} {q : Request} (hq : s.cluster.requests[r]? = some q) : RequestAfter s r e q
  | get {i : Nat} {key : String} (hr : r = s.cluster.requests.length) :
      RequestAfter s r (.plain (.get i key)) ⟨i, key, false, .asking⟩
  | serve {i : Nat} {key : String} (hr : r = s.cluster.requests.length) :
      RequestAfter s r (.plain (.serve i key)) ⟨i, key, true, .arrived⟩
  | deliver {n j : Nat} {key : String} (hr : r = s.cluster.requests.length) :
      RequestAfter s r (.plain (.deliver n j)) ⟨j, key, true, .arrived⟩
  | advance {now : Instant} {q : Request} {m : Member} {g : Group} {p : RequestPhase}
      (hq : s.cluster.requests[r]? = some q) (hm : s.cluster.members[q.host]? = some m)
      (h : m.Advances q.key now q.phase g p) :
      RequestAfter s r (.plain (.advance r now)) { q with phase := p }
  | start {now : Instant} {q : Request} {m : Member} {owner : Peer} {n : Nat}
      (hq : s.cluster.requests[r]? = some q) (hm : s.cluster.members[q.host]? = some m)
      (hp : q.phase = .missed owner) (hn : n = m.group.coordinator.nextLoad) :
      RequestAfter s r (.plain (.advance r now)) { q with phase := .waiting n }
  | hear {q : Request} {n k : Nat} {t : LoadTask} {e : Ending} {group : String}
      (hq : s.cluster.requests[r]? = some q) (hp : q.phase = .waiting n)
      (ht : s.cluster.loads[k]? = some t) (hh : t.host = q.host) (hn : t.load.number = n)
      (he : t.phase = .released e) :
      RequestAfter s r (.plain (.hear r)) { q with phase := .answered (e.outcome group t.load.key) }
  | abandon {q : Request} (hq : s.cluster.requests[r]? = some q) (ho : q.phase.isOpen = true) :
      RequestAfter s r (.plain (.abandon r)) { q with phase := .abandoned }

/-- What can stand at a place of the loads after a step. -/
inductive LoadAfter (s : Paced) (n : Nat) : Event → LoadTask → Prop
  | same {e : Event} {t : LoadTask} (ht : s.cluster.loads[n]? = some t) : LoadAfter s n e t
  | start {r : Nat} {now : Instant} {q : Request} {m : Member} {owner : Peer} {k : Nat}
      (hn : n = s.cluster.loads.length)
      (hq : s.cluster.requests[r]? = some q) (hm : s.cluster.members[q.host]? = some m)
      (hp : q.phase = .missed owner) (hk : k = m.group.coordinator.nextLoad) :
      LoadAfter s n (.plain (.advance r now)) { host := q.host, load := ⟨k, q.key, owner⟩ }
  | begin {now : Instant} {t : LoadTask} {m : Member} {p : LoadPhase}
      (ht : s.cluster.loads[n]? = some t) (hm : s.cluster.members[t.host]? = some m)
      (hp : t.phase = .queued) (h : m.Begins t.load now p) :
      LoadAfter s n (.plain (.work n now)) { t with phase := p }
  | release {now : Instant} {t : LoadTask} {e : Ending} (ht : s.cluster.loads[n]? = some t)
      (hp : t.phase = .ended e) : LoadAfter s n (.plain (.work n now)) { t with phase := .released e }
  | deliver {j : Nat} {t : LoadTask} {owner : Peer} {expireAt : Option Instant}
      (ht : s.cluster.loads[n]? = some t) (hp : t.phase = .fetching owner expireAt none) :
      LoadAfter s n (.plain (.deliver n j))
        { t with phase := .fetching owner expireAt (some s.cluster.requests.length) }
  | settle {now : Instant} {t : LoadTask} {m : Member} {r : LoadReply} {g : Group} {p : LoadPhase}
      (ht : s.cluster.loads[n]? = some t) (hm : s.cluster.members[t.host]? = some m)
      (hr : s.reply? n = some r) (h : m.Settles t r now g p) :
      LoadAfter s n (.settle n now) { t with phase := p }

/-- What can stand at a place of the nodes after a step. -/
inductive MemberAfter (s : Paced) (i : Nat) : Event → Member → Prop
  | same {e : Event} {m : Member} (hm : s.cluster.members[i]? = some m) : MemberAfter s i e m
  | advance {r : Nat} {now : Instant} {q : Request} {m : Member} {g : Group} {p : RequestPhase}
      (hq : s.cluster.requests[r]? = some q) (hi : q.host = i) (hm : s.cluster.members[i]? = some m)
      (h : m.Advances q.key now q.phase g p) :
      MemberAfter s i (.plain (.advance r now)) { m with group := g }
  | start {r : Nat} {now : Instant} {q : Request} {m : Member} {c : Coordinator}
      (hq : s.cluster.requests[r]? = some q) (hi : q.host = i) (hm : s.cluster.members[i]? = some m) :
      MemberAfter s i (.plain (.advance r now)) { m with group := { m.group with coordinator := c } }
  | begin {n : Nat} {now : Instant} {t : LoadTask} {m : Member} {g : Group}
      (ht : s.cluster.loads[n]? = some t) (hi : t.host = i) (hm : s.cluster.members[i]? = some m)
      (ha : Group.Aside m.group g) (hc : g.cache = m.group.cache) :
      MemberAfter s i (.plain (.work n now)) { m with group := g }
  | release {n : Nat} {now : Instant} {t : LoadTask} {m : Member}
      (ht : s.cluster.loads[n]? = some t) (hi : t.host = i) (hm : s.cluster.members[i]? = some m) :
      MemberAfter s i (.plain (.work n now)) { m with group := m.group.release t.load }
  | settle {n : Nat} {now : Instant} {t : LoadTask} {m : Member} {r : LoadReply} {g : Group} {p : LoadPhase}
      (ht : s.cluster.loads[n]? = some t) (hi : t.host = i) (hm : s.cluster.members[i]? = some m)
      (hr : s.reply? n = some r) (h : m.Settles t r now g p) :
      MemberAfter s i (.settle n now) { m with group := g }
  | remove {e : Event} {key : String} {m : Member} (h : s.Removes i key e)
      (hm : s.cluster.members[i]? = some m) :
      MemberAfter s i e { m with group := (m.group.removeLocal key).1 }
  | set {key : String} {v : ByteArray} {x : Expiration} {now : Instant} {m : Member}
      (hm : s.cluster.members[i]? = some m) :
      MemberAfter s i (.plain (.set i key v x now)) { m with group := m.group.setWith key v x now }
  | setPeers {addrs : List String} {m : Member} (hm : s.cluster.members[i]? = some m) :
      MemberAfter s i (.plain (.setPeers i addrs)) (m.setPeers addrs)
  | register {c : GroupConfig} {now : Instant} {m : Member} (hm : s.cluster.members[i]? = some m) :
      MemberAfter s i (.plain (.register i c now)) (m.register c now)

/-- What stands in a list at a place after one place has changed. -/
theorem at_modify {α : Type} {xs : List α} {f : α → α} {i j : Nat} {a b : α} (ha : xs[i]? = some a)
    (hb : (xs.modify i f)[j]? = some b) : xs[j]? = some b ∨ i = j ∧ b = f a := by
  obtain ⟨c, hc, rfl⟩ := getElem?_modify_eq_some.mp hb
  split
  · next hj =>
    subst hj
    exact .inr ⟨rfl, by rw [eq_of_getElem? ha hc]⟩
  · exact .inl hc

theorem Takes.request (h : s.Takes e u) {r : Nat} {q : Request} (hq : u.cluster.requests[r]? = some q) :
    s.RequestAfter r e q := by
  cases h with
  | get i key =>
    rcases getElem?_concat_eq_some.mp hq with hq | ⟨hr, rfl⟩
    · exact .same hq
    · exact .get hr
  | serve i key =>
    rcases getElem?_concat_eq_some.mp hq with hq | ⟨hr, rfl⟩
    · exact .same hq
    · exact .serve hr
  | deliver ht hm hp hl =>
    rcases getElem?_concat_eq_some.mp hq with hq | ⟨hr, rfl⟩
    · exact .same hq
    · exact .deliver hr
  | advance hq' hm h =>
    rcases at_modify hq' hq with hq | ⟨rfl, rfl⟩
    · exact .same hq
    · exact .advance hq' hm h
  | start hq' hm hp hn hfree hs hnext =>
    rcases at_modify hq' hq with hq | ⟨rfl, rfl⟩
    · exact .same hq
    · exact .start hq' hm hp hn
  | hear hq' hp ht he =>
    rcases at_modify hq' hq with hq | ⟨rfl, rfl⟩
    · exact .same hq
    · obtain ⟨k, hk⟩ := List.mem_iff_getElem?.mp (List.mem_of_find?_eq_some ht)
      have hfound := List.find?_some ht
      rw [Bool.and_eq_true, beq_iff_eq, beq_iff_eq] at hfound
      exact .hear hq' hp hk hfound.1 hfound.2 he
  | abandon hq' ho =>
    rcases at_modify hq' hq with hq | ⟨rfl, rfl⟩
    · exact .same hq
    · exact .abandon hq' ho
  | begin | release | reply | settle | remove | lose | set | setPeers | register => exact .same hq

theorem Takes.load (h : s.Takes e u) {n : Nat} {t : LoadTask} (ht : u.cluster.loads[n]? = some t) :
    s.LoadAfter n e t := by
  cases h with
  | start hq hm hp hn hfree hs hnext =>
    rcases getElem?_concat_eq_some.mp ht with ht | ⟨hk, rfl⟩
    · exact .same ht
    · exact .start hk hq hm hp hn
  | begin ht' hm hp ha hc h =>
    rcases at_modify ht' ht with ht | ⟨rfl, rfl⟩
    · exact .same ht
    · exact .begin ht' hm hp h
  | release ht' hm hp =>
    rcases at_modify ht' ht with ht | ⟨rfl, rfl⟩
    · exact .same ht
    · exact .release ht' hp
  | deliver ht' hm hp hl =>
    rcases at_modify ht' ht with ht | ⟨rfl, rfl⟩
    · exact .same ht
    · exact .deliver ht' hp
  | settle ht' hm hr h =>
    rcases at_modify ht' ht with ht | ⟨rfl, rfl⟩
    · exact .same ht
    · exact .settle ht' hm hr h
  | get | serve | advance | hear | abandon | reply | remove | lose | set | setPeers | register =>
    exact .same ht

theorem Takes.member (h : s.Takes e u) {i : Nat} {m : Member} (hm : u.cluster.members[i]? = some m) :
    s.MemberAfter i e m := by
  cases h with
  | advance hq hm' h =>
    rcases at_modify hm' hm with hm | ⟨rfl, rfl⟩
    · exact .same hm
    · exact .advance hq rfl hm' h
  | start hq hm' hp hn hfree hs hnext =>
    rcases at_modify hm' hm with hm | ⟨rfl, rfl⟩
    · exact .same hm
    · exact .start hq rfl hm'
  | begin ht hm' hp ha hc h =>
    rcases at_modify hm' hm with hm | ⟨rfl, rfl⟩
    · exact .same hm
    · exact .begin ht rfl hm' ha hc
  | release ht hm' hp =>
    rcases at_modify hm' hm with hm | ⟨rfl, rfl⟩
    · exact .same hm
    · exact .release ht rfl hm'
  | settle ht hm' hr h =>
    rcases at_modify hm' hm with hm | ⟨rfl, rfl⟩
    · exact .same hm
    · exact .settle ht rfl hm' hr h
  | remove h hm' =>
    rcases at_modify hm' hm with hm | ⟨rfl, rfl⟩
    · exact .same hm
    · exact .remove h hm'
  | set hm' =>
    rcases at_modify hm' hm with hm | ⟨rfl, rfl⟩
    · exact .same hm
    · exact .set hm'
  | setPeers j addrs =>
    obtain ⟨a, ha, rfl⟩ := getElem?_modify_eq_some.mp hm
    split
    · next hj => subst hj; exact .setPeers ha
    · exact .same ha
  | register j c now =>
    obtain ⟨a, ha, rfl⟩ := getElem?_modify_eq_some.mp hm
    split
    · next hj => subst hj; exact .register ha
    · exact .same ha
  | get | serve | hear | abandon | deliver | reply | lose => exact .same hm

theorem Takes.reply_eq {n : Nat} {r : LoadReply} (h : s.Takes (.reply n r) u) :
    u = { s with replies := (n, r) :: s.replies } := by
  cases h with
  | reply ht ha hnone => rfl
  | remove hrem => exact hrem.elim

end Paced

end PeerCache
