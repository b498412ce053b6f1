import Mathlib
import PeerCache.Proofs.Cluster.Endings
import PeerCache.Proofs.Cluster.Entries

/-!
# Where a value comes from

When the peers of a node are set only between operations on a key (`Paced.Between`), every get and every
load of the key goes by the peer that the ring gives it to (`Paced.Current`).  So a node that does not own
the key answers with what the owner says, or with what one of its tiers has.  The hot tier has what an
earlier fetch has left.  The main tier has what was set; but nothing marks such a value, and when the node
has owned the key before, it can also be one that it has backfilled then (`backfill_outlives_ownership`).

Main statement: `answers_elsewhere`.
-/

namespace PeerCache

theorem RequestPhase.isOpen_of_owner? {p : RequestPhase} {owner : Peer} (h : p.owner? = some owner) :
    p.isOpen = true := by
  cases p <;> first | rfl | cases h

/-- What a load stores in the main tier its source has said, what it stores in the hot tier another node. -/
theorem LoadPhase.stored_cases {p : LoadPhase} {r : LoadReply} {kind : TierKind} {v : ByteArray}
    (ha : p.awaits r = true) (hk : p.home? = some kind) (hv : r.value? = some v) :
    kind = .main ∧ p.isAsking = true ∧ r = .backfill (.value v) ∨
      kind = .hot ∧ p.isFetching = true ∧ r = .fetch (.returned (.ok v)) := by
  cases p with
  | asking source x =>
    cases hk
    rcases r with (w | _ | text | _) | x
    · cases hv
      exact .inl ⟨rfl, rfl, rfl⟩
    all_goals first | cases hv | cases ha
  | fetching owner x q =>
    cases hk
    rcases r with a | (err | w) | _
    · cases ha
    · cases hv
    · cases hv
      exact .inr ⟨rfl, rfl, rfl⟩
    · cases hv
  | queued | ended | released => cases hk

namespace Paced

variable {s u : Paced} {e : Event} {i : Nat} {key : String}

/-! ## The owner of a key -/

/-- The peer that the ring of a node gives a key to. -/
def ringOwner? (s : Paced) (i : Nat) (key : String) : Option Peer :=
  s.cluster.members[i]?.map (·.membership.ownerOf key)

theorem ringOwner?_eq {m : Member} (hm : s.cluster.members[i]? = some m) (key : String) :
    s.ringOwner? i key = some (m.membership.ownerOf key) := by
  unfold ringOwner?
  rw [hm]
  rfl

theorem owns_of_ringOwner? {p : Peer} (h : s.ringOwner? i key = some p) :
    s.owns i key = s.isLocalAt i p := by
  obtain ⟨m, hm, rfl⟩ := Option.map_eq_some_iff.mp h
  rw [owns_eq hm, isLocalAt_eq hm]

/-- The ring of a node stays until its peers are set. -/
theorem Takes.ringOwner?_eq (h : s.Takes e u) (he : ∀ addrs, e ≠ .plain (.setPeers i addrs)) (key : String) :
    u.ringOwner? i key = s.ringOwner? i key := by
  cases hm : s.cluster.members[i]? with
  | some m =>
    obtain ⟨m', hm', -⟩ := h.member_forward hm
    obtain ⟨a, ha, hsame⟩ := (h.member hm').membership
    obtain rfl := eq_of_getElem? hm ha
    rw [Paced.ringOwner?_eq hm, Paced.ringOwner?_eq hm']
    rcases hsame with ⟨addrs, hset, -⟩ | heq
    · exact absurd hset (he addrs)
    · rw [heq]
  | none =>
    unfold ringOwner?
    rw [hm, h.no_member hm]

/-! ## Between operations -/

/-- No get and no request of a key is open at a node, and no load of it is in flight. -/
structure Resting (i : Nat) (key : String) (s : Paced) : Prop where
  request : ∀ q ∈ s.cluster.requests, q.host = i → q.key = key → q.phase.isOpen = false
  load : ∀ t ∈ s.cluster.loads, t.host = i → t.load.key = key → t.phase.isFlying = false

instance (i : Nat) (key : String) (s : Paced) : Decidable (s.Resting i key) :=
  decidable_of_iff ((∀ q ∈ s.cluster.requests, q.host = i → q.key = key → q.phase.isOpen = false) ∧
      ∀ t ∈ s.cluster.loads, t.host = i → t.load.key = key → t.phase.isFlying = false)
    ⟨fun h => ⟨h.1, h.2⟩, fun h => ⟨h.request, h.load⟩⟩

/-- A step that sets the peers of a node only between operations on a key. -/
def Between (i : Nat) (key : String) (s : Paced) : Event → Prop
  | .plain (.setPeers j _) => j = i → s.Resting i key
  | _ => True

instance (i : Nat) (key : String) (s : Paced) : (e : Event) → Decidable (s.Between i key e)
  | .plain (.setPeers j _) => inferInstanceAs (Decidable (j = i → s.Resting i key))
  | .plain (.get ..) | .plain (.serve ..) | .plain (.advance ..) | .plain (.hear ..) | .plain (.abandon ..)
  | .plain (.work ..) | .plain (.deliver ..) | .plain (.respond ..) | .plain (.endFetch ..)
  | .plain (.remove ..) | .plain (.removeLocal ..) | .plain (.deliverRemoval ..) | .plain (.loseRemoval ..)
  | .plain (.set ..) | .plain (.register ..) | .reply .. | .settle .. => inferInstanceAs (Decidable True)

/-- What is under way for a key at a node goes by the peer that the ring gives the key to. -/
structure Current (i : Nat) (key : String) (s : Paced) : Prop where
  get : ∀ (r : Nat) (q : Request) (p : Peer), s.cluster.requests[r]? = some q → q.host = i → q.key = key →
    q.phase.owner? = some p → s.ringOwner? i key = some p
  load : ∀ (n : Nat) (t : LoadTask), s.cluster.loads[n]? = some t → t.host = i → t.load.key = key →
    t.phase.isFlying = true → s.ringOwner? i key = some t.load.owner
  waits : ∀ (r : Nat) (q : Request) (k : Nat), s.cluster.requests[r]? = some q → q.host = i → q.key = key →
    q.phase = .waiting k → ∃ (n : Nat) (t : LoadTask), s.cluster.loads[n]? = some t ∧ t.host = i ∧
      t.load.number = k ∧ s.ringOwner? i key = some t.load.owner

namespace Current

theorem get_after (hs : s.Current i key) (h : s.Takes e u) (hring : u.ringOwner? i key = s.ringOwner? i key)
    {r : Nat} {q : Request} {p : Peer} (hq' : u.cluster.requests[r]? = some q) (hi : q.host = i)
    (hk : q.key = key) (hp : q.phase.owner? = some p) : u.ringOwner? i key = some p := by
  rw [hring]
  cases h.request hq' with
  | same hq => exact hs.get r q p hq hi hk hp
  | get | serve | deliver | start | hear | abandon => cases hp
  | @advance now q m g phase hq hm hadv =>
    have hkeep (hold : q.phase.owner? = some p) : s.ringOwner? i key = some p := hs.get r q p hq hi hk hold
    generalize q.phase = before at hadv hkeep
    cases hadv with
    | accept | refuse | find | glance | join => cases hp
    | look =>
      cases hp
      subst hi hk
      exact Paced.ringOwner?_eq hm _
    | lack | turn | miss => exact hkeep hp

theorem load_after (hs : s.Current i key) (h : s.Takes e u) (hring : u.ringOwner? i key = s.ringOwner? i key)
    {n : Nat} {t : LoadTask} (ht' : u.cluster.loads[n]? = some t) (hi : t.host = i) (hk : t.load.key = key)
    (hf : t.phase.isFlying = true) : u.ringOwner? i key = some t.load.owner := by
  rw [hring]
  cases h.load ht' with
  | same ht => exact hs.load n t ht hi hk hf
  | start hn hq hm hmiss => exact hs.get _ _ _ hq hi hk (by rw [hmiss]; rfl)
  | @begin now t m p ht hm hp => exact hs.load n t ht hi hk (by rw [hp]; rfl)
  | release => cases hf
  | @deliver j t owner x ht hp => exact hs.load n t ht hi hk (by rw [hp]; rfl)
  | @settle now t m r g p ht hm hr hset => exact hs.load n t ht hi hk (LoadPhase.isFlying_of_rank hset.rank.1)

theorem waits_after (hs : s.Current i key) (hw : s.Wired) (h : s.Takes e u)
    (hring : u.ringOwner? i key = s.ringOwner? i key) {r k : Nat} {q : Request}
    (hq' : u.cluster.requests[r]? = some q) (hi : q.host = i) (hk : q.key = key) (hp : q.phase = .waiting k) :
    ∃ (n : Nat) (t : LoadTask), u.cluster.loads[n]? = some t ∧ t.host = i ∧ t.load.number = k ∧
      u.ringOwner? i key = some t.load.owner := by
  rw [hring]
  have hforward {n : Nat} {t : LoadTask} (ht : s.cluster.loads[n]? = some t) (hh : t.host = i)
      (hnum : t.load.number = k) (howner : s.ringOwner? i key = some t.load.owner) :
      ∃ (n : Nat) (t : LoadTask), u.cluster.loads[n]? = some t ∧ t.host = i ∧ t.load.number = k ∧
        s.ringOwner? i key = some t.load.owner := by
    obtain ⟨p, ht', -⟩ := h.load_forward ht
    exact ⟨n, _, ht', hh, hnum, howner⟩
  rcases h.waiting hw hq' hp with
    hq | ⟨q₀, owner, hq, hmiss, rfl, ⟨n, t, ht, hh, hnum, hkey, hf⟩ | ht⟩
  · obtain ⟨n, t, ht, hh, hnum, howner⟩ := hs.waits r q k hq hi hk hp
    exact hforward ht hh hnum howner
  · exact hforward ht (hh.trans hi) hnum (hs.load n t ht (hh.trans hi) (hkey.trans hk) hf)
  · exact ⟨_, _, ht, hi, rfl, hs.get r q₀ owner hq hi hk (by rw [hmiss]; rfl)⟩

/-- Where nothing is under way, it makes no difference who the owner is. -/
theorem of_resting (hu : u.Resting i key) : u.Current i key where
  get r q p hq hi hk hp := by
    have hopen := RequestPhase.isOpen_of_owner? hp
    rw [hu.request q (List.mem_of_getElem? hq) hi hk] at hopen
    cases hopen
  load n t ht hi hk hf := by
    rw [hu.load t (List.mem_of_getElem? ht) hi hk] at hf
    cases hf
  waits r q k hq hi hk hp := by
    have hopen := hu.request q (List.mem_of_getElem? hq) hi hk
    rw [hp] at hopen
    cases hopen

theorem step (hs : s.Current i key) (hw : s.Wired) (hp : s.Between i key e) (h : s.Takes e u) :
    u.Current i key := by
  by_cases hset : ∃ addrs, e = .plain (.setPeers i addrs)
  · obtain ⟨addrs, rfl⟩ := hset
    have hrest := hp rfl
    cases h with
    | setPeers => exact of_resting ⟨hrest.request, hrest.load⟩
    | remove hrem => exact hrem.elim
  · have hring := h.ringOwner?_eq (fun addrs he => hset ⟨addrs, he⟩) key
    exact ⟨fun r q p => hs.get_after h hring, fun n t => hs.load_after h hring,
      fun r q k => hs.waits_after hw h hring⟩

end Current

theorem current_start (founders : List Founder) (i : Nat) (key : String) :
    (start founders).Current i key :=
  Current.of_resting ⟨fun _ hq => absurd hq List.not_mem_nil, fun _ ht => absurd ht List.not_mem_nil⟩

theorem current_run {founders : List Founder} {es : List Event}
    (h : Along step (Between i key) (start founders) es) : ((start founders).run es).Current i key :=
  (keeps (I := fun s => s.Wired ∧ s.Current i key) (fun hs hp ht => ⟨hs.1.step ht, hs.2.step hs.1 hp ht⟩)
    ⟨wired_start founders, current_start founders i key⟩ h).2

/-! ## What loads bring -/

/-- A load asks a source where it counts on its own node, and what it brings to one that does not own the
key has been fetched. -/
structure Sources (s : Paced) : Prop where
  asks : ∀ (n : Nat) (t : LoadTask), s.cluster.loads[n]? = some t → t.phase.isAsking = true → s.isHome t = true
  brings : ∀ (n : Nat) (t : LoadTask) (v : ByteArray), s.cluster.loads[n]? = some t → s.isHome t = false →
    t.phase.ending? = some (.returned (.ok v)) → s.reply? n = some (.fetch (.returned (.ok v)))

namespace Sources

theorem asks_after (hs : s.Sources) (h : s.Takes e u) {n : Nat} {t : LoadTask}
    (ht' : u.cluster.loads[n]? = some t) (ha : t.phase.isAsking = true) : u.isHome t = true := by
  rw [h.isHome_eq]
  cases h.load ht' with
  | same ht => exact hs.asks n t ht ha
  | start | release | deliver => cases ha
  | begin ht hm hp hb =>
    cases hb with
    | ask hl => exact (isLocalAt_eq hm _).trans hl
    | present | sourceless | fetch => cases ha
  | settle ht hm hr hset =>
    cases hset with
    | store | fail => cases ha

theorem brings_after (hs : s.Sources) (h : s.Takes e u) {n : Nat} {t : LoadTask} {v : ByteArray}
    (ht' : u.cluster.loads[n]? = some t) (haway : u.isHome t = false)
    (hend : t.phase.ending? = some (.returned (.ok v))) : u.reply? n = some (.fetch (.returned (.ok v))) := by
  rw [h.isHome_eq] at haway
  refine h.reply_forward ?_
  cases h.load ht' with
  | same ht => exact hs.brings n t v ht haway hend
  | start | deliver => cases hend
  | @release now t x ht hp => exact hs.brings n t v ht haway (by rw [hp]; exact hend)
  | @begin now t m p ht hm hp hb =>
    cases hb with
    | present hl =>
      have hhome : s.isHome t = true := (isLocalAt_eq hm _).trans hl
      rw [show s.isHome t = false from haway] at hhome
      cases hhome
    | sourceless | ask | fetch => cases hend
  | @settle now t m r g p ht hm hr hset =>
    cases hset with
    | store ha hk hv =>
      cases hend
      rcases LoadPhase.stored_cases ha hk hv with ⟨-, hasking, -⟩ | ⟨-, -, rfl⟩
      · have hhome := hs.asks n t ht hasking
        rw [show s.isHome t = false from haway] at hhome
        cases hhome
      · exact hr
    | fail ha hv hg hc he =>
      cases hend
      exact absurd rfl (he v)

theorem step (hs : s.Sources) (h : s.Takes e u) : u.Sources :=
  ⟨fun _ _ => hs.asks_after h, fun _ _ _ => hs.brings_after h⟩

end Sources

theorem Reachable.sources (hs : s.Reachable) : s.Sources := by
  obtain ⟨founders, es, rfl⟩ := hs
  exact keeps_always (I := Sources) (fun hi h => hi.step h) ⟨by rintro n t ⟨⟩, by rintro n t v ⟨⟩⟩ es

/-! ## What a node answers for a key of another one -/

/-- A load of a key at a node, which goes by the peer that the ring gives it to, has got a reply. -/
def Replied (s : Paced) (i : Nat) (key : String) (n : Nat) (r : LoadReply) : Prop :=
  ∃ t, s.cluster.loads[n]? = some t ∧ t.host = i ∧ t.load.key = key ∧
    s.ringOwner? i key = some t.load.owner ∧ s.reply? n = some r

/-- Where the value that a request is answered with comes from after the steps `as`: from the owner, now or
at a time when the node did not own the key either; or from the main tier, where the last to write under
the key was a set, or a load that has asked the source of the node when this owned the key. -/
inductive Origin (founders : List Founder) (as : List Event) (r i : Nat) (key : String) (v : ByteArray) : Prop
  | fetch {n : Nat} (hwaits : ((start founders).run as).WaitsFor r n)
      (h : ((start founders).run as).Replied i key n (.fetch (.returned (.ok v))))
  | copy {x : Entry} {bs cs : List Event} {n : Nat} {now : Instant}
      (hx : ((start founders).run as).held? i .hot key = some x) (hv : x.value = v)
      (he : as = bs ++ .settle n now :: cs) (hlast : (start founders).LastPut bs (.settle n now) cs i .hot key x)
      (howns : ((start founders).run bs).owns i key = false)
      (h : ((start founders).run bs).Replied i key n (.fetch (.returned (.ok v))))
  | set {x : Entry} {bs cs : List Event} {expiration : Expiration} {now : Instant}
      (hx : ((start founders).run as).held? i .main key = some x) (hv : x.value = v)
      (he : as = bs ++ .plain (.set i key v expiration now) :: cs)
      (hlast : (start founders).LastPut bs (.plain (.set i key v expiration now)) cs i .main key x)
  | backfill {x : Entry} {bs cs : List Event} {n : Nat} {now : Instant}
      (hx : ((start founders).run as).held? i .main key = some x) (hv : x.value = v)
      (he : as = bs ++ .settle n now :: cs) (hlast : (start founders).LastPut bs (.settle n now) cs i .main key x)
      (howns : ((start founders).run bs).owns i key = true)
      (h : ((start founders).run bs).Replied i key n (.backfill (.value v)))

variable {founders : List Founder} {as : List Event} {v : ByteArray}

/-- What a tier has, has an origin. -/
theorem origin_of_held? {r : Nat} {kind : TierKind} {x : Entry}
    (h : Along step (Between i key) (start founders) as)
    (hx : ((start founders).run as).held? i kind key = some x) (hv : x.value = v) :
    Origin founders as r i key v := by
  obtain ⟨bs, f, cs, rfl, hlast⟩ := exists_lastPut founders as hx
  have hreach : ((start founders).run bs).Reachable := ⟨founders, bs, rfl⟩
  have hcurrent := current_run (along_append.mp h).1
  subst hv
  cases f with
  | reply n r => exact hlast.puts.elim
  | plain f =>
    have hputs := hlast.puts
    cases f with
    | set j k w expiration now =>
      obtain ⟨rfl, rfl, rfl, m, hm, rfl⟩ := hputs
      exact .set hx rfl rfl hlast
    | _ => exact hputs.elim
  | settle n now =>
    obtain ⟨t, r, ht, hr, hi, hk, ha, hkind, hvalue, -⟩ := hlast.puts
    have howner := hcurrent.load n t ht hi hk (LoadPhase.isFlying_of_rank (LoadPhase.awaits_rank ha))
    have howns : ((start founders).run bs).owns i key = ((start founders).run bs).isHome t := by
      rw [owns_of_ringOwner? howner, ← hi]
      rfl
    rcases LoadPhase.stored_cases ha hkind hvalue with ⟨rfl, hasking, rfl⟩ | ⟨rfl, hfetching, rfl⟩
    · exact .backfill hx rfl rfl hlast (howns.trans (hreach.sources.asks n t ht hasking)) ⟨t, ht, hi, hk, howner, hr⟩
    · refine .copy hx rfl rfl hlast (howns.trans ?_) ⟨t, ht, hi, hk, howner, hr⟩
      by_contra hhome
      rw [Bool.not_eq_false] at hhome
      rw [hreach.wired.isFetching_home ht hhome] at hfetching
      cases hfetching

/-- **An answer for a key of another node.**  Let the peers of a node be set only between operations on a
key.  What the node answers while its ring gives the key to another peer is what that peer has said to a
load; or it is in the hot tier, left by such a load at an earlier time; or it is in the main tier, and
either it was set there, or it was backfilled when the node owned the key, and nobody has set or removed
the key or stored anything under it there since. -/
theorem answers_elsewhere (founders : List Founder) (as : List Event) (f : Event) (i : Nat) (key : String)
    (h : Along step (Between i key) (start founders) as) :
    let s := (start founders).run as
    s.owns i key = false → ∀ (r : Nat) (q : Request) (v : ByteArray), s.cluster.requests[r]? ≠ some q →
      (s.step f).cluster.requests[r]? = some q → q.host = i → q.key = key → q.phase = .answered (.ok v) →
      Origin founders as r i key v := by
  intro s howns r q v hbefore hafter hi hk hp
  have hreach : s.Reachable := ⟨founders, as, rfl⟩
  have hcurrent : s.Current i key := current_run h
  rcases s.step_cases f with hsame | ht
  · rw [hsame] at hafter
    exact absurd hafter hbefore
  · cases ht.request hafter with
    | same hq => exact absurd hq hbefore
    | get | serve | deliver | start | abandon => cases hp
    | @hear q k n t x group hq hwait hload hh hnum hreleased =>
      obtain ⟨n', t', ht', hh', hnum', howner⟩ := hcurrent.waits r q k hq hi hk hwait
      obtain rfl := hreach.wired.unique ht' hload (hh'.trans (hi.symm.trans hh.symm)) (hnum'.trans hnum.symm)
      obtain rfl := eq_of_getElem? ht' hload
      have haway : s.isHome t = false := by
        rw [owns_of_ringOwner? howner, ← hh'] at howns
        exact howns
      have hkey := hreach.wired.key_of_waiting hq hwait hload hh hnum
      obtain rfl := Ending.eq_of_outcome (RequestPhase.answered.inj hp)
      have hreply := hreach.sources.brings n' t v hload haway (by rw [hreleased]; rfl)
      exact .fetch ⟨q, t, k, hq, hwait, hload, hh, hnum⟩ ⟨t, hload, hh', hkey.trans hk, howner, hreply⟩
    | @advance now q m g p hq hm hadv =>
      cases hp
      subst hi hk
      generalize q.phase = before at hadv
      cases hadv with
      | find hfound =>
        obtain ⟨x, hx, -, hv⟩ := (hreach.holds q.host m hm).of_probe hfound
        exact origin_of_held? h ((held?_eq hm _ _).trans hx) hv
      | glance hfound =>
        obtain ⟨x, hx, -, hv⟩ := Group.of_glance hfound
        exact origin_of_held? h ((held?_eq hm _ _).trans hx) hv

/-- A node fetches a key that it has owned before. -/
def fetchAfterMove : List Event :=
  [.setPeers 0 ["a:1"], .setPeers 0 ["a:1", "b:1"], .get 0 "1", .advance 0 ⟨1⟩, .advance 0 ⟨2⟩, .advance 0 ⟨3⟩,
    .advance 0 ⟨4⟩, .work 0 ⟨5⟩].map .plain ++
  [.reply 0 (.fetch (.returned (.ok ⟨#[7]⟩))), .settle 0 ⟨6⟩, .plain (.work 0 ⟨7⟩)]

theorem answers_elsewhere_after_move :
    let s := (start sparseOwners).run fetchAfterMove
    (Along step (Between 0 "1") (start sparseOwners) fetchAfterMove ∧ s.owns 0 "1" = false ∧
      s.cluster.requests[0]? = some ⟨0, "1", false, .waiting 0⟩ ∧
      (s.step (.plain (.hear 0))).cluster.requests[0]? = some ⟨0, "1", false, .answered (.ok ⟨#[7]⟩)⟩) ∧
    Origin sparseOwners fetchAfterMove 0 0 "1" ⟨#[7]⟩ := by
  have h : decide (Along step (Between 0 "1") (start sparseOwners) fetchAfterMove) = true ∧
      ((start sparseOwners).run fetchAfterMove).owns 0 "1" = false ∧
      ((start sparseOwners).run fetchAfterMove).cluster.requests[0]? = some ⟨0, "1", false, .waiting 0⟩ ∧
      (((start sparseOwners).run fetchAfterMove).step (.plain (.hear 0))).cluster.requests[0]? =
        some ⟨0, "1", false, .answered (.ok ⟨#[7]⟩)⟩ := by
    cbv
  obtain ⟨hbetween, howns, hbefore, hafter⟩ := h
  replace hbetween := of_decide_eq_true hbetween
  have hne : ((start sparseOwners).run fetchAfterMove).cluster.requests[0]? ≠
      some ⟨0, "1", false, .answered (.ok ⟨#[7]⟩)⟩ := by
    rw [hbefore]
    rintro ⟨⟩
  exact ⟨⟨hbetween, howns, hbefore, hafter⟩,
    answers_elsewhere sparseOwners fetchAfterMove _ 0 "1" hbetween howns 0 _ _ hne hafter rfl rfl rfl⟩

/-- A node backfills a key as its owner, and is asked for it when it is not. -/
def moveAfterBackfill : List Event :=
  [.setPeers 0 ["a:1"], .get 0 "1", .advance 0 ⟨1⟩, .advance 0 ⟨2⟩, .advance 0 ⟨3⟩, .work 0 ⟨4⟩].map .plain ++
  [.reply 0 (.backfill (.value ⟨#[0]⟩)), .settle 0 ⟨5⟩, .plain (.work 0 ⟨6⟩), .plain (.hear 0)] ++
  [.setPeers 0 ["a:1", "b:1"], .get 0 "1", .advance 1 ⟨7⟩, .advance 1 ⟨8⟩].map .plain

/-- **A backfilled value outlives ownership.**  Nothing has been set or fetched, and yet the node answers
for a key that its ring gives to another peer. -/
theorem backfill_outlives_ownership :
    let s := (start twoOwners).run moveAfterBackfill
    Along step (Between 0 "1") (start twoOwners) moveAfterBackfill ∧ s.owns 0 "1" = false ∧
    (s.step (.plain (.advance 1 ⟨9⟩))).cluster.requests[1]? =
      some ⟨0, "1", false, .answered (.ok ⟨#[0]⟩)⟩ ∧
    s.held? 0 .hot "1" = none ∧ s.replies = [(0, .backfill (.value ⟨#[0]⟩))] ∧
    ∀ e ∈ moveAfterBackfill, e.sets 0 "1" = false := by
  have h : decide (Along step (Between 0 "1") (start twoOwners) moveAfterBackfill) = true ∧
      ((start twoOwners).run moveAfterBackfill).owns 0 "1" = false ∧
      (((start twoOwners).run moveAfterBackfill).step (.plain (.advance 1 ⟨9⟩))).cluster.requests[1]? =
        some ⟨0, "1", false, .answered (.ok ⟨#[0]⟩)⟩ ∧
      ((start twoOwners).run moveAfterBackfill).held? 0 .hot "1" = none ∧
      ((start twoOwners).run moveAfterBackfill).replies = [(0, .backfill (.value ⟨#[0]⟩))] ∧
      (moveAfterBackfill.all fun e => !e.sets 0 "1") = true := by
    cbv
  obtain ⟨hbetween, howns, hanswer, hhot, hreplies, hsets⟩ := h
  exact ⟨of_decide_eq_true hbetween, howns, hanswer, hhot, hreplies,
    fun e he => by simpa using List.all_eq_true.mp hsets e he⟩

end Paced

end PeerCache
