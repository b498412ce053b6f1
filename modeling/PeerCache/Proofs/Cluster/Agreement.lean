import Mathlib
import PeerCache.Proofs.Cluster.Endings
import PeerCache.Proofs.Ring.Membership

/-!
# Agreement on owners

Nodes that are given one set of peers, each in its own words, have one ring: they agree on the owner
of every key, and exactly one of them is it (`Membership.exists_owner`).

So a fetch goes where it is accepted, and no get is refused (`owners_agree`).  What an earlier ring
has begun can still spoil this, and spoil what waits for it; hence it takes a moment at which nothing
of it is under way for the key (`Paced.Fresh`).  From then on nothing is disputed any more
(`Paced.Undisputed`): whoever goes by an owner goes by the one, whom nobody refuses.
-/

namespace PeerCache

/-! ## Peer lists -/

namespace Membership

/-- The addresses name all peers of `P`, or all but the node itself: in any order, however often, and
with any blanks around them. -/
def Names (m : Membership) (P : Finset Peer) (addrs : List String) : Prop :=
  ∃ ps, addrs.mapM Peer.parse = .ok ps ∧ (ps.toFinset = P ∨ ps.toFinset = P.erase m.localPeer)

/-- The node has been given a list of the peers of `P`. -/
def IsSet (P : Finset Peer) (m : Membership) : Prop :=
  ∃ before addrs, Names before P addrs ∧ before.setPeers addrs = .ok m

variable {P : Finset Peer} {m : Membership}

/-- A node of `P` that has been given these peers has their ring. -/
theorem IsSet.ring_eq (h : m.IsSet P) (hm : m.localPeer ∈ P) :
    m.ring = Ring.build P.toList m.ringConfig.virtualReplicas := by
  obtain ⟨before, addrs, ⟨ps, hps, hnames⟩, hset⟩ := h
  unfold setPeers at hset
  rw [hps] at hset
  cases hset
  refine Ring.build_congr (fun p => ?_) _
  rw [mem_withLocal_iff, Finset.mem_toList, ← List.mem_toFinset]
  rcases hnames with hall | hothers
  · rw [hall]
    exact ⟨fun h => h.elim id fun heq => heq ▸ hm, .inl⟩
  · rw [hothers, Finset.mem_erase]
    refine ⟨fun h => h.elim And.right fun heq => heq ▸ hm, fun hp => ?_⟩
    by_cases heq : p = before.localPeer
    · exact .inr heq
    · exact .inl ⟨heq, hp⟩

/-- **One owner.**  All nodes with one set of peers and one number of points give a key to one of the
peers. -/
theorem exists_owner (hP : P.Nonempty) {replicas : Nat} (hreplicas : 0 < replicas) (key : String) :
    ∃ owner ∈ P, ∀ m : Membership, m.IsSet P → m.localPeer ∈ P →
      m.ringConfig.virtualReplicas = replicas → m.ownerOf key = owner := by
  obtain ⟨p, hp⟩ := hP
  obtain ⟨owner, howner⟩ := Ring.exists_lookup (Finset.mem_toList.mpr hp) hreplicas key
  refine ⟨owner, Finset.mem_toList.mp (Ring.mem_of_lookup howner), fun m hset hm hconfig => ?_⟩
  unfold ownerOf
  rw [hset.ring_eq hm, hconfig, howner]
  rfl

end Membership

/-- One node for each peer of `P`, all with one configuration of their rings. -/
structure Family (P : Finset Peer) (config : RingConfig) (founders : List Founder) : Prop where
  made : ∀ a ∈ founders, ∃ addr timeouts, Membership.create addr config timeouts = .ok a.membership
  nodup : (founders.map (·.membership.localPeer)).Nodup
  all : (founders.map (·.membership.localPeer)).toFinset = P

/-- The outcome that a node gives for a key of another one. -/
def IsRefusal (o : Outcome) : Prop := ∃ group key owner, o = .error (.notOwned group key owner)

namespace Paced

variable {s u : Paced} {e : Event} {P : Finset Peer} {config : RingConfig}

/-! ## Nodes of a family -/

/-- All nodes have been given lists of the peers of `P`. -/
def InForce (P : Finset Peer) (s : Paced) : Prop :=
  ∀ (i : Nat) (m : Member), s.cluster.members[i]? = some m → m.membership.IsSet P

/-- The nodes are peers of `P`, and have one configuration. -/
def Kindred (P : Finset Peer) (config : RingConfig) (s : Paced) : Prop :=
  ∀ (i : Nat) (m : Member), s.cluster.members[i]? = some m →
    m.membership.localPeer ∈ P ∧ m.membership.ringConfig = config

theorem Kindred.step (hs : s.Kindred P config) (h : s.Takes e u) : u.Kindred P config := by
  intro i m hm
  obtain ⟨a, ha, hsame⟩ := (h.member hm).membership
  rcases hsame with ⟨addrs, -, rfl⟩ | heq
  · rcases a.setPeers_cases addrs with he | ⟨ps, he⟩
    · rw [he]
      exact hs i a ha
    · rw [he]
      exact hs i a ha
  · rw [heq]
    exact hs i a ha

theorem run_isLocalAt (s : Paced) (es : List Event) (i : Nat) (p : Peer) :
    (s.run es).isLocalAt i p = s.isLocalAt i p :=
  keeps_always (I := fun u => u.isLocalAt i p = s.isLocalAt i p)
    (fun hs h => (h.isLocalAt_eq i p).trans hs) rfl es

/-- What has been set stays in force until the peers of a node are set again. -/
theorem InForce.step (hs : s.InForce P) (h : s.Takes e u) (he : ∀ i addrs, e ≠ .plain (.setPeers i addrs)) :
    u.InForce P := by
  intro i m hm
  obtain ⟨a, ha, hsame⟩ := (h.member hm).membership
  rcases hsame with ⟨addrs, hset, -⟩ | heq
  · exact absurd hset (he i addrs)
  · rw [heq]
    exact hs i a ha

end Paced

variable {P : Finset Peer} {config : RingConfig} {founders : List Founder}

theorem Family.kindred (h : Family P config founders) (es : List Paced.Event) :
    ((Paced.start founders).run es).Kindred P config := by
  refine Paced.keeps_always (I := Paced.Kindred P config) (fun hs ht => hs.step ht) ?_ es
  intro i m hm
  obtain ⟨a, ha, rfl⟩ := List.mem_map.mp (List.mem_of_getElem? hm)
  obtain ⟨addr, timeouts, hmade⟩ := h.made a ha
  refine ⟨?_, (Membership.replicas_of_create hmade).2⟩
  rw [← h.all, List.mem_toFinset]
  exact List.mem_map_of_mem ha

/-- Each peer of `P` is one node. -/
theorem Family.existsUnique (h : Family P config founders) (es : List Paced.Event) {p : Peer} (hp : p ∈ P) :
    ∃! i, ((Paced.start founders).run es).isLocalAt i p = true := by
  have hlocal (i : Nat) : ((Paced.start founders).run es).isLocalAt i p = true ↔
      (founders.map (·.membership.localPeer))[i]? = some p := by
    rw [Paced.run_isLocalAt]
    unfold Paced.isLocalAt Paced.start Cluster.start
    rw [List.getElem?_map, List.getElem?_map]
    cases founders[i]? with
    | none => exact iff_of_false Bool.false_ne_true nofun
    | some a =>
      show (p == a.membership.localPeer) = true ↔ some a.membership.localPeer = some p
      rw [beq_iff_eq, Option.some.injEq, eq_comm]
  rw [← h.all, List.mem_toFinset] at hp
  obtain ⟨i, hi⟩ := List.mem_iff_getElem?.mp hp
  refine ⟨i, (hlocal i).mpr hi, fun j hj => ?_⟩
  have hplace := (hlocal j).mp hj
  exact List.getElem?_inj (List.getElem?_eq_some_iff.mp hplace).1 h.nodup |>.mp (hplace.trans hi.symm)

namespace Paced

variable {s u : Paced} {e : Event} {key : String} {owner : Peer} {gone landed : Nat → Prop}

/-! ## Nothing of an earlier ring -/

/-- The request is refused, or waits for a load that has been. -/
def Refused (s : Paced) (q : Request) : Prop :=
  ∃ o, IsRefusal o ∧ (q.phase = .answered o ∨ ∃ (k n : Nat) (t : LoadTask), q.phase = .waiting k ∧
    s.cluster.loads[n]? = some t ∧ t.host = q.host ∧ t.load.number = k ∧
      t.phase.ending? = some (.returned o))

/-- Nothing that an earlier ring has begun for the key is under way: no get and no load in flight goes
by another owner, and no load in flight has heard of a refusal by one, or is going to. -/
structure Fresh (key : String) (owner : Peer) (s : Paced) : Prop where
  get : ∀ (r : Nat) (q : Request) (p : Peer), s.cluster.requests[r]? = some q → q.key = key →
    q.phase.owner? = some p → p = owner
  load : ∀ (n : Nat) (t : LoadTask), s.cluster.loads[n]? = some t → t.load.key = key →
    t.phase.isFlying = true → t.load.owner = owner
  asked : ∀ (n : Nat) (t : LoadTask) (p : Peer) (x : Option Instant) (r : Nat) (q : Request),
    s.cluster.loads[n]? = some t → t.load.key = key → t.phase = .fetching p x (some r) →
    s.cluster.requests[r]? = some q → ¬ s.Refused q
  reply : ∀ (n : Nat) (t : LoadTask) (o : Outcome), s.cluster.loads[n]? = some t → t.load.key = key →
    t.phase.isFlying = true → s.reply? n = some (.fetch (.returned o)) → ¬ IsRefusal o
  ending : ∀ (n : Nat) (t : LoadTask) (o : Outcome), s.cluster.loads[n]? = some t → t.load.key = key →
    t.phase.isFlying = true → t.phase.ending? = some (.returned o) → ¬ IsRefusal o

/-- A step in which no refusal is made up: if a fetch comes back with one, the node that was asked has
answered so. -/
def Relays (s : Paced) : Event → Prop
  | .reply n (.fetch (.returned o)) => IsRefusal o → ∃ (t : LoadTask) (p : Peer) (x : Option Instant)
      (r : Nat) (q : Request), s.cluster.loads[n]? = some t ∧ t.phase = .fetching p x (some r) ∧
        s.cluster.requests[r]? = some q ∧ q.phase = .answered o
  | _ => True

/-- All nodes have one owner of the key, and so have all gets.  Loads go by it too and bring no
refusal, those apart that have `landed`; requests are not refused, at the owner at least, those apart that
are past help (`gone`). -/
structure Undisputed (key : String) (owner : Peer) (gone landed : Nat → Prop) (s : Paced) : Prop where
  ring : ∀ (i : Nat) (m : Member), s.cluster.members[i]? = some m → m.membership.ownerOf key = owner
  get : ∀ (r : Nat) (q : Request) (p : Peer), s.cluster.requests[r]? = some q → q.key = key →
    q.phase.owner? = some p → p = owner
  requests : ∀ r, gone r → r < s.cluster.requests.length
  loads : ∀ n, landed n → ∃ t, s.cluster.loads[n]? = some t ∧ t.phase.isFlying = false
  load : ∀ (n : Nat) (t : LoadTask), s.cluster.loads[n]? = some t → t.load.key = key → ¬ landed n →
    t.load.owner = owner
  asked : ∀ (n : Nat) (t : LoadTask) (p : Peer) (x : Option Instant) (r : Nat),
    s.cluster.loads[n]? = some t → t.load.key = key → t.phase = .fetching p x (some r) → ¬ gone r
  reply : ∀ (n : Nat) (t : LoadTask) (o : Outcome), s.cluster.loads[n]? = some t → t.load.key = key →
    ¬ landed n → s.reply? n = some (.fetch (.returned o)) → ¬ IsRefusal o
  ending : ∀ (n : Nat) (t : LoadTask) (o : Outcome), s.cluster.loads[n]? = some t → t.load.key = key →
    ¬ landed n → t.phase.ending? = some (.returned o) → ¬ IsRefusal o
  waits : ∀ (r : Nat) (q : Request) (k : Nat), ¬ gone r → s.cluster.requests[r]? = some q → q.key = key →
    q.phase = .waiting k → ∀ (n : Nat) (t : LoadTask) (o : Outcome), s.cluster.loads[n]? = some t →
      t.host = q.host → t.load.number = k → t.phase.ending? = some (.returned o) → ¬ IsRefusal o
  answer : ∀ (r : Nat) (q : Request) (o : Outcome), ¬ gone r → s.cluster.requests[r]? = some q →
    q.key = key → (q.fromPeer = true → s.isLocalAt q.host owner = true) → q.phase = .answered o →
      ¬ IsRefusal o

/-! ## Steps -/

theorem not_isRefusal_ok (v : ByteArray) : ¬ IsRefusal (.ok v) := by
  rintro ⟨group, key, owner, ⟨⟩⟩

theorem not_isRefusal_outcome {x : Ending} (group key : String)
    (h : ∀ o, x = .returned o → ¬ IsRefusal o) : ¬ IsRefusal (x.outcome group key) := by
  cases x with
  | returned o => exact h o rfl
  | panicked => rintro ⟨group, key, owner, ⟨⟩⟩

/-- A request that has not been accepted yet is one of another node. -/
theorem Reachable.fromPeer (hs : s.Reachable) {r : Nat} {q : Request} (hq : s.cluster.requests[r]? = some q)
    (hp : q.phase = .arrived) : q.fromPeer = true := by
  obtain ⟨founders, es, rfl⟩ := hs
  refine keeps_always (I := fun s => ∀ (r : Nat) (q : Request), s.cluster.requests[r]? = some q →
    q.phase = .arrived → q.fromPeer = true) (fun hs h r q hq' hp => ?_) (by rintro r q ⟨⟩) es r q hq hp
  cases h.request hq' with
  | same hq => exact hs r q hq hp
  | serve | deliver => rfl
  | get | start | hear | abandon => cases hp
  | advance hq hm hadv =>
    cases hp
    generalize Request.phase _ = before at hadv
    cases hadv

namespace Undisputed

theorem get_after (hs : s.Undisputed key owner gone landed) (h : s.Takes e u) {r : Nat} {q : Request}
    {p : Peer} (hq' : u.cluster.requests[r]? = some q) (hk : q.key = key)
    (hp : q.phase.owner? = some p) : p = owner := by
  cases h.request hq' with
  | same hq => exact hs.get r q p hq hk hp
  | get | serve | deliver | start | hear | abandon => cases hp
  | @advance now q m g phase hq hm hadv =>
    have hkeep (hold : q.phase.owner? = some p) : p = owner := hs.get r q p hq hk hold
    generalize q.phase = before at hadv hkeep
    cases hadv with
    | accept | refuse | find | glance | join => cases hp
    | look =>
      cases hp
      subst hk
      exact hs.ring q.host m hm
    | lack | turn | miss => exact hkeep hp

theorem loads_after (hs : s.Undisputed key owner gone landed) (h : s.Takes e u) {n : Nat} (hn : landed n) :
    ∃ t, u.cluster.loads[n]? = some t ∧ t.phase.isFlying = false := by
  obtain ⟨t, ht, hf⟩ := hs.loads n hn
  exact ⟨t, h.load_released ht hf, hf⟩

theorem load_after (hs : s.Undisputed key owner gone landed) (h : s.Takes e u) {n : Nat} {t : LoadTask}
    (ht : u.cluster.loads[n]? = some t) (hk : t.load.key = key) (hn : ¬ landed n) : t.load.owner = owner := by
  rcases h.load_before ht with ⟨t₀, ht₀, -, hl⟩ | ⟨-, r, q, hq, hqk, hmiss⟩
  · rw [hl]
    exact hs.load n t₀ ht₀ (hl ▸ hk) hn
  · exact hs.get r q _ hq (hqk.trans hk) (by rw [hmiss]; rfl)

theorem asked_after (hs : s.Undisputed key owner gone landed) (h : s.Takes e u) {n r : Nat}
    {t : LoadTask} {p : Peer} {x : Option Instant} (ht' : u.cluster.loads[n]? = some t)
    (hk : t.load.key = key) (hp : t.phase = .fetching p x (some r)) : ¬ gone r := by
  cases h.load ht' with
  | same ht => exact hs.asked n t p x r ht hk hp
  | start | release => cases hp
  | deliver ht hasked =>
    cases hp
    exact fun hgone => Nat.lt_irrefl _ (hs.requests _ hgone)
  | begin ht hm hq hb =>
    cases hb with
    | present | sourceless | ask | fetch => cases hp
  | settle ht hm hr hset =>
    cases hset with
    | store | fail => cases hp

/-- A refusal that comes back to a load was given by the owner, who gives none. -/
theorem reply_after (hs : s.Undisputed key owner gone landed) (hw : s.Wired) (hrelay : s.Relays e)
    (h : s.Takes e u) {n : Nat} {t : LoadTask} {o : Outcome} (ht : u.cluster.loads[n]? = some t)
    (hk : t.load.key = key) (hn : ¬ landed n) (hr : u.reply? n = some (.fetch (.returned o))) :
    ¬ IsRefusal o := by
  have hkey {t₁ : LoadTask} (ht₁ : s.cluster.loads[n]? = some t₁) : t₁.load.key = key :=
    (h.load_eq ht₁ ht).2 ▸ hk
  rcases h.reply_cases hr with hr | rfl
  · obtain ⟨t₁, ht₁⟩ := hw.load_of_reply hr
    exact hs.reply n t₁ o ht₁ (hkey ht₁) hn hr
  · intro hrefusal
    obtain ⟨t₁, p, x, r, q, ht₁, hp, hq, hanswer⟩ := hrelay hrefusal
    obtain ⟨q', hq', hasked, -, hlocal⟩ := hw.asks n t₁ p x r ht₁ hp
    cases eq_of_getElem? hq hq'
    rw [hs.load n t₁ ht₁ (hkey ht₁) hn] at hlocal
    exact hs.answer r q o (hs.asked n t₁ p x r ht₁ (hkey ht₁) hp) hq (hasked.trans (hkey ht₁))
      (fun _ => hlocal) hanswer hrefusal

theorem ending_after (hs : s.Undisputed key owner gone landed) (h : s.Takes e (s.step e)) {n : Nat}
    {t : LoadTask} {o : Outcome} (ht' : (s.step e).cluster.loads[n]? = some t) (hk : t.load.key = key)
    (hn : ¬ landed n) (hend : t.phase.ending? = some (.returned o)) : ¬ IsRefusal o := by
  obtain ⟨t₀, ht, -, hl, hcases⟩ := h.ending_cases ht' hend
  rw [hl] at hk
  rcases hcases with hbefore | ⟨v, hv⟩ | ⟨m, -, hnone | ⟨r, hr, hreply⟩⟩
  · exact hs.ending n t₀ o ht hk hn hbefore
  · cases hv
    exact not_isRefusal_ok v
  · cases hnone
    rintro ⟨group, key, owner, ⟨⟩⟩
  · rcases r with (v | _ | text | _) | x
    · cases hreply
      exact not_isRefusal_ok v
    · cases hreply
      rintro ⟨group, key, owner, ⟨⟩⟩
    · cases hreply
      rintro ⟨group, key, owner, ⟨⟩⟩
    · cases hreply
    · obtain rfl : Ending.returned o = x := hreply
      exact hs.reply n t₀ o ht hk hn hr

/-- A request that begins to wait does so for a load that has not landed. -/
theorem waits_after (hs : s.Undisputed key owner gone landed) (hw : s.Wired) (h : s.Takes e (s.step e))
    {r k : Nat} {q : Request} (hr : ¬ gone r) (hq' : (s.step e).cluster.requests[r]? = some q)
    (hk : q.key = key) (hwait : q.phase = .waiting k) {n : Nat} {t : LoadTask} {o : Outcome}
    (ht : (s.step e).cluster.loads[n]? = some t) (hh : t.host = q.host) (hnum : t.load.number = k)
    (hend : t.phase.ending? = some (.returned o)) : ¬ IsRefusal o := by
  have hw' := hw.step h
  by_cases hn : landed n
  · obtain ⟨t₀, ht₀, hdone⟩ := hs.loads n hn
    obtain rfl := eq_of_getElem? ht (h.load_released ht₀ hdone)
    rcases h.waiting hw hq' hwait with hq | ⟨q₀, p, hq, hmiss, rfl, ⟨n', t', ht', hh', hnum', -, hf⟩ | ht'⟩
    · exact hs.waits r q k hr hq hk hwait n t₀ o ht₀ hh hnum hend
    · obtain rfl := hw.unique ht₀ ht' (hh.trans hh'.symm) (hnum.trans hnum'.symm)
      obtain rfl := eq_of_getElem? ht₀ ht'
      rw [hdone] at hf
      cases hf
    · obtain rfl := hw'.unique ht ht' hh hnum
      exact absurd (List.getElem?_eq_some_iff.mp ht₀).1 (Nat.lt_irrefl _)
  · exact hs.ending_after h ht ((hw'.key_of_waiting hq' hwait ht hh hnum).trans hk) hn hend

/-- A get is refused by nobody, and a request at the owner neither. -/
theorem answer_after (hs : s.Undisputed key owner gone landed) (hreach : s.Reachable) (h : s.Takes e u)
    {r : Nat} {q : Request} {o : Outcome} (hr : ¬ gone r) (hq' : u.cluster.requests[r]? = some q) (hk : q.key = key)
    (hlocal : q.fromPeer = true → u.isLocalAt q.host owner = true) (hp : q.phase = .answered o) :
    ¬ IsRefusal o := by
  rw [h.isLocalAt_eq] at hlocal
  cases h.request hq' with
  | same hq => exact hs.answer r q o hr hq hk hlocal hp
  | get | serve | deliver | start | abandon => cases hp
  | @hear q k n t x group hq hwait ht hh hnum hreleased =>
    cases hp
    exact not_isRefusal_outcome _ _ fun o ho =>
      hs.waits r q k hr hq hk hwait n t o ht hh hnum (by rw [hreleased, ho]; rfl)
  | @advance now q m g phase hq hm hadv =>
    cases hp
    have harrived := hreach.fromPeer hq
    generalize q.phase = before at hadv harrived
    cases hadv with
    | refuse hl =>
      subst hk
      have hhere := hlocal (harrived rfl)
      rw [isLocalAt_eq hm, ← hs.ring q.host m hm, hl] at hhere
      cases hhere
    | find | glance => exact not_isRefusal_ok _

theorem step (hs : s.Undisputed key owner gone landed) (hreach : s.Reachable) (hrelay : s.Relays e)
    (hring : ∀ (i : Nat) (m : Member), (s.step e).cluster.members[i]? = some m →
      m.membership.ownerOf key = owner) (h : s.Takes e (s.step e)) :
    (s.step e).Undisputed key owner gone landed where
  ring := hring
  get _ _ _ := hs.get_after h
  requests r hr := Nat.lt_of_lt_of_le (hs.requests r hr) h.lengths.2.1
  loads _ := hs.loads_after h
  load _ _ := hs.load_after h
  asked _ _ _ _ _ := hs.asked_after h
  reply _ _ _ := hs.reply_after hreach.wired hrelay h
  ending _ _ _ := hs.ending_after h
  waits _ _ _ hr hq hk hwait _ _ _ := hs.waits_after hreach.wired h hr hq hk hwait
  answer _ _ _ := hs.answer_after hreach h

end Undisputed

/-- The request is lost: it comes to a refusal. -/
def Gone (s : Paced) (r : Nat) : Prop := ∃ q, s.cluster.requests[r]? = some q ∧ s.Refused q

def Landed (s : Paced) (n : Nat) : Prop := ∃ t, s.cluster.loads[n]? = some t ∧ t.phase.isFlying = false

theorem Fresh.undisputed (hs : s.Fresh key owner)
    (hring : ∀ (i : Nat) (m : Member), s.cluster.members[i]? = some m → m.membership.ownerOf key = owner) :
    s.Undisputed key owner s.Gone s.Landed := by
  have hflying {n : Nat} {t : LoadTask} (ht : s.cluster.loads[n]? = some t) (hn : ¬ s.Landed n) :
      t.phase.isFlying = true := by
    by_contra hf
    exact hn ⟨t, ht, eq_false_of_ne_true hf⟩
  constructor
  case ring => exact hring
  case get => exact hs.get
  case requests => exact fun r ⟨q, hq, _⟩ => (List.getElem?_eq_some_iff.mp hq).1
  case loads => exact fun n hn => hn
  case load => exact fun n t ht hk hn => hs.load n t ht hk (hflying ht hn)
  case asked => exact fun n t p x r ht hk hp ⟨q, hq, hrefused⟩ => hs.asked n t p x r q ht hk hp hq hrefused
  case reply => exact fun n t o ht hk hn => hs.reply n t o ht hk (hflying ht hn)
  case ending => exact fun n t o ht hk hn => hs.ending n t o ht hk (hflying ht hn)
  case waits =>
    intro r q k hr hq hk hwait n t o ht hh hnum hend hrefusal
    exact hr ⟨q, hq, o, hrefusal, .inr ⟨k, n, t, hwait, ht, hh, hnum, hend⟩⟩
  case answer =>
    intro r q o hr hq hk _ hanswer hrefusal
    exact hr ⟨q, hq, o, hrefusal, .inl hanswer⟩

/-- When no load of the key is in flight and no get has the owner of an earlier ring, nothing of that
ring is under way. -/
theorem fresh_of_idle (hget : ∀ (r : Nat) (q : Request) (p : Peer), s.cluster.requests[r]? = some q →
      q.key = key → q.phase.owner? = some p → p = owner)
    (hidle : ∀ (n : Nat) (t : LoadTask), s.cluster.loads[n]? = some t → t.load.key = key →
      t.phase.isFlying = false) : s.Fresh key owner := by
  have hnone {n : Nat} {t : LoadTask} (ht : s.cluster.loads[n]? = some t) (hk : t.load.key = key)
      (hf : t.phase.isFlying = true) : False :=
    Bool.false_ne_true ((hidle n t ht hk).symm.trans hf)
  constructor
  case get => exact hget
  case load => exact fun n t ht hk hf => (hnone ht hk hf).elim
  case asked => exact fun n t p x r q ht hk hp => (hnone ht hk (by rw [hp]; rfl)).elim
  case reply => exact fun n t o ht hk hf => (hnone ht hk hf).elim
  case ending => exact fun n t o ht hk hf => (hnone ht hk hf).elim

/-! ## Agreement -/

/-- A step of a cluster whose rings are and stay in force, with a transport that makes up no refusals. -/
def Calm (P : Finset Peer) (s : Paced) (e : Event) : Prop := s.Relays e ∧ (s.step e).InForce P

/-- As long as the peers of no node are set, all is calm. -/
theorem along_calm (hs : s.InForce P) {es : List Event}
    (h : ∀ e ∈ es, (∀ i addrs, e ≠ .plain (.setPeers i addrs)) ∧ ∀ s, Relays s e) :
    Along step (Calm P) s es := by
  induction es generalizing s with
  | nil => trivial
  | cons e es ih =>
    obtain ⟨⟨hkeep, hrelay⟩, hes⟩ := List.forall_mem_cons.mp h
    have hstep : (s.step e).InForce P := by
      rcases s.step_cases e with he | ht
      · rw [he]
        exact hs
      · exact hs.step ht hkeep
    exact ⟨⟨hrelay s, hstep⟩, ih hstep hes⟩

/-- **Agreement on owners.**  Let there be one node for each peer of a set, and let each have been
given the peers of this set in its own words.  Then all of them take one peer for the owner of a key,
and exactly one of them is it.  And let nothing that an earlier ring has begun for the key be under way:
as long as the rings are in force, whatever happens, no get is refused, those apart that have been
already or wait for a load that has, and each fetch goes to a node that accepts it. -/
theorem owners_agree (h : Family P config founders) (hP : P.Nonempty)
    (before : List Event) (hset : ((start founders).run before).InForce P) (key : String) :
    let s := (start founders).run before
    ∃ owner ∈ P,
      (∀ (i : Nat) (m : Member), s.cluster.members[i]? = some m → m.membership.ownerOf key = owner) ∧
      (∃! i, s.isLocalAt i owner = true) ∧
      (s.Fresh key owner → ∀ es, Along step (Calm P) s es →
        let u := s.run es
        (∀ (r : Nat) (q : Request) (o : Outcome), u.cluster.requests[r]? = some q → q.key = key →
          q.fromPeer = false → (∀ q₀, s.cluster.requests[r]? = some q₀ → ¬ s.Refused q₀) →
            q.phase = .answered o → ¬ IsRefusal o) ∧
        ∀ (n : Nat) (t : LoadTask) (p : Peer) (x : Option Instant) (r : Option Nat),
          u.cluster.loads[n]? = some t → t.load.key = key → t.phase = .fetching p x r →
            (∃ j, u.isLocalAt j p = true) ∧
            ∀ (j : Nat) (m : Member), u.cluster.members[j]? = some m → m.membership.isLocal p = true →
              (m.group.accept m.membership key).2 = none) := by
  intro s
  have hkin : s.Kindred P config := h.kindred before
  obtain ⟨a, ha⟩ : ∃ a, a ∈ founders := by
    obtain ⟨p, hp⟩ := hP
    rw [← h.all, List.mem_toFinset] at hp
    obtain ⟨a, ha, -⟩ := List.mem_map.mp hp
    exact ⟨a, ha⟩
  obtain ⟨addr, timeouts, hmade⟩ := h.made a ha
  obtain ⟨owner, howner, hagree⟩ :=
    Membership.exists_owner hP (Membership.replicas_of_create hmade).1 key
  have hring {v : Paced} (hv : v.InForce P) (hk : v.Kindred P config) (i : Nat) (m : Member)
      (hm : v.cluster.members[i]? = some m) : m.membership.ownerOf key = owner :=
    hagree m.membership (hv i m hm) (hk i m hm).1 (congrArg RingConfig.virtualReplicas (hk i m hm).2)
  refine ⟨owner, howner, hring hset hkin, h.existsUnique before howner, fun hfresh es hes => ?_⟩
  intro u
  obtain ⟨hu, hreach, hk⟩ := keeps
    (I := fun v => v.Undisputed key owner s.Gone s.Landed ∧ v.Reachable ∧ v.Kindred P config)
    (fun ⟨hv, hr, hk⟩ hp ht => ⟨hv.step hr hp.1 (hring hp.2 (hk.step ht)) ht, hr.step _, hk.step ht⟩)
    ⟨hfresh.undisputed (hring hset hkin), ⟨founders, before, rfl⟩, hkin⟩ hes
  constructor
  · intro r q o hq hkey hclient hnot hanswer
    refine hu.answer r q o (fun ⟨q₀, hq₀, hrefused⟩ => hnot q₀ hq₀ hrefused) hq hkey (fun hpeer => ?_) hanswer
    rw [hclient] at hpeer
    cases hpeer
  · intro n t p x r ht hkey hp
    have hflies : ¬ s.Landed n := by
      intro hlanded
      obtain ⟨t', ht', hf⟩ := hu.loads n hlanded
      cases eq_of_getElem? ht ht'
      rw [hp] at hf
      cases hf
    obtain rfl : p = owner :=
      (hreach.wired.fetches n t p x r ht hp).1.trans (hu.load n t ht hkey hflies)
    refine ⟨?_, fun j m hm hlocal => ?_⟩
    · obtain ⟨j, hj, -⟩ := h.existsUnique before howner
      exact ⟨j, (run_isLocalAt s es j p).trans hj⟩
    · unfold Group.accept
      rw [hu.ring j m hm]
      exact if_pos hlocal

/-- Two nodes that have not heard of each other. -/
def apart : List Founder :=
  ["a:1", "b:1"].map fun addr =>
    { membership := ⟨⟨addr⟩, ⟨40⟩, {}, Ring.build [⟨addr⟩] 40⟩,
      config :=
        { name := "g", main := ⟨.items 10, 1⟩, hot := ⟨.items 10, 1⟩, backfill := some (.table [("1", ⟨#[0]⟩)]) } }

/-- Each is told of the other one, in its own words. -/
def introduced : List Event :=
  [.setPeers 0 [" b:1", "a:1", "b:1"], .setPeers 1 ["a:1 "]].map .plain

/-- A get at the first node, as far as the fetch. -/
def fetchBegun : List Event :=
  [.get 0 "1", .advance 0 ⟨1⟩, .advance 0 ⟨2⟩, .advance 0 ⟨3⟩, .advance 0 ⟨4⟩, .work 0 ⟨5⟩].map .plain

theorem inForce_introduced : ((start apart).run introduced).InForce {⟨"a:1"⟩, ⟨"b:1"⟩} := by
  intro i m hm
  match i with
  | 0 =>
    cases hm
    exact ⟨_, [" b:1", "a:1", "b:1"], ⟨[⟨"b:1"⟩, ⟨"a:1"⟩, ⟨"b:1"⟩], by cbv, .inl (by decide)⟩, rfl⟩
  | 1 =>
    cases hm
    exact ⟨_, ["a:1 "], ⟨[⟨"a:1"⟩], by cbv, .inr (by decide)⟩, rfl⟩
  | i + 2 => cases hm

theorem load_fetchBegun : (((start apart).run introduced).run fetchBegun).cluster.loads[0]? =
    some ⟨0, ⟨0, "1", ⟨"b:1"⟩⟩, .fetching ⟨"b:1"⟩ none none⟩ := by
  cbv

theorem owners_agree_apart :
    let P : Finset Peer := {⟨"a:1"⟩, ⟨"b:1"⟩}
    let s := (start apart).run introduced
    let u := s.run fetchBegun
    (Family P ⟨40⟩ apart ∧ P.Nonempty ∧ s.InForce P) ∧
    ∃ owner ∈ P, s.Fresh "1" owner ∧ Along step (Calm P) s fetchBegun ∧
      (∀ (i : Nat) (m : Member), s.cluster.members[i]? = some m → m.membership.ownerOf "1" = owner) ∧
      (∃! i, s.isLocalAt i owner = true) ∧
      u.cluster.loads[0]? = some ⟨0, ⟨0, "1", ⟨"b:1"⟩⟩, .fetching ⟨"b:1"⟩ none none⟩ ∧
      (∃ j, u.isLocalAt j ⟨"b:1"⟩ = true) ∧
      ∀ (j : Nat) (m : Member), u.cluster.members[j]? = some m → m.membership.isLocal ⟨"b:1"⟩ = true →
        (m.group.accept m.membership "1").2 = none := by
  intro P s u
  have hfamily : Family P ⟨40⟩ apart := by
    refine ⟨fun a ha => ?_, by decide, by decide⟩
    obtain ⟨addr, haddr, rfl⟩ := List.mem_map.mp ha
    refine ⟨addr, {}, ?_⟩
    fin_cases haddr <;> cbv
  have hnone : s.cluster.requests = [] ∧ s.cluster.loads = [] := ⟨rfl, rfl⟩
  obtain ⟨owner, howner, hring, hone, hagree⟩ :=
    owners_agree hfamily ⟨⟨"a:1"⟩, by decide⟩ introduced inForce_introduced "1"
  have hfresh : s.Fresh "1" owner := by
    refine fresh_of_idle (fun r q p hq => ?_) (fun n t ht => ?_)
    · rw [hnone.1] at hq
      cases hq
    · rw [hnone.2] at ht
      cases ht
  have hcalm : Along step (Calm P) s fetchBegun := by
    refine along_calm inForce_introduced fun e he => ?_
    obtain ⟨e', he', rfl⟩ := List.mem_map.mp he
    refine ⟨?_, fun _ => trivial⟩
    rintro i addrs heq
    cases heq
    simp at he'
  obtain ⟨hlocal, haccept⟩ := (hagree hfresh fetchBegun hcalm).2 0 _ ⟨"b:1"⟩ none none load_fetchBegun rfl rfl
  exact ⟨⟨hfamily, ⟨⟨"a:1"⟩, by decide⟩, inForce_introduced⟩, owner, howner, hfresh, hcalm, hring, hone,
    load_fetchBegun, hlocal, haccept⟩

end Paced

end PeerCache
