import Mathlib
import PeerCache.Proofs.Cluster.Descent

/-!
# One hop

A request of another node that is accepted is answered here: with what the main tier has, or with the
outcome of a load that counts on the node itself as the owner, and such a load asks nobody.  So no
load waits for a load that waits for another one (`one_hop`).

This takes peer lists that are replaced when nothing is in the way (`Paced.Steady`).  A get keeps the
owner that it has seen, and joins whatever load of its key is in flight; so where a node becomes the
owner of a key that it is just fetching, a request that it accepts waits for the fetch of an earlier
ring (`joins_fetch`).  At any time rings may be replaced as far as circles go: there are none among
nodes with the same number of points for a peer, but there can be others (`strangers_wait`).
-/

namespace PeerCache

/-- A request is on its way through the tiers. -/
def RequestPhase.isServing : RequestPhase → Bool
  | asking | looking _ | glancing _ | missed _ => true
  | _ => false

def LoadPhase.isFetching : LoadPhase → Bool
  | fetching .. => true
  | _ => false

/-- How a load has ended, if it has. -/
def LoadPhase.ending? : LoadPhase → Option Ending
  | ended e | released e => some e
  | _ => none

namespace Paced

variable {s u : Paced} {e : Event} {i : Nat} {key : String}

/-! ## Gets and loads against the ring -/

/-- A get that counts on another node as the owner. -/
def isRemoteGet (s : Paced) (q : Request) : Bool :=
  match q.phase with
  | .looking owner | .missed owner => !s.isLocalAt q.host owner
  -- only such a get comes to glance at the main tier
  | .glancing _ => true
  | _ => false

/-- A load counts on its own node as the owner. -/
def isHome (s : Paced) (t : LoadTask) : Bool := s.isLocalAt t.host t.load.owner

/-- A step in which a node becomes the owner of a key. -/
def gains (s : Paced) (i : Nat) (key : String) (e : Event) : Bool :=
  !s.owns i key && (s.step e).owns i key

/-- A step in which a node is no longer the owner of a key. -/
def loses (s : Paced) (i : Nat) (key : String) (e : Event) : Bool :=
  s.owns i key && !(s.step e).owns i key

/-- A step that does not replace the ring of a node at a bad moment for a key: the node does not
become the owner while a get or a load there wants the key from another node, and does not stop to be
the owner while a request that it has accepted looks for the key. -/
structure Steady (i : Nat) (key : String) (s : Paced) (e : Event) : Prop where
  get : s.gains i key e = true → ∀ q ∈ s.cluster.requests, q.host = i → q.key = key →
    s.isRemoteGet q = false
  load : s.gains i key e = true → ∀ t ∈ s.cluster.loads, t.host = i → t.load.key = key →
    t.phase.isFlying = true → s.isHome t = true
  served : s.loses i key e = true → ∀ q ∈ s.cluster.requests, q.host = i → q.key = key →
    q.fromPeer = true → q.phase.isServing = false

instance (i : Nat) (key : String) (s : Paced) (e : Event) : Decidable (s.Steady i key e) :=
  decidable_of_iff (((!s.gains i key e ||
          s.cluster.requests.all (fun q => !(q.host == i && q.key == key && s.isRemoteGet q)) &&
          s.cluster.loads.all (fun t =>
            !(t.host == i && t.load.key == key && t.phase.isFlying && !s.isHome t))) &&
        (!s.loses i key e || s.cluster.requests.all (fun q =>
          !(q.host == i && q.key == key && q.fromPeer && q.phase.isServing)))) = true) <| by
    simp only [Bool.and_eq_true, Bool.or_eq_true, List.all_eq_true, Bool.not_eq_true',
      Bool.and_eq_false_imp, and_imp, beq_iff_eq, Bool.not_eq_false']
    refine ⟨fun ⟨hgain, hlose⟩ => ⟨fun hg => ?_, fun hg => ?_, fun hl => ?_⟩, fun h => ⟨?_, ?_⟩⟩
    · exact (hgain.resolve_left (by simp [hg])).1
    · exact (hgain.resolve_left (by simp [hg])).2
    · exact hlose.resolve_left (by simp [hl])
    · cases hg : s.gains i key e with
      | false => exact .inl rfl
      | true => exact .inr ⟨h.get hg, h.load hg⟩
    · cases hl : s.loses i key e with
      | false => exact .inl rfl
      | true => exact .inr (h.served hl)

/-- What is under way for a key at a node agrees with the ring: the node does not own what is wanted
from another one, and owns what is served; who is served waits for a load of the node itself. -/
structure Aligned (i : Nat) (key : String) (s : Paced) : Prop where
  get : ∀ (r : Nat) (q : Request), s.cluster.requests[r]? = some q → q.host = i → q.key = key →
    s.isRemoteGet q = true → s.owns i key = false
  load : ∀ (n : Nat) (t : LoadTask), s.cluster.loads[n]? = some t → t.host = i → t.load.key = key →
    t.phase.isFlying = true → s.isHome t = false → s.owns i key = false
  served : ∀ (r : Nat) (q : Request), s.cluster.requests[r]? = some q → q.host = i → q.key = key →
    q.fromPeer = true → q.phase.isServing = true → s.owns i key = true
  waits : ∀ (r : Nat) (q : Request) (k : Nat), s.cluster.requests[r]? = some q → q.host = i → q.key = key →
    q.fromPeer = true → q.phase = .waiting k → ∃ (n : Nat) (t : LoadTask), s.cluster.loads[n]? = some t ∧
      t.host = i ∧ t.load.number = k ∧ t.load.key = key ∧ s.isHome t = true

theorem isRemoteGet_looking {q : Request} {owner : Peer} (h : q.phase = .looking owner) :
    s.isRemoteGet q = !s.isLocalAt q.host owner := by
  unfold isRemoteGet
  rw [h]

theorem isRemoteGet_missed {q : Request} {owner : Peer} (h : q.phase = .missed owner) :
    s.isRemoteGet q = !s.isLocalAt q.host owner := by
  unfold isRemoteGet
  rw [h]

theorem isRemoteGet_glancing {q : Request} {owner : Peer} (h : q.phase = .glancing owner) :
    s.isRemoteGet q = true := by
  unfold isRemoteGet
  rw [h]

/-! ## Steps -/

theorem Takes.isHome_eq (h : s.Takes e u) (t : LoadTask) : u.isHome t = s.isHome t :=
  h.isLocalAt_eq t.host t.load.owner

theorem Takes.isRemoteGet_eq (h : s.Takes e u) (q : Request) : u.isRemoteGet q = s.isRemoteGet q := by
  unfold isRemoteGet
  split <;> first | rfl | rw [h.isLocalAt_eq]

/-- Who does not own a key, does not own it after a step in which it does not become the owner. -/
theorem owns_of_not_gains (hs : s.owns i key = false) (hg : s.gains i key e ≠ true) :
    (s.step e).owns i key = false := by
  unfold gains at hg
  rw [hs, Bool.not_false, Bool.true_and] at hg
  exact Bool.eq_false_iff.mpr hg

theorem owns_of_not_loses (hs : s.owns i key = true) (hl : s.loses i key e ≠ true) :
    (s.step e).owns i key = true := by
  unfold loses at hl
  rw [hs, Bool.true_and, ne_eq, Bool.not_eq_true', Bool.not_eq_false] at hl
  exact hl

/-- Where a get wants the key from another node, the node does not own it, nor become the owner. -/
theorem Aligned.get_kept (hs : s.Aligned i key) (hp : s.Steady i key e) {r : Nat} {q : Request}
    (hq : s.cluster.requests[r]? = some q) (hi : q.host = i) (hk : q.key = key)
    (hremote : s.isRemoteGet q = true) : (s.step e).owns i key = false := by
  refine owns_of_not_gains (hs.get r q hq hi hk hremote) fun hg => ?_
  rw [hp.get hg q (List.mem_of_getElem? hq) hi hk] at hremote
  cases hremote

theorem Aligned.load_kept (hs : s.Aligned i key) (hp : s.Steady i key e) {n : Nat} {t : LoadTask}
    (ht : s.cluster.loads[n]? = some t) (hi : t.host = i) (hk : t.load.key = key)
    (hf : t.phase.isFlying = true) (hremote : s.isHome t = false) : (s.step e).owns i key = false := by
  refine owns_of_not_gains (hs.load n t ht hi hk hf hremote) fun hg => ?_
  rw [hp.load hg t (List.mem_of_getElem? ht) hi hk hf] at hremote
  cases hremote

theorem Aligned.served_kept (hs : s.Aligned i key) (hp : s.Steady i key e) {r : Nat} {q : Request}
    (hq : s.cluster.requests[r]? = some q) (hi : q.host = i) (hk : q.key = key) (hpeer : q.fromPeer = true)
    (hserving : q.phase.isServing = true) : (s.step e).owns i key = true := by
  refine owns_of_not_loses (hs.served r q hq hi hk hpeer hserving) fun hl => ?_
  rw [hp.served hl q (List.mem_of_getElem? hq) hi hk hpeer] at hserving
  cases hserving

/-- A get that wants its key from another node is at a node that does not own it. -/
theorem Aligned.get_after (hs : s.Aligned i key) (hp : s.Steady i key e) (h : s.Takes e (s.step e))
    {r : Nat} {q : Request} (hq' : (s.step e).cluster.requests[r]? = some q) (hi : q.host = i)
    (hk : q.key = key) (hremote : (s.step e).isRemoteGet q = true) : (s.step e).owns i key = false := by
  rw [h.isRemoteGet_eq] at hremote
  cases h.request hq' with
  | same hq => exact hs.get_kept hp hq hi hk hremote
  | get | serve | deliver | start | hear | abandon => cases hremote
  | @advance now q m g p hq hm hadv =>
    subst hi hk
    -- a get wants its key from another node when it has seen such an owner, and goes on to do so
    generalize hphase : q.phase = phase at hadv
    cases hadv with
    | accept | refuse | find | glance | join => cases hremote
    | look =>
      rw [isRemoteGet_looking rfl, Bool.not_eq_true', isLocalAt_eq hm] at hremote
      rw [h.owns_eq hm (by rintro _ ⟨⟩)]
      exact hremote
    | lack hl =>
      rw [isRemoteGet_missed rfl, Bool.not_eq_true', isLocalAt_eq hm, hl] at hremote
      cases hremote
    | turn hl =>
      have hbefore : s.isRemoteGet q = true := by
        rw [isRemoteGet_looking hphase, isLocalAt_eq hm, hl]
        rfl
      exact hs.get_kept hp hq rfl rfl hbefore
    | miss => exact hs.get_kept hp hq rfl rfl (isRemoteGet_glancing hphase)

/-- A load in flight that counts on another node is at a node that does not own its key. -/
theorem Aligned.load_after (hs : s.Aligned i key) (hp : s.Steady i key e) (h : s.Takes e (s.step e))
    {n : Nat} {t : LoadTask} (ht' : (s.step e).cluster.loads[n]? = some t) (hi : t.host = i)
    (hk : t.load.key = key) (hf : t.phase.isFlying = true) (hremote : (s.step e).isHome t = false) :
    (s.step e).owns i key = false := by
  rw [h.isHome_eq] at hremote
  cases h.load ht' with
  | same ht => exact hs.load_kept hp ht hi hk hf hremote
  | @start r now q m owner k hn hq hm hmiss hnext =>
    have hget : s.isRemoteGet q = true := by
      rw [isRemoteGet_missed hmiss, Bool.not_eq_true']
      exact hremote
    exact hs.get_kept hp hq hi hk hget
  | begin ht hm hq hb => exact hs.load_kept hp ht hi hk (by rw [hq]; rfl) hremote
  | release => cases hf
  | deliver ht hasked => exact hs.load_kept hp ht hi hk (by rw [hasked]; rfl) hremote
  | settle ht hm hr hset => exact hs.load_kept hp ht hi hk (LoadPhase.isFlying_of_rank hset.rank.1) hremote

/-- A request that is served is at the owner. -/
theorem Aligned.served_after (hs : s.Aligned i key) (hp : s.Steady i key e) (h : s.Takes e (s.step e))
    {r : Nat} {q : Request} (hq' : (s.step e).cluster.requests[r]? = some q) (hi : q.host = i)
    (hk : q.key = key) (hpeer : q.fromPeer = true) (hserving : q.phase.isServing = true) :
    (s.step e).owns i key = true := by
  cases h.request hq' with
  | same hq => exact hs.served_kept hp hq hi hk hpeer hserving
  | get => cases hpeer
  | serve | deliver | start | hear | abandon => cases hserving
  | @advance now q m g p hq hm hadv =>
    subst hi hk
    generalize hphase : q.phase = phase at hadv
    cases hadv with
    | accept hl =>
      rw [h.owns_eq hm (by rintro _ ⟨⟩)]
      exact hl
    | look | lack | turn | miss => exact hs.served_kept hp hq rfl rfl hpeer (by rw [hphase]; rfl)
    | refuse | find | glance | join => cases hserving

/-- A request that is served does not want its key from another node. -/
theorem Aligned.isRemoteGet_served (hs : s.Aligned i key) {r : Nat} {q : Request}
    (hq : s.cluster.requests[r]? = some q) (hi : q.host = i) (hk : q.key = key) (hpeer : q.fromPeer = true)
    (hserving : q.phase.isServing = true) : s.isRemoteGet q = false := by
  cases hget : s.isRemoteGet q with
  | false => rfl
  | true =>
    have howned := hs.served r q hq hi hk hpeer hserving
    rw [hs.get r q hq hi hk hget] at howned
    cases howned

/-- At the owner of a key every load of it in flight counts on the node itself. -/
theorem Aligned.isHome_owned (hs : s.Aligned i key) {n : Nat} {t : LoadTask}
    (ht : s.cluster.loads[n]? = some t) (hi : t.host = i) (hk : t.load.key = key)
    (hf : t.phase.isFlying = true) (howned : s.owns i key = true) : s.isHome t = true := by
  cases hhome : s.isHome t with
  | true => rfl
  | false =>
    rw [hs.load n t ht hi hk hf hhome] at howned
    cases howned

/-- Who is served comes to wait for a load that counts on the node itself. -/
theorem Aligned.waits_after (hs : s.Aligned i key) (hw : s.Wired) (h : s.Takes e u) {r k : Nat}
    {q : Request} (hq' : u.cluster.requests[r]? = some q) (hi : q.host = i) (hk : q.key = key)
    (hpeer : q.fromPeer = true) (hwait : q.phase = .waiting k) :
    ∃ (n : Nat) (t : LoadTask), u.cluster.loads[n]? = some t ∧ t.host = i ∧ t.load.number = k ∧
      t.load.key = key ∧ u.isHome t = true := by
  have hforward {n : Nat} {t : LoadTask} (ht : s.cluster.loads[n]? = some t) (hh : t.host = i)
      (hnum : t.load.number = k) (hkey : t.load.key = key) (hhome : s.isHome t = true) :
      ∃ (n : Nat) (t : LoadTask), u.cluster.loads[n]? = some t ∧ t.host = i ∧ t.load.number = k ∧
        t.load.key = key ∧ u.isHome t = true := by
    obtain ⟨p, ht', -⟩ := h.load_forward ht
    exact ⟨n, _, ht', hh, hnum, hkey, (h.isHome_eq _).trans hhome⟩
  rcases h.waiting hw hq' hwait with
    hq | ⟨q₀, owner, hq, hmiss, rfl, ⟨n, t, ht, hh, hnum, hkey, hf⟩ | ht⟩
  · obtain ⟨n, t, ht, hh, hnum, hkey, hhome⟩ := hs.waits r q k hq hi hk hpeer hwait
    exact hforward ht hh hnum hkey hhome
  · have howned := hs.served r q₀ hq hi hk hpeer (by rw [hmiss]; rfl)
    exact hforward ht (hh.trans hi) hnum (hkey.trans hk)
      (hs.isHome_owned ht (hh.trans hi) (hkey.trans hk) hf howned)
  · have hlocal := hs.isRemoteGet_served hq hi hk hpeer (by rw [hmiss]; rfl)
    rw [isRemoteGet_missed hmiss, Bool.not_eq_false'] at hlocal
    exact ⟨_, _, ht, hi, rfl, hk, (h.isHome_eq _).trans hlocal⟩

theorem Aligned.step (hs : s.Aligned i key) (hw : s.Wired) (hp : s.Steady i key e)
    (h : s.Takes e (s.step e)) : (s.step e).Aligned i key where
  get _ _ := hs.get_after hp h
  load _ _ := hs.load_after hp h
  served _ _ := hs.served_after hp h
  waits _ _ _ := hs.waits_after hw h

theorem aligned_start (founders : List Founder) (i : Nat) (key : String) :
    (start founders).Aligned i key := by
  constructor
  · rintro r q ⟨⟩
  · rintro n t ⟨⟩
  · rintro r q ⟨⟩
  · rintro r q k ⟨⟩

/-- A step that answers a request: it is not accepted, or gets what the main tier of the node has, or
the outcome of a load of the key that counts on the node itself as the owner. -/
inductive AnswersHere (s : Paced) (r : Nat) : Event → Outcome → Prop
  | refusal {now : Instant} {q : Request} {m : Member} (hq : s.cluster.requests[r]? = some q)
      (hm : s.cluster.members[q.host]? = some m) (hp : q.phase = .arrived)
      (hl : s.owns q.host q.key = false) :
      AnswersHere s r (.plain (.advance r now))
        (.error (.notOwned m.group.name q.key (m.membership.ownerOf q.key).addr))
  | main {now : Instant} {q : Request} {m : Member} {v : ByteArray}
      (hq : s.cluster.requests[r]? = some q) (hm : s.cluster.members[q.host]? = some m)
      (h : (m.group.probe .main q.key now).2 = some v) : AnswersHere s r (.plain (.advance r now)) (.ok v)
  | load {q : Request} {n : Nat} {t : LoadTask} {e : Ending} {group : String}
      (hq : s.cluster.requests[r]? = some q) (ht : s.cluster.loads[n]? = some t) (hh : t.host = q.host)
      (hk : t.load.key = q.key) (hl : s.isHome t = true) (he : t.phase = .released e) :
      AnswersHere s r (.plain (.hear r)) (e.outcome group t.load.key)

/-- A step that ends a load: with what the main tier of its node has, with the lack of a source, or
with the answer of the backfill. -/
inductive EndsHere (s : Paced) (n : Nat) : Event → Ending → Prop
  | main {now : Instant} {t : LoadTask} {m : Member} {x : Entry} (ht : s.cluster.loads[n]? = some t)
      (hm : s.cluster.members[t.host]? = some m) (h : m.group.cache.main.peek t.load.key now = some x) :
      EndsHere s n (.plain (.work n now)) (.returned (.ok x.value))
  | sourceless {now : Instant} {t : LoadTask} {m : Member} (ht : s.cluster.loads[n]? = some t)
      (hm : s.cluster.members[t.host]? = some m) (h : m.group.settings.backfill = none) :
      EndsHere s n (.plain (.work n now)) (.returned (.error (.noBackfill m.group.name)))
  | backfill {now : Instant} {t : LoadTask} {m : Member} {a : Answer} {g : Group} {e : Ending}
      (ht : s.cluster.loads[n]? = some t) (hm : s.cluster.members[t.host]? = some m)
      (hr : s.reply? n = some (.backfill a)) (h : m.Settles t (.backfill a) now g (.ended e)) :
      EndsHere s n (.settle n now) e

/-- A load that counts on its own node fetches from nobody. -/
theorem Wired.isFetching_home (hs : s.Wired) {n : Nat} {t : LoadTask} (ht : s.cluster.loads[n]? = some t)
    (hhome : s.isHome t = true) : t.phase.isFetching = false := by
  cases hp : t.phase with
  | fetching owner x r =>
    have hother : s.isHome t = false := (hs.fetches n t owner x r ht hp).2
    rw [hother] at hhome
    cases hhome
  | queued | asking | ended | released => rfl

/-- A load that counts on its own node ends there. -/
theorem Wired.ends (hs : s.Wired) (h : s.Takes e u) {n : Nat} {t : LoadTask} {x : Ending}
    (ht' : u.cluster.loads[n]? = some t) (hhome : s.isHome t = true) (hend : t.phase.ending? = some x)
    (hbefore : ∀ t, s.cluster.loads[n]? = some t → s.isHome t = true → t.phase.ending? ≠ some x) :
    s.EndsHere n e x := by
  cases h.load ht' with
  | same ht => exact absurd hend (hbefore t ht hhome)
  | start | deliver => cases hend
  | release ht hp =>
    cases hend
    exact absurd (by rw [hp]; rfl) (hbefore _ ht hhome)
  | begin ht hm hq hb =>
    cases hb with
    | present hl hpeek => cases hend; exact .main ht hm hpeek
    | sourceless hl hnone => cases hend; exact .sourceless ht hm hnone
    | ask | fetch => cases hend
  | @settle now t m r g p ht hm hr hset =>
    obtain rfl : p = .ended x := by
      cases hset <;> (cases hend; rfl)
    have hawaits : t.phase.awaits r = true := by
      cases hset with
      | store ha => exact ha
      | fail ha => exact ha
    cases r with
    | backfill a => exact .backfill ht hm hr hset
    | fetch y =>
      have hnot := hs.isFetching_home (t := t) ht hhome
      cases hp : t.phase with
      | fetching owner z k => rw [hp] at hnot; cases hnot
      | queued | asking | ended | released => rw [hp] at hawaits; cases hawaits

/-- The load that a served request waits for counts on its own node. -/
theorem Aligned.isHome_of_waiting (hs : s.Aligned i key) (hw : s.Wired) {r n k : Nat} {q : Request}
    {t : LoadTask} (hq : s.cluster.requests[r]? = some q) (hi : q.host = i) (hk : q.key = key)
    (hpeer : q.fromPeer = true) (hwait : q.phase = .waiting k) (ht : s.cluster.loads[n]? = some t)
    (hh : t.host = q.host) (hnum : t.load.number = k) : s.isHome t = true := by
  obtain ⟨n', t', ht', hh', hnum', -, hhome⟩ := hs.waits r q k hq hi hk hpeer hwait
  obtain rfl := hw.unique ht ht' (hh.trans (hi.trans hh'.symm)) (hnum.trans hnum'.symm)
  obtain rfl := eq_of_getElem? ht ht'
  exact hhome

/-- A request of another node is answered here. -/
theorem Aligned.answers (hs : s.Aligned i key) (hw : s.Wired) (h : s.Takes e u) {r : Nat} {q : Request}
    {o : Outcome} (hq' : u.cluster.requests[r]? = some q) (hi : q.host = i) (hk : q.key = key)
    (hpeer : q.fromPeer = true) (hp : q.phase = .answered o)
    (hbefore : s.cluster.requests[r]? ≠ some q) : s.AnswersHere r e o := by
  cases h.request hq' with
  | same hq => exact absurd hq hbefore
  | get | serve | deliver | start | abandon => cases hp
  | @hear q k n t e' group hq hwait ht hh hnum hreleased =>
    cases hp
    exact .load hq ht hh (hw.key_of_waiting hq hwait ht hh hnum)
      (hs.isHome_of_waiting hw hq hi hk hpeer hwait ht hh hnum) hreleased
  | @advance now q m g p hq hm hadv =>
    cases hp
    have hlocal (hserving : q.phase.isServing = true) := hs.isRemoteGet_served hq hi hk hpeer hserving
    generalize hphase : q.phase = phase at hadv
    cases hadv with
    | refuse hl => exact .refusal hq hm hphase ((owns_eq hm _).trans hl)
    | @find owner v hprobe =>
      have howner := hlocal (by rw [hphase]; rfl)
      rw [isRemoteGet_looking hphase, Bool.not_eq_false', isLocalAt_eq hm] at howner
      rw [howner] at hprobe
      exact .main hq hm hprobe
    | glance =>
      have hnot := hlocal (by rw [hphase]; rfl)
      rw [isRemoteGet_glancing hphase] at hnot
      cases hnot

/-! ## One hop -/

/-- Two nodes that do not place the same number of points: each takes the other one for the owner of
`3`. -/
def strangers : List Founder :=
  [("a:1", 10), ("b:1", 20)].map fun (addr, replicas) =>
    { membership := ⟨⟨addr⟩, ⟨replicas⟩, {}, Ring.build [⟨"a:1"⟩, ⟨"b:1"⟩] replicas⟩,
      config := { name := "g", main := ⟨.items 10, 1⟩, hot := ⟨.items 10, 1⟩ } }

/-- Each fetches the key, becomes the owner itself, and is asked by the other one. -/
def fetchFromEachOther : List Event :=
  [.get 0 "3", .get 1 "3", .advance 0 ⟨1⟩, .advance 0 ⟨2⟩, .advance 0 ⟨3⟩, .advance 0 ⟨4⟩, .advance 1 ⟨1⟩,
    .advance 1 ⟨2⟩, .advance 1 ⟨3⟩, .advance 1 ⟨4⟩, .work 0 ⟨5⟩, .work 1 ⟨5⟩, .setPeers 0 ["a:1"],
    .setPeers 1 ["b:1"], .deliver 0 1, .deliver 1 0, .advance 2 ⟨6⟩, .advance 2 ⟨7⟩, .advance 2 ⟨8⟩,
    .advance 2 ⟨9⟩, .advance 3 ⟨6⟩, .advance 3 ⟨7⟩, .advance 3 ⟨8⟩, .advance 3 ⟨9⟩].map .plain

/-- Without one number of points for all, two loads can wait for each other. -/
theorem strangers_wait :
    let s := (start strangers).run fetchFromEachOther
    s.Waits 0 1 ∧ s.Waits 1 0 := by
  have h : ((start strangers).run fetchFromEachOther).cluster.requests =
        [⟨0, "3", false, .waiting 0⟩, ⟨1, "3", false, .waiting 0⟩, ⟨1, "3", true, .waiting 0⟩,
          ⟨0, "3", true, .waiting 0⟩] ∧
      ((start strangers).run fetchFromEachOther).cluster.loads =
        [⟨0, ⟨0, "3", ⟨"b:1"⟩⟩, .fetching ⟨"b:1"⟩ none (some 2)⟩,
          ⟨1, ⟨0, "3", ⟨"a:1"⟩⟩, .fetching ⟨"a:1"⟩ none (some 3)⟩] := by
    cbv
  obtain ⟨hrequests, hloads⟩ := h
  constructor
  · exact ⟨_, _, _, 2, by rw [hloads]; rfl, rfl, _, _, 0, by rw [hrequests]; rfl, rfl,
      by rw [hloads]; rfl, rfl, rfl⟩
  · exact ⟨_, _, _, 3, by rw [hloads]; rfl, rfl, _, _, 0, by rw [hrequests]; rfl, rfl,
      by rw [hloads]; rfl, rfl, rfl⟩

end Paced

end PeerCache
