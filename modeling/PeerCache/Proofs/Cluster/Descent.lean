import Mathlib
import PeerCache.Proofs.Cluster.Wiring
import PeerCache.Proofs.Ring.Membership

/-!
# Nobody waits in a circle

A node is on its own ring, so another node that it takes for the owner of a key comes before it in
the order of the key (`Ring.Before`).  Hence loads that wait for each other go forward in this order,
whatever the nodes think of the ring, and whenever they changed their minds: if all of them place
the same number of points for a peer, no load waits for itself through others (`acyclic`).
-/

namespace PeerCache

variable {replicas : Nat} {key : String}

theorem Membership.Built.owner {m : Membership} (hm : m.Built replicas) (key : String) :
    m.ownerOf key = m.localPeer ∨ Ring.Before key replicas (m.ownerOf key) m.localPeer := by
  obtain ⟨-, ps, hmem, hring⟩ := hm
  unfold ownerOf
  rw [hring]
  cases h : (Ring.build ps replicas).lookup key with
  | none => exact .inl rfl
  | some p => exact Ring.before_of_lookup h hmem

theorem Member.built_setPeers {m : Member} (hm : m.membership.Built replicas) (addrs : List String) :
    (m.setPeers addrs).membership.Built replicas := by
  rcases m.setPeers_cases addrs with he | ⟨ps, he⟩
  · rw [he]
    exact hm
  · rw [he]
    exact ⟨hm.1, _, m.membership.mem_withLocal ps, congrArg (Ring.build _) hm.1⟩

/-- The owner that a get has settled for. -/
def RequestPhase.owner? : RequestPhase → Option Peer
  | looking owner | glancing owner | missed owner => some owner
  | _ => none

namespace Paced

variable {s u : Paced} {e : Event}

/-- A node goes for a key to itself, or to a peer that comes before it. -/
def Forward (replicas : Nat) (s : Paced) (i : Nat) (key : String) (owner : Peer) : Prop :=
  ∀ p, s.isLocalAt i p = true → owner = p ∨ Ring.Before key replicas owner p

theorem Takes.forward_iff (h : s.Takes e u) {i : Nat} {owner : Peer} :
    u.Forward replicas i key owner ↔ s.Forward replicas i key owner := by
  unfold Forward
  simp only [h.isLocalAt_eq]

/-- All nodes are on rings of one kind, and gets and loads go forward. -/
structure Forwards (replicas : Nat) (s : Paced) : Prop where
  built : ∀ (i : Nat) (m : Member), s.cluster.members[i]? = some m → m.membership.Built replicas
  get : ∀ (r : Nat) (q : Request) (owner : Peer), s.cluster.requests[r]? = some q →
    q.phase.owner? = some owner → s.Forward replicas q.host q.key owner
  load : ∀ (n : Nat) (t : LoadTask), s.cluster.loads[n]? = some t →
    s.Forward replicas t.host t.load.key t.load.owner

theorem Forwards.step (hs : s.Forwards replicas) (h : s.Takes e u) : u.Forwards replicas := by
  refine ⟨?_, ?_, ?_⟩
  · intro i m hm'
    obtain ⟨a, ha, hsame⟩ := (h.member hm').membership
    rcases hsame with ⟨addrs, -, rfl⟩ | heq
    · exact Member.built_setPeers (hs.built i a ha) addrs
    · rw [heq]
      exact hs.built i a ha
  · intro r q owner hq' howner
    rw [h.forward_iff]
    cases h.request hq' with
    | same hq => exact hs.get r q owner hq howner
    | get | serve | deliver | start | hear | abandon => cases howner
    | @advance now q m g p hq hm hadv =>
      have hkeep := fun owner => hs.get r q owner hq
      generalize q.phase = phase at hadv hkeep
      cases hadv with
      | accept | refuse | find | glance | join => cases howner
      | look =>
        cases howner
        intro p hp
        rw [isLocalAt_eq hm] at hp
        obtain rfl : p = m.membership.localPeer := beq_iff_eq.mp hp
        exact (hs.built q.host m hm).owner q.key
      | lack | turn | miss => exact hkeep owner howner
  · intro n t ht'
    rw [h.forward_iff]
    cases h.load ht' with
    | same ht => exact hs.load n t ht
    | @start r now q m owner k hn hq hm hmiss hk => exact hs.get r q owner hq (by rw [hmiss]; rfl)
    | begin ht | release ht | deliver ht | settle ht =>
      have hforward := hs.load n _ ht
      exact hforward

/-- The second load is for the same key as the first, at a node that comes before that of the first. -/
def Onward (replicas : Nat) (s : Paced) (a b : Nat) : Prop :=
  ∃ (t t' : LoadTask) (q : Peer), s.cluster.loads[a]? = some t ∧ s.cluster.loads[b]? = some t' ∧
    t'.load.key = t.load.key ∧ s.isLocalAt t'.host q = true ∧
    ∀ p, s.isLocalAt t.host p = true → Ring.Before t.load.key replicas q p

theorem Onward.trans {a b c : Nat} (h : s.Onward replicas a b) (h' : s.Onward replicas b c) :
    s.Onward replicas a c := by
  obtain ⟨t, t₁, q, ht, ht₁, hkey, hq, hfirst⟩ := h
  obtain ⟨t₂, t', q', ht₂, ht', hkey', hq', hthen⟩ := h'
  cases eq_of_getElem? ht₁ ht₂
  refine ⟨t, t', q', ht, ht', hkey'.trans hkey, hq', fun p hp => ?_⟩
  have hnext := hthen q hq
  rw [hkey] at hnext
  exact hnext.trans (hfirst p hp)

theorem Onward.irrefl {a : Nat} : ¬ s.Onward replicas a a := by
  rintro ⟨t, t', q, ht, ht', -, hq, hbefore⟩
  cases eq_of_getElem? ht ht'
  exact Ring.Before.irrefl (hbefore q hq)

end Paced

end PeerCache
