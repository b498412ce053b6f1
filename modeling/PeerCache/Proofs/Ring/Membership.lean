import Mathlib
import PeerCache.Membership
import PeerCache.Proofs.Lists
import PeerCache.Proofs.Ring.Ownership

/-!
# A node on its ring

A node's ring is built of a list of peers that has the node itself in it (`Membership.Built`), from
the beginning and after every new list.  What can be said of its ring at all times follows from this
alone (`Membership.Consistent`): the peers stand in strict order, each has its number of points, the
points stand in order, and a key has an owner among the peers.

Main statement: `membership_kept`, for a node that is offered one list of addresses after the other.
A list with a bad address changes nothing, and the first bad one is the error.
-/

namespace PeerCache

namespace Ring

variable {p : Peer} {ps : List Peer} {replicas : Nat}

/-! ## Points and peers -/

theorem countP_placed (p q : Peer) (replicas : Nat) :
    (placed replicas q).countP (fun a => a.peer = p) = if q = p then replicas else 0 := by
  by_cases h : q = p
  · rw [if_pos h]
    have hall : ∀ a ∈ placed replicas q, decide (a.peer = p) = true := by
      intro a ha
      simp [peer_of_mem_placed ha, h]
    rw [List.countP_eq_length.mpr hall]
    simp [placed]
  · rw [if_neg h, List.countP_eq_zero]
    intro a ha
    simp [peer_of_mem_placed ha, h]

theorem nodup_members (ps : List Peer) : (members ps).Nodup := by
  refine (pairwise_members ps).imp ?_
  rintro a b hlt rfl
  exact String.lt_irrefl a.addr hlt

theorem length_points (ps : List Peer) (replicas : Nat) :
    (build ps replicas).points.length = (build ps replicas).peers.length * replicas := by
  show (((members ps).flatMap (placed replicas)).mergeSort Point.le).length = (members ps).length * replicas
  simp [placed, List.length_flatMap]

/-- Each peer has its number of points, whichever of them coincide with others. -/
theorem countP_points (hp : p ∈ ps) :
    (build ps replicas).points.countP (fun a => a.peer = p) = replicas := by
  have hperm : (build ps replicas).points.Perm ((members ps).flatMap (placed replicas)) :=
    List.mergeSort_perm _ _
  have hone : (members ps).count p = 1 :=
    List.count_eq_one_of_mem (nodup_members ps) ((mem_members ps).mpr hp)
  have hsum (qs : List Peer) :
      (qs.flatMap (placed replicas)).countP (fun a => a.peer = p) = qs.count p * replicas := by
    induction qs with
    | nil => simp
    | cons q qs ih =>
      rw [List.flatMap_cons, List.countP_append, countP_placed, ih, List.count_cons]
      by_cases h : q = p
      · simp [h, Nat.add_mul, Nat.add_comm]
      · simp [h]
  rw [hperm.countP_eq, hsum, hone, Nat.one_mul]

theorem pairwise_points (ps : List Peer) (replicas : Nat) :
    (build ps replicas).points.Pairwise fun a b => a.position ≤ b.position := by
  refine (Point.pairwise_mergeSort _).imp fun hle => ?_
  exact UInt64.le_iff_toNat_le.mpr (Point.position_le hle)

end Ring

namespace Membership

variable {m m' : Membership} {replicas : Nat} {addr : String} {config : RingConfig} {timeouts : Timeouts}

/-! ## How a ring is built -/

/-- The node is on its ring, which has this number of points for each peer. -/
def Built (replicas : Nat) (m : Membership) : Prop :=
  m.ringConfig.virtualReplicas = replicas ∧
    ∃ ps : List Peer, m.localPeer ∈ ps ∧ m.ring = Ring.build ps replicas

/-- What a node starts with. -/
theorem create_eq_ok (h : create addr config timeouts = .ok m) :
    RingConfig.minReplicas ≤ config.virtualReplicas ∧ ∃ p, Peer.parse addr = .ok p ∧
      m = ⟨p, config, timeouts, Ring.build [p] config.virtualReplicas⟩ := by
  unfold create at h
  cases hv : config.validate with
  | error e => rw [hv] at h; cases h
  | ok _ =>
    cases hp : Peer.parse addr with
    | error e => rw [hv, hp] at h; cases h
    | ok p =>
      rw [hv, hp] at h
      cases h
      unfold RingConfig.validate at hv
      split at hv
      · cases hv
      · next hmin => exact ⟨by omega, p, rfl, rfl⟩

/-- A node that starts alone is on such a ring. -/
theorem built_create (h : create addr config timeouts = .ok m) : m.Built config.virtualReplicas := by
  obtain ⟨-, p, -, rfl⟩ := create_eq_ok h
  exact ⟨rfl, [p], List.mem_cons_self, rfl⟩

/-- A node has a number of points for each peer. -/
theorem replicas_of_create (h : create addr config timeouts = .ok m) :
    0 < config.virtualReplicas ∧ m.ringConfig = config := by
  obtain ⟨hmin, p, -, rfl⟩ := create_eq_ok h
  unfold RingConfig.minReplicas at hmin
  exact ⟨by omega, rfl⟩

theorem mem_withLocal_iff (m : Membership) {ps : List Peer} {p : Peer} :
    p ∈ m.withLocal ps ↔ p ∈ ps ∨ p = m.localPeer := by
  unfold withLocal
  split
  · next h =>
    refine ⟨.inl, ?_⟩
    rintro (hp | rfl)
    · exact hp
    · exact List.contains_iff_mem.mp h
  · rw [List.mem_append, List.mem_singleton]

theorem mem_withLocal (m : Membership) (ps : List Peer) : m.localPeer ∈ m.withLocal ps :=
  m.mem_withLocal_iff.mpr (.inr rfl)

theorem mem_others {p : Peer} : p ∈ m.others ↔ p ∈ m.peers ∧ p ≠ m.localPeer := by
  unfold others isLocal peers
  simp

theorem Built.nodup_peers (hm : m.Built replicas) : m.peers.Nodup := by
  obtain ⟨-, ps, -, hring⟩ := hm
  unfold peers
  rw [hring]
  exact Ring.nodup_members ps

theorem Built.mem_peers (hm : m.Built replicas) : m.localPeer ∈ m.peers := by
  obtain ⟨-, ps, hmem, hring⟩ := hm
  unfold peers
  rw [hring]
  exact (Ring.mem_members ps).mpr hmem

/-! ## What is true of a ring at all times -/

/-- A node's ring is what it takes it for. -/
structure Consistent (m : Membership) : Prop where
  localPeer_mem : m.localPeer ∈ m.peers
  sorted : m.peers.Pairwise fun p q => p.addr < q.addr
  nodup : m.peers.Nodup
  length_points : m.ring.points.length = m.peers.length * m.ringConfig.virtualReplicas
  ordered : m.ring.points.Pairwise fun a b => a.position ≤ b.position
  points_of : ∀ p ∈ m.peers, m.ring.points.countP (fun a => a.peer = p) = m.ringConfig.virtualReplicas
  /-- The node itself never stands in for an owner that is missing. -/
  owner : ∀ key, m.ring.lookup key = some (m.ownerOf key) ∧ m.ownerOf key ∈ m.peers

theorem Built.consistent (hm : m.Built replicas) (h : 0 < replicas) : m.Consistent := by
  have hnodup := hm.nodup_peers
  have hmem := hm.mem_peers
  obtain ⟨hconfig, ps, hlocal, hring⟩ := hm
  have hpeers : m.peers = Ring.members ps := by
    unfold peers
    rw [hring]
    rfl
  refine ⟨hmem, hpeers ▸ Ring.pairwise_members ps, hnodup, ?_, ?_, fun p hp => ?_, fun key => ?_⟩
  · rw [hconfig, peers, hring]
    exact Ring.length_points ps replicas
  · rw [hring]
    exact Ring.pairwise_points ps replicas
  · rw [hpeers, Ring.mem_members] at hp
    rw [hconfig, hring]
    exact Ring.countP_points hp
  · obtain ⟨owner, howner⟩ := Ring.exists_lookup hlocal h key
    have heq : m.ownerOf key = owner := by
      rw [ownerOf, hring, howner]
      rfl
    rw [heq, hring, hpeers, Ring.mem_members]
    exact ⟨howner, Ring.mem_of_lookup howner⟩

/-! ## Lists of addresses -/

/-- The node is given new peers; it keeps its ring if it refuses them. -/
def offer (m : Membership) (addrs : List String) : Membership :=
  match m.setPeers addrs with
  | .ok m' => m'
  | .error _ => m

/-- The one way in which an address is bad. -/
theorem error_of_parse {e : Error} (h : Peer.parse addr = .error e) :
    ∃ reason, e = .invalidPeer (Text.trim addr) reason := by
  simp only [Peer.parse] at h
  split at h
  · next reason _ =>
    cases h
    exact ⟨reason, rfl⟩
  · cases h

/-- A list is taken over whole, or refused for its first bad address. -/
theorem setPeers_cases (m : Membership) (addrs : List String) :
    (∃ ps, List.Forall₂ (fun a p => Peer.parse a = .ok p) addrs ps ∧
      m.setPeers addrs =
        .ok { m with ring := Ring.build (m.withLocal ps) m.ringConfig.virtualReplicas }) ∨
    (∃ before bad after reason, addrs = before ++ bad :: after ∧
      (∀ a ∈ before, ∃ p, Peer.parse a = .ok p) ∧
      Peer.parse bad = .error (.invalidPeer (Text.trim bad) reason) ∧
      m.setPeers addrs = .error (.invalidPeer (Text.trim bad) reason)) := by
  unfold setPeers
  rcases mapM_cases Peer.parse addrs with ⟨ps, hps, hok⟩ | ⟨before, bad, after, e, hsplit, hbefore, hbad, herr⟩
  · exact .inl ⟨ps, hps, by rw [hok]; rfl⟩
  · obtain ⟨reason, rfl⟩ := error_of_parse hbad
    exact .inr ⟨before, bad, after, reason, hsplit, hbefore, hbad, by rw [herr]; rfl⟩

theorem Built.offer (hm : m.Built replicas) (addrs : List String) : (m.offer addrs).Built replicas := by
  unfold Membership.offer
  rcases m.setPeers_cases addrs with ⟨ps, -, hset⟩ | ⟨_, _, _, reason, -, -, -, hset⟩
  · rw [hset]
    exact ⟨hm.1, m.withLocal ps, m.mem_withLocal ps, congrArg (Ring.build _) hm.1⟩
  · rw [hset]
    exact hm

/-- What a node is told of its peers does not change who it is. -/
theorem offer_settings (m : Membership) (addrs : List String) :
    (m.offer addrs).localPeer = m.localPeer ∧ (m.offer addrs).ringConfig = m.ringConfig ∧
      (m.offer addrs).timeouts = m.timeouts := by
  unfold offer
  rcases m.setPeers_cases addrs with ⟨ps, -, hset⟩ | ⟨_, _, _, reason, -, -, -, hset⟩
  · rw [hset]
    exact ⟨rfl, rfl, rfl⟩
  · rw [hset]
    exact ⟨rfl, rfl, rfl⟩

/-- **The ring of a node is in order at all times**, whatever lists of addresses it is given.  It has
the peers of the last good list and the node itself. -/
theorem membership_kept {m₀ : Membership} (h : create addr config timeouts = .ok m₀)
    (lists : List (List String)) :
    let m := lists.foldl offer m₀
    (Peer.parse addr = .ok m.localPeer ∧ m.ringConfig = config ∧ m.timeouts = timeouts) ∧
    m.Consistent ∧
    ∀ addrs,
      (∃ ps m', List.Forall₂ (fun a p => Peer.parse a = .ok p) addrs ps ∧
        m.setPeers addrs = .ok m' ∧ m.offer addrs = m' ∧
        ∀ p, p ∈ m'.peers ↔ p ∈ ps ∨ p = m.localPeer) ∨
      (∃ before bad after reason, addrs = before ++ bad :: after ∧
        (∀ a ∈ before, ∃ p, Peer.parse a = .ok p) ∧
        Peer.parse bad = .error (.invalidPeer (Text.trim bad) reason) ∧
        m.setPeers addrs = .error (.invalidPeer (Text.trim bad) reason) ∧ m.offer addrs = m) := by
  intro m
  have hm : m.Built config.virtualReplicas ∧
      (Peer.parse addr = .ok m.localPeer ∧ m.ringConfig = config ∧ m.timeouts = timeouts) := by
    refine List.foldlRecOn lists offer (motive := fun m => m.Built config.virtualReplicas ∧
      (Peer.parse addr = .ok m.localPeer ∧ m.ringConfig = config ∧ m.timeouts = timeouts)) ?_ ?_
    · obtain ⟨-, p, hp, rfl⟩ := create_eq_ok h
      exact ⟨built_create h, hp, rfl, rfl⟩
    · rintro m ⟨hm, hsettings⟩ addrs -
      obtain ⟨hlocal, hconfig, htimeouts⟩ := m.offer_settings addrs
      rw [hlocal, hconfig, htimeouts]
      exact ⟨hm.offer addrs, hsettings⟩
  refine ⟨hm.2, hm.1.consistent (replicas_of_create h).1, fun addrs => ?_⟩
  rcases m.setPeers_cases addrs with ⟨ps, hps, hset⟩ | ⟨before, bad, after, reason, hsplit, hbefore, hbad, hset⟩
  · refine .inl ⟨ps, _, hps, hset, by rw [offer, hset], fun p => ?_⟩
    show p ∈ Ring.members (m.withLocal ps) ↔ _
    rw [Ring.mem_members, mem_withLocal_iff]
  · exact .inr ⟨before, bad, after, reason, hsplit, hbefore, hbad, hset, by rw [offer, hset]⟩

theorem membership_kept_pair :
    let m₀ : Membership := ⟨⟨"a:1"⟩, ⟨40⟩, {}, Ring.build [⟨"a:1"⟩] 40⟩
    let m := [[" b:1", "b:1"], ["c:1", "garbage"]].foldl offer m₀
    create "a:1" ⟨40⟩ {} = .ok m₀ ∧ m.Consistent ∧
      m.setPeers ["c:1", "garbage", ""] = .error (.invalidPeer "garbage" "missing port") ∧
      m.offer ["c:1", "garbage", ""] = m := by
  intro m₀ m
  have hparse : Peer.parse "a:1" = .ok ⟨"a:1"⟩ := by cbv
  have hm₀ : create "a:1" ⟨40⟩ {} = .ok m₀ := by
    unfold create
    rw [hparse]
    rfl
  have hlist : ["c:1", "garbage", ""].mapM Peer.parse = .error (.invalidPeer "garbage" "missing port") := by cbv
  have hset : m.setPeers ["c:1", "garbage", ""] = .error (.invalidPeer "garbage" "missing port") := by
    unfold setPeers
    rw [hlist]
    rfl
  obtain ⟨-, hm, hnext⟩ := membership_kept hm₀ [[" b:1", "b:1"], ["c:1", "garbage"]]
  rcases hnext ["c:1", "garbage", ""] with ⟨ps, m', -, hok, -⟩ | ⟨_, _, _, _, -, -, -, -, hkept⟩
  · cases hset.symm.trans hok
  · exact ⟨hm₀, hm, hset, hkept⟩

end Membership

end PeerCache
