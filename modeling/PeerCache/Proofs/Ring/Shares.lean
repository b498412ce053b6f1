import Mathlib
import PeerCache.Proofs.Ring.Lookup
import PeerCache.Proofs.Ring.Membership

/-!
# The share of a peer

A point owns the arc from behind the point before it up to itself, and the first point also owns the arc
over the top of the circle (`arc`).  A share is the length of the arcs that end in a peer's points, taken
in one sweep over the points that begins behind the last one (`arcs`); a lookup searches the points
(`owner?`).  The two describe one partition of all hashes, if no two points coincide (`Apart`):

    reached p before points    the hashes behind `before` that fall to a point of `p`     (ncard_reached)
    r.owned p                  all hashes that fall to a point of `p`                      (ncard_owned)
    stretch before points      the way along all points, whoever owns them                 (sum_arcs)

Main statement: `share_counts_owned`.
-/

namespace PeerCache

namespace Ring

open Point

/-! ## Arcs of the circle -/

/-- The hashes behind one position up to another, clockwise. -/
def arc (before upTo : UInt64) : Set UInt64 :=
  {h | 0 < (h - before).toNat ∧ (h - before).toNat ≤ (upTo - before).toNat}

variable {before upTo h : UInt64}

theorem mem_arc_of_lt (hlt : before < upTo) : h ∈ arc before upTo ↔ before < h ∧ h ≤ upTo := by
  have hh := h.toNat_lt
  have hupTo := upTo.toNat_lt
  rw [UInt64.lt_iff_toNat_lt] at hlt
  simp only [arc, Set.mem_ofPred_eq, UInt64.toNat_sub, UInt64.lt_iff_toNat_lt, UInt64.le_iff_toNat_le]
  omega

/-- An arc over the top. -/
theorem mem_arc_of_gt (hgt : upTo < before) : h ∈ arc before upTo ↔ before < h ∨ h ≤ upTo := by
  have hh := h.toNat_lt
  have hbefore := before.toNat_lt
  rw [UInt64.lt_iff_toNat_lt] at hgt
  simp only [arc, Set.mem_ofPred_eq, UInt64.toNat_sub, UInt64.lt_iff_toNat_lt, UInt64.le_iff_toNat_le]
  omega

/-- An arc has as many hashes as it is long. -/
theorem ncard_arc (before upTo : UInt64) : (arc before upTo).ncard = (upTo - before).toNat := by
  have hinj : Set.InjOn (fun h : UInt64 => (h - before).toNat) (arc before upTo) := by
    intro h _ h' _ heq
    exact (UInt64.sub_left_inj before).mp (UInt64.toNat_inj.mp heq)
  have himage : (fun h : UInt64 => (h - before).toNat) '' arc before upTo =
      Finset.Ioc 0 (upTo - before).toNat := by
    ext n
    rw [Finset.mem_coe, Finset.mem_Ioc, Set.mem_image]
    constructor
    · rintro ⟨h, hmem, rfl⟩
      exact hmem
    · intro hn
      have hlt : n < UInt64.size := hn.2.trans_lt (upTo - before).toNat_lt
      have hsub : (UInt64.ofNat n + before - before).toNat = n := by
        rw [UInt64.add_sub_cancel, UInt64.toNat_ofNat_of_lt' hlt]
      exact ⟨UInt64.ofNat n + before, by rwa [arc, Set.mem_ofPred_eq, hsub], hsub⟩
  rw [← hinj.ncard_image, himage, Set.ncard_coe_finset, Nat.card_Ioc, Nat.sub_zero]

theorem ncard_univ : (Set.univ : Set UInt64).ncard = circle := by
  have hinj : Set.InjOn UInt64.toNat Set.univ := fun h _ h' _ heq => UInt64.toNat_inj.mp heq
  have himage : UInt64.toNat '' Set.univ = Finset.range circle := by
    ext n
    rw [Finset.mem_coe, Finset.mem_range, Set.image_univ, Set.mem_range]
    constructor
    · rintro ⟨h, rfl⟩
      exact h.toNat_lt
    · exact fun hn => ⟨UInt64.ofNat n, UInt64.toNat_ofNat_of_lt' hn⟩
  rw [← hinj.ncard_image, himage, Set.ncard_coe_finset, Finset.card_range]

/-! ## Owned hashes -/

/-- No two points stand on one position. -/
def Apart (points : List Point) : Prop := (points.map (·.position)).Nodup

/-- The hashes that a peer owns. -/
def owned (r : Ring) (p : Peer) : Set UInt64 := {h | r.owner? h = some p}

/-- The hashes behind a position for which the next of some points is one of `p`. -/
def reached (p : Peer) (before : UInt64) (points : List Point) : Set UInt64 :=
  {h | before < h ∧ ∃ a, (points.find? fun q => h ≤ q.position) = some a ∧ a.peer = p}

variable {p : Peer} {x : Point} {points rest : List Point}

/-- Up to the first point hashes fall to it, and behind it to the others. -/
theorem reached_cons (hx : before < x.position) :
    reached p before (x :: rest) =
      (if x.peer = p then arc before x.position else ∅) ∪ reached p x.position rest := by
  ext h
  have hcases : h ∈ (if x.peer = p then arc before x.position else ∅) ↔
      x.peer = p ∧ before < h ∧ h ≤ x.position := by
    by_cases hp : x.peer = p
    · rw [if_pos hp, mem_arc_of_lt hx, and_iff_right hp]
    · rw [if_neg hp, Set.mem_empty_iff_false, false_iff]
      exact fun hall => hp hall.1
  rw [Set.mem_union, hcases, reached, reached, Set.mem_ofPred_eq, Set.mem_ofPred_eq, List.find?_cons]
  by_cases hle : h ≤ x.position
  · have hnlt : ¬ x.position < h := UInt64.not_lt.mpr hle
    simp [hle, hnlt, and_comm]
  · have hlt : x.position < h := UInt64.not_le.mp hle
    simp [hle, hlt, UInt64.lt_trans hx hlt]

/-- The hashes of one arc, or none, and of what comes behind it. -/
theorem ncard_first {c : Prop} [Decidable c] {s t : Set UInt64} (hst : Disjoint s t) :
    ((if c then s else ∅) ∪ t).ncard = (if c then s.ncard else 0) + t.ncard := by
  split
  · exact Set.ncard_union_eq hst
  · rw [Set.empty_union, Nat.zero_add]

/-- **The sweep counts what is reached**, from any position on. -/
theorem ncard_reached (hs : points.Pairwise fun a b => a.position < b.position)
    (hbefore : ∀ a ∈ points, before < a.position) :
    (reached p before points).ncard = arcs p before points := by
  induction points generalizing before with
  | nil =>
    have hnone : reached p before [] = ∅ := by
      ext h
      simp [reached]
    rw [hnone, Set.ncard_empty]
    rfl
  | cons x rest ih =>
    obtain ⟨hx, hrest⟩ := List.pairwise_cons.mp hs
    have hlt := hbefore x List.mem_cons_self
    have hdisjoint : Disjoint (arc before x.position) (reached p x.position rest) := by
      rw [Set.disjoint_left]
      rintro h harc ⟨hbehind, -⟩
      exact UInt64.not_lt.mpr ((mem_arc_of_lt hlt).mp harc).2 hbehind
    rw [reached_cons hlt, ncard_first hdisjoint, ncard_arc, ih hrest hx]
    rfl

/-! ## Rings -/

variable {last a : Point}

/-- The last point is the highest one. -/
theorem position_le_last (hs : points.Pairwise fun a b => a.position ≤ b.position)
    (hlast : points.getLast? = some last) (ha : a ∈ points) : a.position ≤ last.position := by
  obtain ⟨init, rfl⟩ := List.getLast?_eq_some_iff.mp hlast
  rcases List.mem_append.mp ha with ha | ha
  · exact (List.pairwise_append.mp hs).2.2 a ha last List.mem_cons_self
  · exact UInt64.le_of_eq (congrArg Point.position (List.mem_singleton.mp ha))

variable {ps : List Peer} {replicas : Nat}

theorem Apart.sorted (h : Apart (build ps replicas).points) :
    (build ps replicas).points.Pairwise fun a b => a.position < b.position :=
  ((pairwise_points ps replicas).and (List.pairwise_map.mp h)).imp fun ⟨hle, hne⟩ =>
    UInt64.lt_of_le_of_ne hle hne

theorem Apart.unmixed (h : Apart points) (hash : UInt64) : Unmixed points hash := fun _ ha _ hb hon hon' =>
  congrArg Point.peer (List.inj_on_of_nodup_map h ha hb (hon.trans hon'.symm))

/-- Apart points are met in order: the first from the hash on is the owner's, or the lowest of all. -/
theorem owner?_clockwise (h : Apart (build ps replicas).points) (hash : UInt64) :
    (build ps replicas).owner? hash = (clockwise? (build ps replicas).points hash).map (·.peer) := by
  cases hclock : clockwise? (build ps replicas).points hash with
  | some a => exact owner?_eq_first (firstFrom_clockwise (pairwise_mergeSort _) hclock) (h.unmixed hash)
  | none =>
    have hnil : (build ps replicas).points = [] :=
      List.head?_eq_none_iff.mp (Option.or_eq_none_iff.mp hclock).2
    rw [owner?, hnil]
    rfl

/-- What a peer owns: the arc over the top, if the lowest point is its own, and what it reaches from there
on. -/
theorem owned_cons (h : Apart (build ps replicas).points)
    (hpoints : (build ps replicas).points = x :: rest) (hlast : rest.getLast? = some last) :
    (build ps replicas).owned p =
      (if x.peer = p then arc last.position x.position else ∅) ∪ reached p x.position rest := by
  have hs := h.sorted
  rw [hpoints] at hs
  obtain ⟨hx, hrest⟩ := List.pairwise_cons.mp hs
  have hmem := List.mem_of_getLast? hlast
  ext hash
  have harc : hash ∈ (if x.peer = p then arc last.position x.position else ∅) ↔
      x.peer = p ∧ (last.position < hash ∨ hash ≤ x.position) := by
    by_cases hp : x.peer = p
    · rw [if_pos hp, mem_arc_of_gt (hx last hmem), and_iff_right hp]
    · rw [if_neg hp, Set.mem_empty_iff_false, false_iff]
      exact fun hall => hp hall.1
  rw [Set.mem_union, harc, reached, owned, Set.mem_ofPred_eq, Set.mem_ofPred_eq, owner?_clockwise h, hpoints,
    clockwise?, List.find?_cons]
  by_cases hle : hash ≤ x.position
  · have hnlt : ¬ x.position < hash := UInt64.not_lt.mpr hle
    simp [hle, hnlt]
  · have hlt : x.position < hash := UInt64.not_le.mp hle
    by_cases htop : last.position < hash
    · -- past the last point nothing is left but the lowest one
      have hnone : (rest.find? fun q => decide (hash ≤ q.position)) = none := by
        rw [List.find?_eq_none]
        intro q hq
        simpa using UInt64.lt_of_le_of_lt (position_le_last (hrest.imp UInt64.le_of_lt) hlast hq) htop
      simp [hle, htop, hnone]
    · have hsome : (rest.find? fun q => decide (hash ≤ q.position)).isSome := by
        rw [List.find?_isSome]
        exact ⟨last, hmem, decide_eq_true (UInt64.not_lt.mp htop)⟩
      obtain ⟨a, ha⟩ := Option.isSome_iff_exists.mp hsome
      simp [hle, hlt, htop, ha]

/-- **The sweep counts what a peer owns.** -/
theorem ncard_owned (h : Apart (build ps replicas).points)
    (hpoints : (build ps replicas).points = x :: rest) (hlast : rest.getLast? = some last) :
    ((build ps replicas).owned p).ncard = arcs p last.position (x :: rest) := by
  have hs := h.sorted
  rw [hpoints] at hs
  obtain ⟨hx, hrest⟩ := List.pairwise_cons.mp hs
  have hdisjoint : Disjoint (arc last.position x.position) (reached p x.position rest) := by
    rw [Set.disjoint_left]
    rintro hash harc ⟨hbehind, a, ha, -⟩
    rcases (mem_arc_of_gt (hx last (List.mem_of_getLast? hlast))).mp harc with htop | hle
    · have hto : hash ≤ a.position :=
        of_decide_eq_true (List.find?_some (p := fun q : Point => decide (hash ≤ q.position)) ha)
      have hlow := position_le_last (hrest.imp UInt64.le_of_lt) hlast (List.mem_of_find?_eq_some ha)
      exact UInt64.not_lt.mpr (UInt64.le_trans hto hlow) htop
    · exact UInt64.not_lt.mpr hle hbehind
  rw [owned_cons h hpoints hlast, ncard_first hdisjoint, ncard_arc, ncard_reached hrest hx]
  rfl

/-! ## The whole circle -/

/-- The way along some points, whoever owns them. -/
def stretch (before : UInt64) : List Point → Nat
  | [] => 0
  | a :: rest => (a.position - before).toNat + stretch a.position rest

/-- What all peers have of the way is the way. -/
theorem sum_arcs {ms : List Peer} (hms : ms.Nodup) (hpoints : ∀ a ∈ points, a.peer ∈ ms) :
    (ms.map fun p => arcs p before points).sum = stretch before points := by
  induction points generalizing before with
  | nil => simp [arcs, stretch]
  | cons x rest ih =>
    have hfirst : (ms.map fun p => if x.peer = p then (x.position - before).toNat else 0).sum =
        (x.position - before).toNat := by
      rw [← List.sum_toFinset _ hms, Finset.sum_ite_eq, if_pos]
      exact List.mem_toFinset.mpr (hpoints x List.mem_cons_self)
    have hrest : (ms.map fun p => arcs p x.position rest).sum = stretch x.position rest :=
      ih fun a ha => hpoints a (List.mem_cons_of_mem x ha)
    unfold arcs stretch
    rw [List.sum_map_add, hfirst, hrest]

/-- From a position on, the way along points in order leads to the last one. -/
theorem stretch_add (hs : points.Pairwise fun a b => a.position ≤ b.position)
    (hbefore : ∀ a ∈ points, before ≤ a.position) (hlast : points.getLast? = some last) :
    before.toNat + stretch before points = last.position.toNat := by
  induction points generalizing before with
  | nil => cases hlast
  | cons x rest ih =>
    obtain ⟨hx, hrest⟩ := List.pairwise_cons.mp hs
    have hstep : before.toNat + (x.position - before).toNat = x.position.toNat := by
      have hle := UInt64.le_iff_toNat_le.mp (hbefore x List.mem_cons_self)
      have htop := x.position.toNat_lt
      rw [UInt64.toNat_sub]
      omega
    unfold stretch
    cases hrest' : rest.getLast? with
    | none =>
      rw [List.getLast?_eq_none_iff] at hrest'
      subst hrest'
      cases hlast
      exact hstep
    | some b =>
      rw [List.getLast?_cons, hrest'] at hlast
      cases hlast
      rw [← Nat.add_assoc, hstep, ih hrest hx hrest']

/-- **Once around the circle**: the way from the last point past the top and along all points. -/
theorem stretch_circle (hs : (x :: rest).Pairwise fun a b => a.position < b.position)
    (hlast : rest.getLast? = some last) : stretch last.position (x :: rest) = circle := by
  obtain ⟨hx, hrest⟩ := List.pairwise_cons.mp hs
  have hlt := UInt64.lt_iff_toNat_lt.mp (hx last (List.mem_of_getLast? hlast))
  have hway := stretch_add (hrest.imp UInt64.le_of_lt) (fun a ha => UInt64.le_of_lt (hx a ha)) hlast
  have htop := last.position.toNat_lt
  unfold stretch
  rw [UInt64.toNat_sub]
  unfold circle
  omega

/-! ## Shares -/

/-- A ring of several peers has a first and a last point. -/
theorem exists_first_last (hreplicas : 0 < replicas) (hmany : 2 ≤ (build ps replicas).peers.length) :
    ∃ x rest last, (build ps replicas).points = x :: rest ∧ rest.getLast? = some last := by
  have hlength : 2 ≤ (build ps replicas).points.length := by
    rw [length_points]
    exact hmany.trans (Nat.le_mul_of_pos_right _ hreplicas)
  rcases hpoints : (build ps replicas).points with _ | ⟨x, _ | ⟨y, rest⟩⟩
  · simp [hpoints] at hlength
  · simp [hpoints] at hlength
  · exact ⟨x, y :: rest, (y :: rest).getLast (List.cons_ne_nil y rest), rfl, List.getLast?_eq_some_getLast _⟩

/-- The sum grows from point to point. -/
theorem arcs_le_append (p : Peer) (before : UInt64) (xs ys : List Point) :
    arcs p before xs ≤ arcs p before (xs ++ ys) := by
  induction xs generalizing before with
  | nil => exact Nat.zero_le _
  | cons x rest ih => exact Nat.add_le_add_left (ih x.position) _

theorem mem_peers : p ∈ (build ps replicas).peers ↔ p ∈ ps := mem_members ps

/-- The points of a ring are those of its peers. -/
theorem peer_mem_peers : ∀ a ∈ (build ps replicas).points, a.peer ∈ (build ps replicas).peers := by
  intro a ha
  obtain ⟨q, hq, m, -, rfl⟩ := mem_points_iff.mp ha
  exact mem_peers.mpr hq

theorem owner?_mem {hash : UInt64} (h : (build ps replicas).owner? hash = some p) :
    p ∈ (build ps replicas).peers := by
  obtain ⟨a, ha, rfl⟩ := Option.map_eq_some_iff.mp h
  exact mem_peers.mpr (mem_of_pointAt? ha)

/-- Every hash has an owner. -/
theorem exists_owner? (hps : ps ≠ []) (hreplicas : 0 < replicas) (hash : UInt64) :
    ∃ p ∈ (build ps replicas).peers, (build ps replicas).owner? hash = some p := by
  have hne : (build ps replicas).points ≠ [] := by
    rw [Ne, points_eq_nil_iff]
    rintro (hnil | hzero)
    · exact hps hnil
    · exact hreplicas.ne' hzero
  obtain ⟨a, ha⟩ := exists_pointAt? hne hash
  have howner : (build ps replicas).owner? hash = some a.peer := by rw [owner?, ha, Option.map_some]
  exact ⟨a.peer, owner?_mem howner, howner⟩

/-- A peer alone owns every hash. -/
theorem owner?_alone (hreplicas : 0 < replicas) (halone : (build ps replicas).peers = [p]) (hash : UInt64) :
    (build ps replicas).owner? hash = some p := by
  have hps : ps ≠ [] := List.ne_nil_of_mem (mem_peers.mp (halone ▸ List.mem_cons_self))
  obtain ⟨q, hq, howner⟩ := exists_owner? hps hreplicas hash
  rw [halone, List.mem_singleton] at hq
  rw [howner, hq]

theorem share?_alone (halone : (build ps replicas).peers = [p]) :
    (build ps replicas).share? p = some circle := by
  simp [share?, contains, halone]

theorem share?_stranger (hp : p ∉ (build ps replicas).peers) : (build ps replicas).share? p = some 0 := by
  simp [share?, contains, hp]

theorem fraction_circle : fraction circle = 1.0 := by decide +kernel

theorem fraction_zero : fraction 0 = 0.0 := by decide +kernel

/-- A peer alone is reported to have all of the ring, and a stranger none of it. -/
theorem reported_alone (halone : (build ps replicas).peers = [p]) :
    ((build ps replicas).share? p).map fraction = some 1.0 := by
  rw [share?_alone halone, Option.map_some, fraction_circle]

theorem reported_stranger (hp : p ∉ (build ps replicas).peers) :
    ((build ps replicas).share? p).map fraction = some 0.0 := by
  rw [share?_stranger hp, Option.map_some, fraction_zero]

theorem share?_member (hp : p ∈ (build ps replicas).peers) (hmany : 2 ≤ (build ps replicas).peers.length)
    (hlast : (build ps replicas).points.getLast? = some last) :
    (build ps replicas).share? p = some (arcs p last.position (build ps replicas).points) := by
  have hne : (build ps replicas).peers.length ≠ 1 := by omega
  simp [share?, contains, hp, hne, hlast]

/-- Once around a ring of several peers: each has the arcs of its hashes, and together they have the
circle. -/
theorem Apart.arcs_around (hapart : Apart (build ps replicas).points) (hreplicas : 0 < replicas)
    (hmany : 2 ≤ (build ps replicas).peers.length) :
    ∃ last, (build ps replicas).points.getLast? = some last ∧
      (∀ p, arcs p last.position (build ps replicas).points = ((build ps replicas).owned p).ncard) ∧
      ((build ps replicas).peers.map fun p => arcs p last.position (build ps replicas).points).sum =
        circle := by
  obtain ⟨x, rest, last, hpoints, hlast⟩ := exists_first_last hreplicas hmany
  have hs : (x :: rest).Pairwise fun a b => a.position < b.position := hpoints ▸ hapart.sorted
  refine ⟨last, ?_, fun p => ?_, (sum_arcs (nodup_members ps) peer_mem_peers).trans ?_⟩
  · rw [hpoints, List.getLast?_cons, hlast]
    rfl
  · rw [ncard_owned hapart hpoints hlast, hpoints]
  · rw [hpoints, stretch_circle hs hlast]

/-- A share is the number of hashes that a peer owns, whether it is one of many, alone, or no member. -/
theorem Apart.share?_eq (hapart : Apart (build ps replicas).points) (hreplicas : 0 < replicas) (p : Peer) :
    (build ps replicas).share? p = some ((build ps replicas).owned p).ncard := by
  by_cases hp : p ∈ (build ps replicas).peers
  · by_cases hmany : 2 ≤ (build ps replicas).peers.length
    · obtain ⟨last, hlast, harcs, -⟩ := hapart.arcs_around hreplicas hmany
      rw [share?_member hp hmany hlast, harcs]
    · obtain ⟨q, hq⟩ : ∃ q, (build ps replicas).peers = [q] := by
        have hpos := List.length_pos_of_mem hp
        exact List.length_eq_one_iff.mp (by omega)
      obtain rfl : p = q := by rwa [hq, List.mem_singleton] at hp
      have hall : (build ps replicas).owned p = Set.univ := Set.eq_univ_of_forall (owner?_alone hreplicas hq)
      rw [share?_alone hq, hall, ncard_univ]
  · have hempty : (build ps replicas).owned p = ∅ :=
      Set.eq_empty_of_forall_notMem fun hash howner => hp (owner?_mem howner)
    rw [share?_stranger hp, hempty, Set.ncard_empty]

/-- **A share is the number of hashes that a peer owns**, on every ring with peers, points, and no two
points on one position.  With two peers or more it is the sum of the arcs that end in a point of the peer,
which is kept in a word of 128 bits and never outgrows it, and all members together have the circle.  A
peer alone on its ring has all of it, which is reported as one, and owns every hash; who is not on the ring
has nothing, which is reported as zero. -/
theorem share_counts_owned (hps : ps ≠ []) (hreplicas : 0 < replicas)
    (hapart : Apart (build ps replicas).points) :
    let r := build ps replicas
    (∀ key, r.lookup key = r.owner? (hashKey key)) ∧
    (∀ hash, ∃ p ∈ r.peers, r.owner? hash = some p) ∧
    (∀ p, r.share? p = some (r.owned p).ncard) ∧
    (2 ≤ r.peers.length → ∃ last, r.points.getLast? = some last ∧
      (∀ p ∈ r.peers, r.share? p = some (arcs p last.position r.points) ∧
        arcs p last.position r.points = (r.owned p).ncard ∧
        ∀ swept, swept <+: r.points → arcs p last.position swept < 2 ^ 128) ∧
      (r.peers.map fun p => arcs p last.position r.points).sum = 2 ^ 64) ∧
    (∀ p, r.peers = [p] → r.share? p = some (2 ^ 64) ∧ (r.share? p).map fraction = some 1.0 ∧
      ∀ hash, r.owner? hash = some p) ∧
    ∀ p, p ∉ r.peers → r.share? p = some 0 ∧ (r.share? p).map fraction = some 0.0 ∧
      ∀ hash, r.owner? hash ≠ some p := by
  intro r
  refine ⟨fun key => rfl, exists_owner? hps hreplicas, hapart.share?_eq hreplicas, fun hmany => ?_,
    fun p halone => ⟨share?_alone halone, reported_alone halone, owner?_alone hreplicas halone⟩,
    fun p hp => ⟨share?_stranger hp, reported_stranger hp, fun hash howner => hp (owner?_mem howner)⟩⟩
  obtain ⟨last, hlast, harcs, hsum⟩ := hapart.arcs_around hreplicas hmany
  refine ⟨last, hlast, fun p hp => ⟨share?_member hp hmany hlast, harcs p, ?_⟩, hsum⟩
  rintro swept ⟨ahead, hswept⟩
  have hgrow := arcs_le_append p last.position swept ahead
  have htotal : arcs p last.position r.points ≤ circle := by
    rw [← hsum]
    exact List.le_sum_of_mem (List.mem_map_of_mem hp)
  rw [hswept] at hgrow
  exact (hgrow.trans htotal).trans_lt (by decide)

/-- Three peers with two points each; the arc over the top leads from a point of `b:1` to one of `a:1`. -/
theorem share_counts_owned_three_peers :
    let ps : List Peer := [⟨"c:1"⟩, ⟨"a:1"⟩, ⟨"b:1"⟩]
    let r := build ps 2
    ps ≠ [] ∧ 0 < 2 ∧ Apart r.points ∧ 2 ≤ r.peers.length ∧
      (r.owned ⟨"a:1"⟩).ncard = 7838544005429648514 ∧
      ∃ last, r.points.getLast? = some last ∧ last.peer = ⟨"b:1"⟩ ∧
        (r.peers.map fun p => arcs p last.position r.points).sum = 2 ^ 64 := by
  intro ps r
  -- the ring is built once, for all that is read off it
  have hring : (r.points.map (·.position), r.points.getLast?, r.share? ⟨"a:1"⟩) =
      ([3351468556607958279, 8726057291817379149, 12805623081943823775, 14058768555240995258,
        14836942274366479622, 15212814098185032864],
        some ⟨15212814098185032864, ⟨"b:1"⟩, 1⟩, some 7838544005429648514) := by cbv
  obtain ⟨hpositions, hrest⟩ := Prod.mk.inj hring
  obtain ⟨htop, hnumber⟩ := Prod.mk.inj hrest
  have hapart : Apart r.points := by
    rw [Apart, hpositions]
    decide
  have hmany : 2 ≤ r.peers.length := by decide
  obtain ⟨-, -, hshare, hsweep, -⟩ := share_counts_owned (List.cons_ne_nil _ _) (by decide) hapart
  obtain ⟨last, hlast, -, hsum⟩ := hsweep hmany
  have hcount : (r.owned ⟨"a:1"⟩).ncard = 7838544005429648514 :=
    Option.some.inj ((hshare ⟨"a:1"⟩).symm.trans hnumber)
  obtain rfl := Option.some.inj (hlast.symm.trans htop)
  exact ⟨List.cons_ne_nil _ _, by decide, hapart, hmany, hcount, _, hlast, rfl, hsum⟩

end Ring

end PeerCache
