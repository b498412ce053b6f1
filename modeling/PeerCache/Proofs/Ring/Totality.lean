import Mathlib
import PeerCache.Proofs.Ring.Shares

/-!
# Rings as tables

A ring is kept as two arrays, its peers and its points, and a point names its peer by the place in the first one
(`Ring.Table`).  What is asked of a ring reads these arrays and counts their places and hashes, and each of these
steps can fail: a place may lie outside, a number may fall below zero or outgrow its word (`Fault`).

    t.lookup sought    what a search has come to                    never fails
    t.share p          the last point, then one sweep               fails if several peers have no points
    t.stats p          the share and three sizes                    as `share`

A peer that owns no hash has no share, but for the points that coincide with points of others, which count one hash
each at most, and but for a peer alone on a ring without points, whose share is the whole circle.

Main statement: `operations_checked`, and `share_without_points` for the rings on which a share is wrong or fails.
-/

namespace PeerCache

namespace Ring

open Point

/-- What stops a computation with the arrays of a ring. -/
inductive Fault where
  | outOfRange
  | underflow
  | overflow
  deriving Repr, DecidableEq

/-- The arrays of a ring: its peers in order, and the position of each point with the place of its peer. -/
structure Table where
  peers : List Peer
  points : List (UInt64 × Nat)
  virtualReplicas : Nat

def table (r : Ring) : Table :=
  ⟨r.peers, r.points.map fun a => (a.position, r.peers.idxOf a.peer), r.virtualReplicas⟩

/-! ## Checked steps -/

def read {α : Type} (xs : List α) (i : Nat) : Except Fault α :=
  match xs[i]? with
  | some x => .ok x
  | none => .error .outOfRange

def decrement (n : Nat) : Except Fault Nat := if n = 0 then .error .underflow else .ok (n - 1)

/-- A sum in a word of 128 bits. -/
def add128 (m n : Nat) : Except Fault Nat := if m + n < 2 ^ 128 then .ok (m + n) else .error .overflow

namespace Table

/-- The owner of a hash, for what the search among the points says. -/
def lookup (t : Table) (sought : Sought) : Except Fault (Option Peer) :=
  if t.points.isEmpty then .ok none
  else do
    let i := match sought with
      | .on i => i
      | .before i => if t.points.length ≤ i then 0 else i
    let (_, place) ← read t.points i
    let p ← read t.peers place
    .ok (some p)

/-- Adds up the arcs that end in a point of the peer at the place `target`. -/
def sweep (target : Nat) (before : UInt64) (sum : Nat) : List (UInt64 × Nat) → Except Fault Nat
  | [] => .ok sum
  | (position, place) :: rest => do
    let sum ← if place = target then add128 sum (position - before).toNat else .ok sum
    sweep target position sum rest

def share (t : Table) (p : Peer) : Except Fault Nat :=
  if !t.peers.contains p then .ok 0
  else if t.peers.length = 1 then .ok circle
  else do
    let last ← decrement t.points.length
    let (before, _) ← read t.points last
    sweep (t.peers.idxOf p) before 0 t.points

def stats (t : Table) (localPeer : Peer) : Except Fault RingStats := do
  let share ← t.share localPeer
  .ok ⟨t.peers.length, t.virtualReplicas, t.points.length, share⟩

end Table

/-- The one way in which a share can be missing. -/
def orUnderflow {α : Type} : Option α → Except Fault α
  | some x => .ok x
  | none => .error .underflow

/-- A point of another peer stands on the same position. -/
def Shared (points : List Point) (a : Point) : Prop := ∃ b ∈ points, b.position = a.position ∧ b.peer ≠ a.peer

instance (points : List Point) (a : Point) : Decidable (Shared points a) :=
  inferInstanceAs (Decidable (∃ b ∈ points, b.position = a.position ∧ b.peer ≠ a.peer))

variable {points rest : List Point} {peers ps : List Peer} {replicas n i : Nat} {a x last : Point} {p : Peer}
  {before hash : UInt64} {sought : Sought}

theorem read_of_getElem? {α : Type} {xs : List α} {y : α} (h : xs[i]? = some y) : read xs i = .ok y := by
  rw [read, h]

/-! ## Looking up -/

/-- The point that a search leads to has a place in the array, and its peer has one too. -/
theorem Table.lookup_of_arrive {r : Ring} (hpeers : ∀ a ∈ r.points, a.peer ∈ r.peers)
    (harrive : arrive? r.points sought = some a) : r.table.lookup sought = .ok (some a.peer) := by
  have hpoint {i : Nat} (hi : r.points[i]? = some a) :
      (do
        let (_, place) ← read r.table.points i
        let p ← read r.table.peers place
        .ok (some p)) = (.ok (some a.peer) : Except Fault (Option Peer)) := by
    have hplace : r.table.points[i]? = some (a.position, r.peers.idxOf a.peer) := by
      rw [table, List.getElem?_map, hi, Option.map_some]
    have hpeer : r.peers[r.peers.idxOf a.peer]? = some a.peer :=
      List.getElem?_idxOf (hpeers a (List.mem_of_getElem? hi))
    rw [read_of_getElem? hplace]
    change (read r.peers (r.peers.idxOf a.peer) >>= fun p => .ok (some p)) = _
    rw [read_of_getElem? hpeer]
    rfl
  have hne : ¬r.table.points.isEmpty = true := by
    rw [List.isEmpty_iff, table, List.map_eq_nil_iff]
    intro hnil
    rw [hnil] at harrive
    cases sought <;> cases harrive
  unfold lookup
  rw [if_neg hne]
  cases sought with
  | on i => exact hpoint harrive
  | before i =>
    rw [arrive?, ← List.length_map (f := fun a => (a.position, r.peers.idxOf a.peer))] at harrive
    exact hpoint harrive

theorem Table.lookup_of_nil {r : Ring} (hnil : r.points = []) : r.table.lookup sought = .ok none := by
  unfold lookup table
  rw [hnil]
  rfl

/-! ## Sweeping -/

theorem arcs_le_stretch (p : Peer) (before : UInt64) (points : List Point) :
    arcs p before points ≤ stretch before points := by
  induction points generalizing before with
  | nil => exact Nat.le_refl 0
  | cons x rest ih =>
    unfold arcs stretch
    refine Nat.add_le_add ?_ (ih x.position)
    split
    · exact Nat.le_refl _
    · exact Nat.zero_le _

/-- Once around, whether or not points coincide. -/
theorem stretch_le_circle (hs : points.Pairwise fun a b => a.position ≤ b.position)
    (hlast : points.getLast? = some last) : stretch last.position points ≤ circle := by
  cases points with
  | nil => cases hlast
  | cons x rest =>
    obtain ⟨hx, hrest⟩ := List.pairwise_cons.mp hs
    have htop := last.position.toNat_lt
    unfold stretch circle
    rw [UInt64.toNat_sub]
    cases hend : rest.getLast? with
    | none =>
      rw [List.getLast?_eq_none_iff] at hend
      subst hend
      cases hlast
      unfold stretch
      omega
    | some b =>
      rw [List.getLast?_cons, hend, Option.getD_some, Option.some.injEq] at hlast
      subst hlast
      have hway := stretch_add hrest hx hend
      have hle := UInt64.le_iff_toNat_le.mp (hx b (List.mem_of_getLast? hend))
      omega

/-- The sweep over the array is the sweep over the points, as long as its sum has a word. -/
theorem Table.sweep_eq (hpeers : ∀ a ∈ points, a.peer ∈ peers) (hfit : n + arcs p before points < 2 ^ 128) :
    sweep (peers.idxOf p) before n (points.map fun a => (a.position, peers.idxOf a.peer)) =
      .ok (n + arcs p before points) := by
  induction points generalizing before n with
  | nil => rfl
  | cons x rest ih =>
    have hrest : ∀ a ∈ rest, a.peer ∈ peers := fun a ha => hpeers a (List.mem_cons_of_mem x ha)
    have hplace : peers.idxOf x.peer = peers.idxOf p ↔ x.peer = p :=
      List.idxOf_inj (hpeers x List.mem_cons_self)
    rw [List.map_cons, sweep]
    unfold arcs at hfit ⊢
    by_cases hp : x.peer = p
    · rw [if_pos hp] at hfit ⊢
      rw [if_pos (hplace.mpr hp), add128, if_pos (by omega)]
      rw [← Nat.add_assoc] at hfit ⊢
      exact ih hrest hfit
    · rw [if_neg hp, Nat.zero_add] at hfit ⊢
      rw [if_neg (mt hplace.mp hp)]
      exact ih hrest hfit

/-- **The share from the arrays** is the share, and fails by falling below zero where there is none. -/
theorem Table.share_eq {r : Ring} (hpeers : ∀ a ∈ r.points, a.peer ∈ r.peers)
    (hs : r.points.Pairwise fun a b => a.position ≤ b.position) (p : Peer) :
    r.table.share p = orUnderflow (r.share? p) ∧ ∀ n, r.share? p = some n → n ≤ circle := by
  unfold share Ring.share?
  change (if !r.contains p then _ else if r.peers.length = 1 then _ else _) = _ ∧ _
  split
  · exact ⟨rfl, fun n hn => Option.some.inj hn ▸ Nat.zero_le circle⟩
  split
  · exact ⟨rfl, fun n hn => Nat.le_of_eq (Option.some.inj hn).symm⟩
  have hlength : r.table.points.length = r.points.length := List.length_map _
  rw [hlength]
  cases hlast : r.points.getLast? with
  | none =>
    rw [List.getLast?_eq_none_iff.mp hlast]
    exact ⟨rfl, nofun⟩
  | some last =>
    have harcs : arcs p last.position r.points ≤ circle :=
      (arcs_le_stretch p _ _).trans (stretch_le_circle hs hlast)
    refine ⟨?_, fun n hn => Option.some.inj hn ▸ harcs⟩
    have hne : r.points.length ≠ 0 := by
      rw [Ne, List.length_eq_zero_iff, ← List.getLast?_eq_none_iff, hlast]
      exact Option.some_ne_none last
    have hread : r.table.points[r.points.length - 1]? = some (last.position, r.peers.idxOf last.peer) := by
      rw [table, List.getElem?_map, ← List.getLast?_eq_getElem?, hlast, Option.map_some]
    rw [decrement, if_neg hne]
    change (read r.table.points (r.points.length - 1) >>= _) = _
    rw [read_of_getElem? hread]
    change sweep (r.peers.idxOf p) last.position 0 _ = _
    have hfit : 0 + arcs p last.position r.points < 2 ^ 128 := by
      unfold circle at harcs
      omega
    rw [table, sweep_eq hpeers hfit, Nat.zero_add]
    rfl

theorem Table.stats_eq {r : Ring} (h : r.table.share p = orUnderflow (r.share? p)) :
    r.table.stats p = orUnderflow (r.stats? p) := by
  have hlength : r.table.points.length = r.points.length := List.length_map _
  unfold stats Ring.stats?
  rw [h, hlength]
  cases r.share? p <;> rfl

/-! ## Shares without hashes -/

/-- The position in front of the points that come after `front`. -/
def behind (before : UInt64) (front : List Point) : UInt64 := (front.getLast?.map (·.position)).getD before

/-- On the arc that ends in a point, it is the first point clockwise. -/
theorem clockwise?_of_arc {front : List Point} (hs : points.Pairwise fun a b => a.position ≤ b.position)
    (hlast : points.getLast? = some last) (hsplit : points = front ++ x :: rest)
    (h : hash ∈ arc (behind last.position front) x.position) : clockwise? points hash = some x := by
  have hnone {l : List Point} {b : Point} (hl : l.Pairwise fun a b => a.position ≤ b.position)
      (hb : l.getLast? = some b) (hlt : b.position < hash) :
      (l.find? fun q => decide (hash ≤ q.position)) = none := by
    rw [List.find?_eq_none]
    intro a ha
    simpa using UInt64.lt_of_le_of_lt (position_le_last hl hb ha) hlt
  -- an arc is empty unless its ends differ
  have hne : behind last.position front ≠ x.position := by
    rintro heq
    rw [heq, arc, Set.mem_ofPred_eq, UInt64.sub_self] at h
    exact absurd (h.1.trans_le h.2) (lt_irrefl _)
  cases hfront : front.getLast? with
  | none =>
    -- the first arc comes over the top
    obtain rfl := List.getLast?_eq_none_iff.mp hfront
    have hx : x ∈ points := hsplit ▸ List.mem_cons_self
    have hgt : x.position < last.position := UInt64.lt_of_le_of_ne (position_le_last hs hlast hx) (Ne.symm hne)
    rcases (mem_arc_of_gt hgt).mp h with htop | hle
    · rw [clockwise?, hnone hs hlast htop, hsplit]
      rfl
    · rw [clockwise?, hsplit, List.nil_append, List.find?_cons, decide_eq_true hle]
      rfl
  | some b =>
    have hb : behind last.position front = b.position := by
      rw [behind, hfront, Option.map_some, Option.getD_some]
    rw [hb] at h hne
    rw [hsplit] at hs
    obtain ⟨hinit, -, hcross⟩ := List.pairwise_append.mp hs
    have hlt : b.position < x.position :=
      UInt64.lt_of_le_of_ne (hcross b (List.mem_of_getLast? hfront) x List.mem_cons_self) hne
    obtain ⟨hbehind, hupTo⟩ := (mem_arc_of_lt hlt).mp h
    rw [clockwise?, hsplit, List.find?_append, hnone hinit hfront hbehind, Option.none_or, List.find?_cons,
      decide_eq_true hupTo]
    rfl

/-- If each arc of a peer is as long as a count says at most, so is their sum. -/
theorem arcs_le_countP {c : Point → Bool} (h : ∀ front x rest, points = front ++ x :: rest → x.peer = p →
      (x.position - behind before front).toNat ≤ if c x then 1 else 0) :
    arcs p before points ≤ points.countP fun a => a.peer = p && c a := by
  induction points generalizing before with
  | nil => exact Nat.le_refl 0
  | cons x rest ih =>
    have hrest : ∀ front y after, rest = front ++ y :: after → y.peer = p →
        (y.position - behind x.position front).toNat ≤ if c y then 1 else 0 := by
      intro front y after hsplit hp
      have hnext := h (x :: front) y after (by rw [hsplit, List.cons_append]) hp
      rw [behind, List.getLast?_cons, Option.map_some, Option.getD_some] at hnext
      rw [behind]
      cases hend : front.getLast? <;> rwa [hend] at hnext
    have hfirst : x.peer = p → (x.position - before).toNat ≤ if c x then 1 else 0 := h [] x rest rfl
    rw [List.countP_cons, Nat.add_comm]
    unfold arcs
    refine Nat.add_le_add ?_ (ih hrest)
    by_cases hp : x.peer = p
    · rw [if_pos hp]
      simpa [hp] using hfirst hp
    · rw [if_neg hp]
      exact Nat.zero_le _

/-- **Who owns no hash has no share** but for points that coincide with those of others: a longer arc has a hash
on which no point stands, and this hash belongs to the peer. -/
theorem arcs_le_of_owned_eq_empty (hlast : (build ps replicas).points.getLast? = some last)
    (hnone : (build ps replicas).owned p = ∅) :
    arcs p last.position (build ps replicas).points ≤
      (build ps replicas).points.countP fun a => a.peer = p && Shared (build ps replicas).points a := by
  have hs := pairwise_points ps replicas
  refine arcs_le_countP fun front x rest hsplit hp => ?_
  have hx : x ∈ (build ps replicas).points := hsplit ▸ List.mem_append_right _ List.mem_cons_self
  -- a hash of the arc that is not the peer's is the position of the point, and others stand there too
  have honly : ∀ hash ∈ arc (behind last.position front) x.position,
      hash = x.position ∧ Shared (build ps replicas).points x := by
    intro hash harc
    have hfirst := firstFrom_clockwise (pairwise_mergeSort _) (clockwise?_of_arc hs hlast hsplit harc)
    have hmixed : ¬Unmixed (build ps replicas).points hash := fun hone => by
      have howner := owner?_eq_first hfirst hone
      rw [hp] at howner
      exact Set.eq_empty_iff_forall_notMem.mp hnone hash howner
    unfold Unmixed at hmixed
    push Not at hmixed
    obtain ⟨a, ha, b, hb, hon, hon', hne⟩ := hmixed
    have hpos := hfirst.position_eq ha hon
    refine ⟨hpos.symm, ?_⟩
    by_cases hpeer : a.peer = x.peer
    · exact ⟨b, hb, hon'.trans hpos.symm, fun heq => hne (hpeer.trans heq.symm)⟩
    · exact ⟨a, ha, hon.trans hpos.symm, hpeer⟩
  rw [← ncard_arc]
  by_cases hshared : Shared (build ps replicas).points x
  · rw [if_pos (decide_eq_true hshared), ← Set.ncard_singleton x.position]
    exact Set.ncard_le_ncard fun hash harc => (honly hash harc).1
  · rw [Set.eq_empty_of_forall_notMem fun hash harc => hshared (honly hash harc).2, Set.ncard_empty]
    exact Nat.zero_le _

/-! ## All operations -/

theorem several_iff (replicas : Nat) (hp : p ∈ ps) : 2 ≤ (build ps replicas).peers.length ↔ ∃ q ∈ ps, q ≠ p := by
  have hnodup : (build ps replicas).peers.Nodup := nodup_members ps
  have hmem (q : Peer) : q ∈ ps ↔ q ∈ (build ps replicas).peers := mem_peers.symm
  simp only [hmem] at hp ⊢
  generalize (build ps replicas).peers = members at hnodup hp ⊢
  rcases members with _ | ⟨a, _ | ⟨b, rest⟩⟩
  · cases hp
  · obtain rfl := List.mem_singleton.mp hp
    simp
  · refine iff_of_true (Nat.le_add_left 2 rest.length) ?_
    have hab : a ≠ b := fun heq => (List.nodup_cons.mp hnodup).1 (heq ▸ List.mem_cons_self)
    by_cases ha : a = p
    · exact ⟨b, List.mem_cons_of_mem a List.mem_cons_self, fun hb => hab (ha.trans hb.symm)⟩
    · exact ⟨a, List.mem_cons_self, ha⟩

theorem peers_alone (replicas : Nat) (hp : p ∈ ps) (halone : ∀ q ∈ ps, q = p) : (build ps replicas).peers = [p] := by
  have hfew : ¬2 ≤ (build ps replicas).peers.length := by
    rw [several_iff replicas hp]
    rintro ⟨q, hq, hne⟩
    exact hne (halone q hq)
  have hmem : p ∈ (build ps replicas).peers := mem_peers.mpr hp
  have hpos := List.length_pos_of_mem hmem
  obtain ⟨q, hq⟩ := List.length_eq_one_iff.mp (by omega : (build ps replicas).peers.length = 1)
  rw [hq, List.mem_singleton] at hmem
  rw [hq, hmem]

/-- Where a share is missing. -/
theorem share?_eq_none_iff :
    (build ps replicas).share? p = none ↔ p ∈ ps ∧ (∃ q ∈ ps, q ≠ p) ∧ replicas = 0 := by
  by_cases hp : p ∈ ps
  · by_cases halone : ∀ q ∈ ps, q = p
    · rw [share?_alone (peers_alone replicas hp halone)]
      refine iff_of_false (Option.some_ne_none _) ?_
      rintro ⟨-, ⟨q, hq, hne⟩, -⟩
      exact hne (halone q hq)
    · push Not at halone
      have hseveral := (several_iff replicas hp).mpr halone
      have hzero : (build ps replicas).points = [] ↔ replicas = 0 := by
        rw [points_eq_nil_iff, or_iff_right (List.ne_nil_of_mem hp)]
      rw [← hzero, and_iff_right hp, and_iff_right halone]
      cases hlast : (build ps replicas).points.getLast? with
      | some last =>
        rw [share?_member (mem_peers.mpr hp) hseveral hlast]
        refine iff_of_false (Option.some_ne_none _) fun hnil => ?_
        rw [hnil] at hlast
        cases hlast
      | none =>
        have hne : (build ps replicas).peers.length ≠ 1 := by omega
        refine iff_of_true ?_ (List.getLast?_eq_none_iff.mp hlast)
        simp [share?, contains, mem_peers.mpr hp, hne, hlast]
  · rw [share?_stranger (mt mem_peers.mp hp)]
    exact iff_of_false (Option.some_ne_none _) fun h => hp h.1

/-- **Every operation but the share has a result on every ring.**  A lookup reads inside the arrays, whatever place
the search says, and has no owner exactly if there are no points, because there are no peers or they have none each.
The share and the statistics have a result, which is at most the circle, unless several peers, and the one asked
for among them, have no points: there the place of the last point is below zero.  A stranger has no share, reported
as zero, and a peer alone has the circle, reported as one, with points or without.  A peer with points that owns no hash has a share of one hash
at most for each of its points that coincides with a point of another peer, and so none if there is no such point. -/
theorem operations_checked (ps : List Peer) (replicas : Nat) :
    let r := build ps replicas
    (r.points = [] ↔ ps = [] ∨ replicas = 0) ∧
    (∀ key, (r.lookup key = none ↔ r.points = []) ∧
      (∃ sought, Search r.points (hashKey key) sought ∧ r.table.lookup sought = .ok (r.lookup key)) ∧
      ∀ sought, Search r.points (hashKey key) sought → ∃ found, r.table.lookup sought = .ok found ∧
        (found = none ↔ r.points = [])) ∧
    ∀ p,
      (r.contains p = true ↔ p ∈ ps) ∧
      r.table.share p = orUnderflow (r.share? p) ∧ r.table.stats p = orUnderflow (r.stats? p) ∧
      (r.share? p = none ↔ p ∈ ps ∧ (∃ q ∈ ps, q ≠ p) ∧ replicas = 0) ∧
      (∀ n, r.share? p = some n → n ≤ circle) ∧
      (p ∉ ps → r.share? p = some 0 ∧ (r.share? p).map fraction = some 0.0) ∧
      (p ∈ ps → (∀ q ∈ ps, q = p) → r.share? p = some circle ∧ (r.share? p).map fraction = some 1.0) ∧
      (0 < replicas → r.owned p = ∅ → ∃ n, r.share? p = some n ∧
        n ≤ r.points.countP fun a => a.peer = p && Shared r.points a) := by
  intro r
  have hs : r.points.Pairwise fun a b => a.place ≤ b.place := pairwise_mergeSort _
  have hpeers : ∀ a ∈ r.points, a.peer ∈ r.peers := peer_mem_peers
  refine ⟨points_eq_nil_iff ps replicas, fun key => ?_, fun p => ?_⟩
  · by_cases hnil : r.points = []
    · have hnone : r.lookup key = none := by
        rw [Ring.lookup, hnil]
        rfl
      obtain ⟨sought, hsearch, -⟩ := exists_search hs (hashKey key)
      refine ⟨iff_of_true hnone hnil, ⟨sought, hsearch, ?_⟩, fun sought _ => ?_⟩
      · rw [hnone, Table.lookup_of_nil hnil]
      · exact ⟨none, Table.lookup_of_nil hnil, iff_of_true rfl hnil⟩
    · obtain ⟨a, ha⟩ := exists_pointAt? hnil (hashKey key)
      have hsome : r.lookup key = some a.peer := by rw [Ring.lookup, ha, Option.map_some]
      refine ⟨iff_of_false (by rw [hsome]; exact Option.some_ne_none _) hnil, ?_, fun sought hsearch => ?_⟩
      · obtain ⟨sought, hsearch, harrive⟩ := exists_search hs (hashKey key)
        exact ⟨sought, hsearch, by rw [hsome, Table.lookup_of_arrive hpeers (harrive.trans ha)]⟩
      · obtain ⟨first, hfirst⟩ := exists_firstFrom hs hnil (hashKey key)
        obtain ⟨b, -, harrive, -⟩ := hsearch.arrives hs hfirst
        exact ⟨some b.peer, Table.lookup_of_arrive hpeers harrive, iff_of_false (Option.some_ne_none _) hnil⟩
  · obtain ⟨hshare, hcircle⟩ := Table.share_eq hpeers (pairwise_points ps replicas) p
    refine ⟨List.contains_iff_mem.trans mem_peers, hshare, Table.stats_eq hshare, share?_eq_none_iff, hcircle,
      fun hp => ⟨share?_stranger (mt mem_peers.mp hp), reported_stranger (mt mem_peers.mp hp)⟩,
      fun hp halone => ⟨share?_alone (peers_alone replicas hp halone), reported_alone (peers_alone replicas hp halone)⟩,
      fun hpos hnone => ?_⟩
    by_cases hp : p ∈ ps
    · have hseveral : ∃ q ∈ ps, q ≠ p := by
        by_contra! halone
        have howner := owner?_alone hpos (peers_alone replicas hp halone) 0
        exact Set.eq_empty_iff_forall_notMem.mp hnone 0 howner
      replace hseveral := (several_iff replicas hp).mpr hseveral
      have hne : r.points ≠ [] := by
        rw [Ne, points_eq_nil_iff]
        exact not_or.mpr ⟨List.ne_nil_of_mem hp, hpos.ne'⟩
      have hlast := List.getLast?_eq_some_getLast hne
      exact ⟨_, share?_member (mem_peers.mpr hp) hseveral hlast, arcs_le_of_owned_eq_empty hlast hnone⟩
    · exact ⟨0, share?_stranger (mt mem_peers.mp hp), Nat.zero_le _⟩

/-- **Peers without points.**  A peer alone without points owns no key and no hash, and is reported to have all.
Of two such peers the share fails, by one below zero. -/
theorem share_without_points :
    let own : Peer := ⟨"a:1"⟩
    let alone := build [own] 0
    let pair := build [own, ⟨"b:1"⟩] 0
    (∀ key, alone.lookup key = none) ∧ alone.owned own = ∅ ∧ alone.share? own = some circle ∧
      (alone.share? own).map fraction = some 1.0 ∧ alone.table.share own = .ok circle ∧
      pair.share? own = none ∧ pair.table.share own = .error .underflow ∧
      pair.table.stats own = .error .underflow := by
  intro own alone pair
  have hnil : alone.points = [] := (points_eq_nil_iff [own] 0).mpr (.inr rfl)
  have hother : (⟨"b:1"⟩ : Peer) ≠ own := by decide
  have hnone : pair.share? own = none :=
    share?_eq_none_iff.mpr ⟨List.mem_cons_self, ⟨⟨"b:1"⟩, List.mem_cons_of_mem own List.mem_cons_self, hother⟩, rfl⟩
  have hshare : pair.table.share own = .error .underflow := by
    rw [(Table.share_eq peer_mem_peers (pairwise_points [own, ⟨"b:1"⟩] 0) own).1, hnone]
    rfl
  refine ⟨fun key => ?_, Set.eq_empty_of_forall_notMem fun hash howner => ?_, rfl, reported_alone rfl, rfl, hnone,
    hshare, ?_⟩
  · rw [Ring.lookup, hnil]
    rfl
  · rw [owned, Set.mem_ofPred_eq, owner?, hnil] at howner
    cases howner
  · rw [Table.stats, hshare]
    rfl

end Ring

end PeerCache
