import Mathlib
import PeerCache.Proofs.Ring.Ownership

/-!
# The owner of a hash

A key belongs to the first point clockwise from its hash (`Ring.FirstFrom`): the least point from the
hash on in the order of position, address and replica, or the least of all if there is none.

The points are searched for the hash, and a search may find any of the points that stand on it
(`Ring.Search`).  As long as they are all of one peer (`Ring.Unmixed`), this is as good as the first one
(`Search.peer_eq`), and otherwise it is not: the owner is then the peer of the last one.

Main statement: `lookup_clockwise`, and `lookup_not_first` for two peers whose points coincide.
-/

namespace PeerCache

namespace Ring

open Point

/-! ## The first point clockwise -/

/-- The owner of a hash. -/
def owner? (r : Ring) (hash : UInt64) : Option Peer := (pointAt? r.points hash).map (·.peer)

/-- The least point from a hash on, or the least of all if there is none. -/
structure FirstFrom (points : List Point) (hash : UInt64) (a : Point) : Prop where
  mem : a ∈ points
  first : (hash ≤ a.position ∧ ∀ b ∈ points, hash ≤ b.position → a.place ≤ b.place) ∨
    ((∀ b ∈ points, b.position < hash) ∧ ∀ b ∈ points, a.place ≤ b.place)

/-- All points that stand on a hash are of one peer. -/
def Unmixed (points : List Point) (hash : UInt64) : Prop :=
  ∀ a ∈ points, ∀ b ∈ points, a.position = hash → b.position = hash → a.peer = b.peer

/-- Goes through points in order up to the first one clockwise. -/
def clockwise? (points : List Point) (hash : UInt64) : Option Point :=
  (points.find? fun p => hash ≤ p.position).or points.head?

variable {points : List Point} {hash : UInt64} {a b : Point}

theorem FirstFrom.unique (ha : FirstFrom points hash a) (hb : FirstFrom points hash b) : a = b := by
  apply place_injective
  rcases ha.first with ⟨hposa, hlea⟩ | ⟨hnonea, hlea⟩
  · rcases hb.first with ⟨hposb, hleb⟩ | ⟨hnoneb, -⟩
    · exact le_antisymm (hlea b hb.mem hposb) (hleb a ha.mem hposa)
    · exact absurd (hnoneb a ha.mem) (UInt64.not_lt.mpr hposa)
  · rcases hb.first with ⟨hposb, -⟩ | ⟨-, hleb⟩
    · exact absurd (hnonea b hb.mem) (UInt64.not_lt.mpr hposb)
    · exact le_antisymm (hlea b hb.mem) (hleb a ha.mem)

/-- In order, the first point that is met is the least one. -/
theorem firstFrom_clockwise (hs : points.Pairwise fun p q => p.place ≤ q.place)
    (h : clockwise? points hash = some a) : FirstFrom points hash a := by
  unfold clockwise? at h
  cases hfind : points.find? fun p => hash ≤ p.position with
  | some p =>
    rw [hfind] at h
    cases h
    obtain ⟨hpos, before, after, rfl, hbefore⟩ := List.find?_eq_some_iff_append.mp hfind
    refine ⟨List.mem_append_right _ List.mem_cons_self, .inl ⟨of_decide_eq_true hpos, fun b hb hle => ?_⟩⟩
    rcases List.mem_append.mp hb with hb | hb
    · have hnot := hbefore b hb
      simp [hle] at hnot
    · rcases List.mem_cons.mp hb with rfl | hb
      · exact le_rfl
      · exact (List.pairwise_cons.mp (List.pairwise_append.mp hs).2.1).1 b hb
  | none =>
    rw [hfind] at h
    cases points with
    | nil => cases h
    | cons p rest =>
      cases h
      refine ⟨List.mem_cons_self, .inr ⟨fun b hb => ?_, fun b hb => ?_⟩⟩
      · have hnot := List.find?_eq_none.mp hfind b hb
        simpa using hnot
      · rcases List.mem_cons.mp hb with rfl | hb
        · exact le_rfl
        · exact (List.pairwise_cons.mp hs).1 b hb

theorem exists_firstFrom (hs : points.Pairwise fun p q => p.place ≤ q.place) (hne : points ≠ [])
    (hash : UInt64) : ∃ a, FirstFrom points hash a := by
  have hsome : (clockwise? points hash).isSome := by
    unfold clockwise?
    rw [Option.isSome_or, Bool.or_eq_true]
    exact .inr (List.isSome_head?.mpr hne)
  obtain ⟨a, ha⟩ := Option.isSome_iff_exists.mp hsome
  exact ⟨a, firstFrom_clockwise hs ha⟩

/-- If a point stands on the hash, the first one does. -/
theorem FirstFrom.position_eq (ha : FirstFrom points hash a) (hb : b ∈ points) (hon : b.position = hash) :
    a.position = hash := by
  rcases ha.first with ⟨hpos, hle⟩ | ⟨hnone, -⟩
  · have hplace := position_le (hle b hb (UInt64.le_of_eq hon.symm))
    rw [hon] at hplace
    exact UInt64.le_antisymm (UInt64.le_iff_toNat_le.mpr hplace) hpos
  · exact absurd (hnone b hb) (UInt64.not_lt.mpr (UInt64.le_of_eq hon.symm))

/-! ## Searching -/

/-- What a search says: a place that it has found, or the place in front of which it would put something. -/
inductive Sought where
  | on (i : Nat)
  | before (i : Nat)

/-- What a search for a hash in ordered points may say: any point on the hash, or, if there is none, the
place behind all points below it. -/
inductive Search (points : List Point) (hash : UInt64) : Sought → Prop
  | hit {i : Nat} {a : Point} (found : points[i]? = some a) (on : a.position = hash) :
      Search points hash (.on i)
  | miss {below above : List Point} (split : points = below ++ above)
      (lt : ∀ a ∈ below, a.position < hash) (gt : ∀ a ∈ above, hash < a.position) :
      Search points hash (.before below.length)

/-- The point that a search leads to; past the end it is the lowest one. -/
def arrive? (points : List Point) : Sought → Option Point
  | .on i => points[i]?
  | .before i => points[if points.length ≤ i then 0 else i]?

variable {sought : Sought}

/-- With no point on the hash there is only one way. -/
theorem arrive?_before {below above : List Point} (hlt : ∀ a ∈ below, a.position < hash)
    (hgt : ∀ a ∈ above, hash < a.position) :
    arrive? (below ++ above) (.before below.length) = clockwise? (below ++ above) hash := by
  have hnone : below.find? (fun p => decide (hash ≤ p.position)) = none := by
    rw [List.find?_eq_none]
    intro p hp
    simpa using hlt p hp
  unfold arrive? clockwise?
  rw [List.find?_append, hnone, Option.none_or]
  cases above with
  | nil => simp [List.head?_eq_getElem?]
  | cons b rest =>
    have hb : decide (hash ≤ b.position) = true := decide_eq_true (UInt64.le_of_lt (hgt b List.mem_cons_self))
    simp [hb]

/-- **A search leads to a point on the hash, or to the first one clockwise.** -/
theorem Search.arrives (hs : points.Pairwise fun p q => p.place ≤ q.place)
    (ha : FirstFrom points hash a) (h : Search points hash sought) :
    ∃ b ∈ points, arrive? points sought = some b ∧ (b = a ∨ b.position = hash ∧ a.position = hash) := by
  cases h with
  | @hit i b found on =>
    have hb : b ∈ points := List.mem_of_getElem? found
    exact ⟨b, hb, found, .inr ⟨on, ha.position_eq hb on⟩⟩
  | @miss below above split lt gt =>
    subst split
    have harrive := arrive?_before lt gt
    cases hclock : clockwise? (below ++ above) hash with
    | some b =>
      have hb := firstFrom_clockwise hs hclock
      exact ⟨b, hb.mem, harrive.trans hclock, .inl (hb.unique ha)⟩
    | none =>
      unfold clockwise? at hclock
      have hnil := List.head?_eq_none_iff.mp (Option.or_eq_none_iff.mp hclock).2
      rw [hnil] at ha
      exact absurd ha.mem List.not_mem_nil

/-- If the points on the hash are of one peer, every search leads to the peer of the first one. -/
theorem Search.peer_eq (hs : points.Pairwise fun p q => p.place ≤ q.place) (ha : FirstFrom points hash a)
    (hone : Unmixed points hash) (h : Search points hash sought) :
    (arrive? points sought).map (·.peer) = some a.peer := by
  obtain ⟨b, hb, harrive, heq | ⟨hon, hfirst⟩⟩ := h.arrives hs ha
  · rw [harrive, heq, Option.map_some]
  · rw [harrive, Option.map_some, hone b hb a ha.mem hon hfirst]

/-- The point of a hash is one that a search may lead to. -/
theorem exists_search (hs : points.Pairwise fun p q => p.place ≤ q.place) (hash : UInt64) :
    ∃ sought, Search points hash sought ∧ arrive? points sought = pointAt? points hash := by
  obtain ⟨below, above, rfl, hspan, hbelow, habove⟩ := span_sides hash hs
  have hgt : ∀ q ∈ above, hash < q.position := fun q hq => UInt64.lt_iff_toNat_lt.mpr (habove q hq)
  unfold pointAt?
  rw [hspan]
  dsimp only
  cases hlast : below.getLast? with
  | none =>
    rw [List.getLast?_eq_none_iff] at hlast
    subst hlast
    have hsearch : Search ([] ++ above) hash (.before ([] : List Point).length) := .miss rfl nofun hgt
    refine ⟨.before 0, hsearch, ?_⟩
    simp [arrive?, List.head?_eq_getElem?]
  | some p =>
    obtain ⟨init, rfl⟩ := List.getLast?_eq_some_iff.mp hlast
    dsimp only
    by_cases hon : p.position = hash
    · have hfound : (init ++ [p] ++ above)[init.length]? = some p := by simp
      exact ⟨.on init.length, .hit hfound hon, by rw [if_pos hon]; exact hfound⟩
    · -- the last point up to the hash is below it, and so are the ones before
      have hlt : ∀ q ∈ init ++ [p], q.position < hash := by
        intro q hq
        have hle : p.position.toNat ≤ hash.toNat := hbelow p (by simp)
        have hne : p.position.toNat ≠ hash.toNat := fun h => hon (UInt64.toNat_inj.mp h)
        have hqp : q.position.toNat ≤ p.position.toNat := by
          rcases List.mem_append.mp hq with hq | hq
          · exact position_le
              ((List.pairwise_append.mp (List.pairwise_append.mp hs).1).2.2 q hq p List.mem_cons_self)
          · rw [List.mem_singleton.mp hq]
        exact UInt64.lt_iff_toNat_lt.mpr (by omega)
      refine ⟨.before (init ++ [p]).length, .miss rfl hlt hgt, ?_⟩
      rw [if_neg hon, arrive?]
      cases above with
      | nil => simp only [List.append_nil, Nat.le_refl, if_true, List.head?_eq_getElem?, List.getElem?_nil]; rfl
      | cons b rest => simp

/-- Of several points on the hash it is the last one. -/
theorem pointAt?_last (hs : points.Pairwise fun p q => p.place ≤ q.place) (hb : b ∈ points)
    (hon : b.position = hash) :
    ∃ p ∈ points, pointAt? points hash = some p ∧ p.position = hash ∧
      ∀ q ∈ points, q.position = hash → q.place ≤ p.place := by
  obtain ⟨p, hp⟩ := exists_pointAt? (List.ne_nil_of_mem hb) hash
  obtain ⟨hmem, hahead⟩ := pointAt?_first hs hp
  have hgap (q : Point) : q.gap hash = 0 ↔ q.position = hash := by
    rw [← UInt64.toNat_inj, gap_eq]
    have hhash := hash.toNat_lt
    split <;> omega
  have hzero : p.gap hash = 0 := by
    rcases hahead b hb with hlt | ⟨heq, -⟩
    · rw [(hgap b).mpr hon] at hlt
      omega
    · rw [heq, (hgap b).mpr hon]
  refine ⟨p, hmem, hp, (hgap p).mp hzero, fun q hq hq' => ?_⟩
  rcases hahead q hq with hlt | ⟨-, hwins⟩
  · rw [(hgap q).mpr hq'] at hlt
    omega
  · unfold Wins at hwins
    rwa [if_pos hzero] at hwins

/-! ## Owners -/

/-- From the hash to one further on, with no point between them, the first point is the same. -/
theorem FirstFrom.of_gap {hash' : UInt64} (ha : FirstFrom points hash' a) (hle : hash ≤ hash')
    (hgap : ∀ b ∈ points, ¬ (hash ≤ b.position ∧ b.position < hash')) : FirstFrom points hash a := by
  refine ⟨ha.mem, ?_⟩
  rcases ha.first with ⟨hpos, hfirst⟩ | ⟨hnone, hfirst⟩
  · refine .inl ⟨UInt64.le_trans hle hpos, fun b hb hb' => hfirst b hb ?_⟩
    exact UInt64.not_lt.mp fun hlt => hgap b hb ⟨hb', hlt⟩
  · refine .inr ⟨fun b hb => UInt64.not_le.mp fun hle' => ?_, hfirst⟩
    exact hgap b hb ⟨hle', hnone b hb⟩

/-- A point of a ring is a replica of one of its peers. -/
theorem mem_points_iff {ps : List Peer} {replicas : Nat} :
    a ∈ (build ps replicas).points ↔ ∃ p ∈ ps, ∃ m < replicas, a = ⟨hashReplica p m, p, m⟩ := by
  rw [mem_points]
  simp only [placed, List.mem_map, List.mem_range, eq_comm]

/-- No point stands on a ring twice. -/
theorem nodup_points (ps : List Peer) (replicas : Nat) : (build ps replicas).points.Nodup := by
  have hperm : (build ps replicas).points.Perm ((members ps).flatMap (placed replicas)) :=
    List.mergeSort_perm _ _
  rw [hperm.nodup_iff, List.nodup_flatMap]
  constructor
  · intro p _
    refine List.Nodup.map (fun m n h => ?_) List.nodup_range
    exact congrArg Point.replica h
  · refine (pairwise_members ps).imp ?_
    rintro p q hlt a hp hq
    rw [← peer_of_mem_placed hp, ← peer_of_mem_placed hq] at hlt
    exact absurd hlt (lt_irrefl _)

theorem points_lt (ps : List Peer) (replicas : Nat) :
    (build ps replicas).points.Pairwise fun p q => p.place < q.place := by
  refine ((pairwise_mergeSort _).and (nodup_points ps replicas)).imp ?_
  rintro p q ⟨hle, hne⟩
  exact lt_of_le_of_ne hle fun heq => hne (place_injective heq)

theorem points_eq_nil_iff (ps : List Peer) (replicas : Nat) :
    (build ps replicas).points = [] ↔ ps = [] ∨ replicas = 0 := by
  rw [List.eq_nil_iff_forall_not_mem]
  constructor
  · intro h
    by_contra! hne
    obtain ⟨p, hp⟩ := List.exists_mem_of_ne_nil ps hne.1
    exact h _ (mem_points_iff.mpr ⟨p, hp, 0, Nat.pos_of_ne_zero hne.2, rfl⟩)
  · rintro (rfl | rfl) a ha
    · obtain ⟨p, hp, -⟩ := mem_points_iff.mp ha
      exact List.not_mem_nil hp
    · obtain ⟨p, -, m, hm, -⟩ := mem_points_iff.mp ha
      exact Nat.not_lt_zero m hm

theorem owner?_eq_first {ps : List Peer} {replicas : Nat} (ha : FirstFrom (build ps replicas).points hash a)
    (hone : Unmixed (build ps replicas).points hash) : (build ps replicas).owner? hash = some a.peer := by
  have hs : (build ps replicas).points.Pairwise fun p q => p.place ≤ q.place := pairwise_mergeSort _
  obtain ⟨sought, hsearch, harrive⟩ := exists_search hs hash
  rw [owner?, ← harrive]
  exact hsearch.peer_eq hs ha hone

/-- **A key belongs to the first point clockwise**, unless points of several peers stand on its very
hash.  The points of a ring are the replicas of its peers, in the order of position, address and replica.
If the points on a hash are of one peer, the owner is the peer of the first point clockwise, whatever a
search finds; else a search leads to any of the points on the hash, and the owner is the peer of the last
one.  So all hashes from behind one position up to the next have one owner, but for a position on which
several peers stand. -/
theorem lookup_clockwise (ps : List Peer) (replicas : Nat) :
    let r := build ps replicas
    r.points.Pairwise (fun a b => a.place < b.place) ∧
    (∀ a, a ∈ r.points ↔ ∃ p ∈ ps, ∃ m < replicas, a = ⟨hashReplica p m, p, m⟩) ∧
    (∀ key, r.lookup key = r.owner? (hashKey key)) ∧
    (∀ hash, r.owner? hash = none ↔ ps = [] ∨ replicas = 0) ∧
    (ps ≠ [] → 0 < replicas → ∀ hash, ∃ first, FirstFrom r.points hash first ∧
      (Unmixed r.points hash → r.owner? hash = some first.peer) ∧
      (¬ Unmixed r.points hash → ∃ last ∈ r.points, r.owner? hash = some last.peer ∧
        last.position = hash ∧ ∀ b ∈ r.points, b.position = hash → b.place ≤ last.place) ∧
      (∃ sought, Search r.points hash sought ∧ arrive? r.points sought = pointAt? r.points hash) ∧
      ∀ sought, Search r.points hash sought → ∃ b ∈ r.points, arrive? r.points sought = some b ∧
        (b = first ∨ b.position = hash ∧ first.position = hash) ∧
        (Unmixed r.points hash → b.peer = first.peer)) ∧
    ∀ hash hash', hash ≤ hash' → (∀ b ∈ r.points, ¬ (hash ≤ b.position ∧ b.position < hash')) →
      Unmixed r.points hash' → r.owner? hash = r.owner? hash' := by
  intro r
  have hs : r.points.Pairwise fun p q => p.place ≤ q.place := pairwise_mergeSort _
  have hnil : r.points = [] ↔ ps = [] ∨ replicas = 0 := points_eq_nil_iff ps replicas
  have hnone (hash : UInt64) (h : r.points = []) : r.owner? hash = none := by
    rw [owner?, h]
    rfl
  refine ⟨points_lt ps replicas, fun a => mem_points_iff, fun key => rfl, fun hash => ⟨fun h => ?_, fun h => ?_⟩,
    fun hps hreplicas hash => ?_, fun hash hash' hle hgap hone => ?_⟩
  · rw [← hnil]
    by_contra hne
    obtain ⟨a, ha⟩ := exists_pointAt? hne hash
    rw [owner?, ha] at h
    cases h
  · exact hnone hash (hnil.mpr h)
  · have hne : r.points ≠ [] := fun h => (hnil.mp h).elim hps (Nat.ne_of_gt hreplicas)
    obtain ⟨first, hfirst⟩ := exists_firstFrom hs hne hash
    refine ⟨first, hfirst, owner?_eq_first hfirst, fun hmixed => ?_, exists_search hs hash,
      fun sought hsearch => ?_⟩
    · unfold Unmixed at hmixed
      push Not at hmixed
      obtain ⟨b, hb, -, -, hon, -⟩ := hmixed
      obtain ⟨last, hmem, hlast, hpos, hle⟩ := pointAt?_last hs hb hon
      exact ⟨last, hmem, by rw [owner?, hlast, Option.map_some], hpos, hle⟩
    · obtain ⟨b, hb, harrive, hcases⟩ := hsearch.arrives hs hfirst
      refine ⟨b, hb, harrive, hcases, fun hone => ?_⟩
      have hpeer := hsearch.peer_eq hs hfirst hone
      rw [harrive] at hpeer
      exact Option.some.inj hpeer
  · by_cases hne : r.points = []
    · rw [hnone hash hne, hnone hash' hne]
    · obtain ⟨first, hfirst⟩ := exists_firstFrom hs hne hash'
      have hone' : Unmixed r.points hash := by
        rcases UInt64.lt_or_eq_of_le hle with hlt | rfl
        · intro a ha b _ hon _
          exact absurd ⟨UInt64.le_of_eq hon.symm, hon ▸ hlt⟩ (hgap a ha)
        · exact hone
      rw [owner?_eq_first hfirst hone, owner?_eq_first (hfirst.of_gap hle hgap) hone']

/-- **Two peers on one hash.**  All points of the two peers coincide, and the key falls on one of them.
The first point there is that of the one peer, and the owner is the other. -/
theorem lookup_not_first :
    let r := build [⟨"cache-1a.cluster:7000"⟩, ⟨"caabjxouurzr2pxz:7000"⟩] 40
    let first : Point := ⟨16898215537450985155, ⟨"caabjxouurzr2pxz:7000"⟩, 1⟩
    FirstFrom r.points (hashKey "keyb1ywxw61458tx") first ∧
      r.lookup "keyb1ywxw61458tx" = some ⟨"cache-1a.cluster:7000"⟩ ∧
      r.lookup "keyb1ywxw61458tx" ≠ some first.peer := by
  intro r first
  have hhash : hashKey "keyb1ywxw61458tx" = 16898215537450985155 := by cbv
  -- the ring is built once, for both
  have hboth : (clockwise? r.points 16898215537450985155, pointAt? r.points 16898215537450985155) =
      (some first, some ⟨16898215537450985155, ⟨"cache-1a.cluster:7000"⟩, 1⟩) := by cbv
  obtain ⟨hfirst, hlast⟩ := Prod.mk.inj hboth
  have howner : r.lookup "keyb1ywxw61458tx" = some ⟨"cache-1a.cluster:7000"⟩ := by
    rw [lookup, hhash, hlast]
    rfl
  refine ⟨hhash ▸ firstFrom_clockwise (pairwise_mergeSort _) hfirst, howner, ?_⟩
  rw [howner]
  decide

end Ring

end PeerCache
