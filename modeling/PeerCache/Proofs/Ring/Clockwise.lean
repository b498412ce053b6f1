import Mathlib
import PeerCache.Membership

/-!
# The first point clockwise

A hash puts all points of all rings into one order: by how far they are clockwise from it, and where
points coincide by address and replica (`Point.Ahead`).  On the hash itself the last of them counts.
The point that a hash falls to is the first in this order (`pointAt?_first`), whatever else stands on
the ring.

So a key puts all peers into an order too, if they all have the same number of points
(`Ring.Before`), and the owner of a key comes before every other member of its ring
(`before_of_lookup`).
-/

namespace PeerCache

namespace Point

/-! ## Points in order -/

/-- Position, address and replica, the order of the points on a ring. -/
def place (p : Point) : Nat ×ₗ String ×ₗ Nat := toLex (p.position.toNat, toLex (p.peer.addr, p.replica))

theorem place_injective : Function.Injective place := by
  rintro ⟨x, ⟨a⟩, m⟩ ⟨y, ⟨b⟩, n⟩ h
  obtain ⟨hx, hrest⟩ := Prod.mk.inj h
  obtain ⟨ha, hm⟩ := Prod.mk.inj hrest
  rw [UInt64.toNat_inj] at hx
  subst hx ha hm
  rfl

theorem le_iff {p q : Point} : p.le q = true ↔ p.place ≤ q.place := by
  unfold le place
  simp only [Prod.Lex.toLex_le_toLex, UInt64.lt_iff_toNat_lt]
  rcases lt_trichotomy p.position.toNat q.position.toNat with hpos | hpos | hpos
  · simp [hpos]
  · rcases lt_trichotomy p.peer.addr q.peer.addr with haddr | haddr | haddr
    · simp [hpos, haddr]
    · simp [hpos, haddr]
    · simp [hpos, haddr, haddr.not_gt, haddr.ne']
  · simp [hpos, hpos.not_gt, hpos.ne']

theorem pairwise_mergeSort (ps : List Point) :
    (ps.mergeSort le).Pairwise fun p q => p.place ≤ q.place := by
  have htrans (p q r : Point) (hpq : p.le q = true) (hqr : q.le r = true) : p.le r = true :=
    le_iff.mpr ((le_iff.mp hpq).trans (le_iff.mp hqr))
  have htotal (p q : Point) : (p.le q || q.le p) = true := by
    rw [Bool.or_eq_true, le_iff, le_iff]
    exact le_total _ _
  exact (List.pairwise_mergeSort htrans htotal ps).imp le_iff.mp

/-! ## Points from a hash on -/

/-- How far a point is clockwise from a hash. -/
def gap (hash : UInt64) (p : Point) : Nat := (p.position - hash).toNat

theorem gap_eq (hash : UInt64) (p : Point) : p.gap hash =
    if hash.toNat ≤ p.position.toNat then p.position.toNat - hash.toNat
    else 2 ^ 64 - hash.toNat + p.position.toNat := by
  have hhash := hash.toNat_lt
  have hpos := p.position.toNat_lt
  unfold gap
  rw [UInt64.toNat_sub]
  split <;> omega

/-- The order of points that are equally far; on the hash itself the last one counts. -/
def Wins (hash : UInt64) (p q : Point) : Prop :=
  if p.gap hash = 0 then q.place ≤ p.place else p.place ≤ q.place

/-- The hash falls to the first point rather than to the second. -/
def Ahead (hash : UInt64) (p q : Point) : Prop :=
  p.gap hash < q.gap hash ∨ p.gap hash = q.gap hash ∧ p.Wins hash q

variable {hash : UInt64} {p q r : Point}

theorem Ahead.trans (h : p.Ahead hash q) (h' : q.Ahead hash r) : p.Ahead hash r := by
  rcases h with hpq | ⟨hpq, hw⟩
  · rcases h' with hqr | ⟨hqr, -⟩
    · exact .inl (hpq.trans hqr)
    · exact .inl (hqr ▸ hpq)
  · rcases h' with hqr | ⟨hqr, hw'⟩
    · exact .inl (hpq ▸ hqr)
    · refine .inr ⟨hpq.trans hqr, ?_⟩
      unfold Wins at hw hw' ⊢
      rw [hpq] at hw ⊢
      split
      · next hz =>
        rw [if_pos hz] at hw hw'
        exact hw'.trans hw
      · next hnz =>
        rw [if_neg hnz] at hw hw'
        exact hw.trans hw'

theorem Ahead.antisymm (h : p.Ahead hash q) (h' : q.Ahead hash p) : p = q := by
  rcases h with hpq | ⟨hpq, hw⟩
  · rcases h' with hqp | ⟨hqp, -⟩ <;> omega
  · rcases h' with hqp | ⟨-, hw'⟩
    · omega
    · unfold Wins at hw hw'
      rw [hpq] at hw
      apply place_injective
      split at hw
      · next hz =>
        rw [if_pos hz] at hw'
        exact le_antisymm hw' hw
      · next hnz =>
        rw [if_neg hnz] at hw'
        exact le_antisymm hw hw'

theorem position_le (h : p.place ≤ q.place) : p.position.toNat ≤ q.position.toNat := by
  rcases Prod.Lex.toLex_le_toLex.mp h with hlt | ⟨heq, -⟩
  · exact hlt.le
  · exact heq.le

end Point

namespace Ring

open Point

/-! ## The point of a hash -/

/-- On the same side of a hash, points in order are ahead in order. -/
theorem ahead_of_place {hash : UInt64} {p q : Point} (h : p.place ≤ q.place)
    (hside : hash.toNat < p.position.toNat ∨ q.position.toNat < hash.toNat) : p.Ahead hash q := by
  have hpos := position_le h
  unfold Ahead
  rcases Nat.lt_or_eq_of_le hpos with hlt | heq
  · left
    rw [gap_eq, gap_eq]
    rcases hside with hs | hs
    · rw [if_pos hs.le, if_pos (hs.le.trans hpos)]
      omega
    · rw [if_neg (by omega), if_neg (by omega)]
      omega
  · right
    have hgap : p.gap hash = q.gap hash := by rw [gap_eq, gap_eq, heq]
    refine ⟨hgap, ?_⟩
    have hnz : p.gap hash ≠ 0 := by
      have hhash := hash.toNat_lt
      rw [gap_eq]
      split <;> omega
    unfold Wins
    rw [if_neg hnz]
    exact h

/-- A point beyond the hash is ahead of one that the circle comes to later. -/
theorem ahead_of_sides {hash : UInt64} {p q : Point} (hp : hash.toNat < p.position.toNat)
    (hq : q.position.toNat < hash.toNat) : p.Ahead hash q := by
  left
  have hpos := p.position.toNat_lt
  rw [gap_eq, gap_eq, if_pos hp.le, if_neg (by omega)]
  omega

/-- A point on the hash is ahead of all but those that come after it there. -/
theorem ahead_of_hit {hash : UInt64} {p q : Point} (hp : p.position.toNat = hash.toNat)
    (hq : q.position.toNat = hash.toNat → q.place ≤ p.place) : p.Ahead hash q := by
  have hzero : p.gap hash = 0 := by
    rw [gap_eq, if_pos hp.ge]
    omega
  by_cases hhit : q.position.toNat = hash.toNat
  · right
    have hgap : q.gap hash = 0 := by
      rw [gap_eq, if_pos hhit.ge]
      omega
    refine ⟨hzero.trans hgap.symm, ?_⟩
    unfold Wins
    rw [if_pos hzero]
    exact hq hhit
  · left
    have hhash := hash.toNat_lt
    rw [hzero, gap_eq]
    split <;> omega

/-- The points up to a hash, and those beyond it. -/
theorem span_sides {ps : List Point} (hash : UInt64) (hs : ps.Pairwise fun p q => p.place ≤ q.place) :
    ∃ below above, ps = below ++ above ∧ (ps.span fun p => p.position ≤ hash) = (below, above) ∧
      (∀ q ∈ below, q.position.toNat ≤ hash.toNat) ∧ ∀ q ∈ above, hash.toNat < q.position.toNat := by
  refine ⟨_, _, List.takeWhile_append_dropWhile.symm, List.span_eq_takeWhile_dropWhile _ ps, ?_, ?_⟩
  · intro q hq
    have hle := List.mem_takeWhile_imp hq
    exact UInt64.le_iff_toNat_le.mp (of_decide_eq_true hle)
  · induction ps with
    | nil => rintro q ⟨⟩
    | cons p ps ih =>
      rw [List.pairwise_cons] at hs
      intro q hq
      by_cases hp : p.position ≤ hash
      · rw [List.dropWhile_cons, if_pos (decide_eq_true hp)] at hq
        exact ih hs.2 q hq
      · rw [List.dropWhile_cons, if_neg (by simpa using hp)] at hq
        have hbeyond : hash.toNat < p.position.toNat := by
          rw [UInt64.le_iff_toNat_le] at hp
          omega
        rcases List.mem_cons.mp hq with rfl | hq
        · exact hbeyond
        · exact hbeyond.trans_le (position_le (hs.1 q hq))

/-- With no point on the hash, the first beyond it is ahead, or else the lowest of all. -/
theorem first_of_no_hit {below above : List Point} {hash : UInt64} {p : Point}
    (hs : (below ++ above).Pairwise fun p q => p.place ≤ q.place)
    (hbelow : ∀ q ∈ below, q.position.toNat < hash.toNat)
    (habove : ∀ q ∈ above, hash.toNat < q.position.toNat)
    (hp : (above.head? <|> (below ++ above).head?) = some p) :
    p ∈ below ++ above ∧ ∀ q ∈ below ++ above, p.Ahead hash q := by
  cases above with
  | cons b rest =>
    cases hp
    have hb := habove p List.mem_cons_self
    refine ⟨List.mem_append_right _ List.mem_cons_self, fun q hq => ?_⟩
    rcases List.mem_append.mp hq with hq | hq
    · exact ahead_of_sides hb (hbelow q hq)
    · rcases List.mem_cons.mp hq with rfl | hq
      · exact ahead_of_place le_rfl (.inl hb)
      · exact ahead_of_place ((List.pairwise_cons.mp (List.pairwise_append.mp hs).2.1).1 q hq) (.inl hb)
  | nil =>
    rw [List.append_nil] at hs hp ⊢
    cases below with
    | nil => cases hp
    | cons a rest =>
      cases hp
      refine ⟨List.mem_cons_self, fun q hq => ?_⟩
      have hq' := hbelow q hq
      rcases List.mem_cons.mp hq with rfl | hq
      · exact ahead_of_place le_rfl (.inr hq')
      · exact ahead_of_place ((List.pairwise_cons.mp hs).1 q hq) (.inr hq')

/-- **The first point clockwise.**  The point that a hash falls to is ahead of all others. -/
theorem pointAt?_first {ps : List Point} {hash : UInt64} {p : Point}
    (hs : ps.Pairwise fun p q => p.place ≤ q.place) (hp : pointAt? ps hash = some p) :
    p ∈ ps ∧ ∀ q ∈ ps, p.Ahead hash q := by
  obtain ⟨below, above, rfl, hspan, hbelow, habove⟩ := span_sides hash hs
  unfold pointAt? at hp
  rw [hspan] at hp
  simp only at hp
  split at hp
  · next last hlast =>
    obtain ⟨init, rfl⟩ := List.getLast?_eq_some_iff.mp hlast
    have hmem : last ∈ init ++ [last] := List.mem_append_right _ List.mem_cons_self
    have hfirst : ∀ q ∈ init ++ [last], q.place ≤ last.place := by
      intro q hq
      rcases List.mem_append.mp hq with hq | hq
      · exact (List.pairwise_append.mp (List.pairwise_append.mp hs).1).2.2 q hq last List.mem_cons_self
      · rw [List.mem_singleton.mp hq]
    split at hp
    · next hhit =>
      cases hp
      refine ⟨List.mem_append_left _ hmem, fun q hq => ?_⟩
      refine ahead_of_hit (congrArg UInt64.toNat hhit) fun hhit' => ?_
      rcases List.mem_append.mp hq with hq | hq
      · exact hfirst q hq
      · have hbeyond := habove q hq
        omega
    · next hmiss =>
      refine first_of_no_hit hs (fun q hq => ?_) habove hp
      have hle := hbelow last hmem
      have hpos := position_le (hfirst q hq)
      have hne : last.position.toNat ≠ hash.toNat := fun h => hmiss (UInt64.toNat_inj.mp h)
      omega
  · next hnone =>
    rw [List.getLast?_eq_none_iff] at hnone
    subst hnone
    refine first_of_no_hit hs (fun q hq => absurd hq List.not_mem_nil) habove ?_
    rw [List.nil_append] at hp ⊢
    rw [hp]
    rfl

/-! ## Rings -/

theorem mem_insertMember {p q : Peer} {ps : List Peer} : q ∈ insertMember p ps ↔ q = p ∨ q ∈ ps := by
  induction ps with
  | nil => exact List.mem_singleton.trans (or_iff_left List.not_mem_nil).symm
  | cons r rest ih =>
    unfold insertMember
    split
    · exact List.mem_cons
    · split
      · next heq =>
        have hpr : p = r := congrArg Peer.mk heq
        subst hpr
        exact ⟨.inr, fun h => h.elim (fun hq => hq ▸ List.mem_cons_self) id⟩
      · rw [List.mem_cons, List.mem_cons, ih, or_left_comm]

theorem mem_members {p : Peer} (ps : List Peer) : p ∈ members ps ↔ p ∈ ps := by
  have hfold (acc : List Peer) : p ∈ ps.foldl (fun acc p => insertMember p acc) acc ↔ p ∈ ps ∨ p ∈ acc := by
    induction ps generalizing acc with
    | nil => exact (or_iff_right List.not_mem_nil).symm
    | cons q ps ih => rw [List.foldl_cons, ih, mem_insertMember, List.mem_cons, or_left_comm, or_assoc]
  exact (hfold []).trans (or_iff_left List.not_mem_nil)

/-- The points of a ring are those of its members. -/
theorem mem_points {ps : List Peer} {replicas : Nat} {a : Point} :
    a ∈ (build ps replicas).points ↔ ∃ p ∈ ps, a ∈ placed replicas p := by
  show a ∈ ((members ps).flatMap (placed replicas)).mergeSort Point.le ↔ _
  rw [List.mem_mergeSort, List.mem_flatMap]
  simp only [mem_members]

theorem peer_of_mem_placed {replicas : Nat} {p : Peer} {a : Point} (h : a ∈ placed replicas p) :
    a.peer = p := by
  obtain ⟨m, -, rfl⟩ := List.mem_map.mp h
  rfl

/-! ## Owners -/

/-- For a key, one peer comes before another one: on any ring with both of them, it is the one that
may be the owner. -/
def Before (key : String) (replicas : Nat) (p q : Peer) : Prop :=
  p ≠ q ∧ ∃ a ∈ placed replicas p, ∀ b ∈ placed replicas q, a.Ahead (hashKey key) b

variable {key : String} {replicas : Nat} {p q r : Peer}

theorem Before.irrefl : ¬ Before key replicas p p := fun h => h.1 rfl

theorem Before.trans (h : Before key replicas p q) (h' : Before key replicas q r) :
    Before key replicas p r := by
  obtain ⟨hpq, a, ha, hab⟩ := h
  obtain ⟨-, b, hb, hbc⟩ := h'
  refine ⟨?_, a, ha, fun c hc => (hab b hb).trans (hbc c hc)⟩
  rintro rfl
  have hsame := (hab b hb).antisymm (hbc a ha)
  exact hpq ((peer_of_mem_placed ha).symm.trans ((congrArg Point.peer hsame).trans (peer_of_mem_placed hb)))

/-- **The owner of a key comes before every other member of its ring.** -/
theorem before_of_lookup {ps : List Peer} (h : (build ps replicas).lookup key = some p) (hq : q ∈ ps) :
    p = q ∨ Before key replicas p q := by
  unfold lookup at h
  obtain ⟨a, ha, rfl⟩ := Option.map_eq_some_iff.mp h
  obtain ⟨hmem, hfirst⟩ := pointAt?_first (Point.pairwise_mergeSort _) ha
  obtain ⟨p, -, hp⟩ := mem_points.mp hmem
  obtain rfl := peer_of_mem_placed hp
  by_cases heq : a.peer = q
  · exact .inl heq
  · exact .inr ⟨heq, a, hp, fun b hb => hfirst b (mem_points.mpr ⟨q, hq, hb⟩)⟩

end Ring

end PeerCache
