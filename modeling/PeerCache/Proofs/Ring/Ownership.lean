import Mathlib
import PeerCache.Proofs.Ring.Clockwise

/-!
# Who owns what

A ring depends on who is on it and on nothing else: not on the order of the given list, nor on how
often it names a peer (`build_congr`).  A ring with points gives every key to one of its members
(`exists_lookup`, `mem_of_lookup`).

Main statement: when members come or go, keys move as little as they can (`moves_little`).  A new
peer only takes keys for itself, and where two rings share the owners that they give to a key, these
are one.  Points may coincide; the order of the points decides there as anywhere else.
-/

namespace PeerCache

namespace Ring

open Point

variable {replicas : Nat} {key : String} {ps qs : List Peer} {p q : Peer}

/-! ## The members of a ring -/

theorem pairwise_insertMember (p : Peer) (h : ps.Pairwise fun a b => a.addr < b.addr) :
    (insertMember p ps).Pairwise fun a b => a.addr < b.addr := by
  induction ps with
  | nil => exact List.pairwise_singleton _ p
  | cons q rest ih =>
    obtain ⟨hq, hrest⟩ := List.pairwise_cons.mp h
    unfold insertMember
    split
    · next hlt =>
      refine List.pairwise_cons.mpr ⟨fun a ha => ?_, h⟩
      rcases List.mem_cons.mp ha with rfl | ha
      · exact hlt
      · exact hlt.trans (hq a ha)
    · next hnlt =>
      split
      · exact h
      · next hne =>
        refine List.pairwise_cons.mpr ⟨fun a ha => ?_, ih hrest⟩
        rcases mem_insertMember.mp ha with rfl | ha
        · exact lt_of_le_of_ne (not_lt.mp hnlt) (Ne.symm hne)
        · exact hq a ha

theorem pairwise_members (ps : List Peer) : (members ps).Pairwise fun a b => a.addr < b.addr := by
  have hfold (acc : List Peer) (h : acc.Pairwise fun a b => a.addr < b.addr) :
      (ps.foldl (fun acc p => insertMember p acc) acc).Pairwise fun a b => a.addr < b.addr := by
    induction ps generalizing acc with
    | nil => exact h
    | cons p ps ih => exact ih _ (pairwise_insertMember p h)
  exact hfold [] List.Pairwise.nil

/-- Two lists of the same peers have the same members, in the same order. -/
theorem members_congr (h : ∀ p, p ∈ ps ↔ p ∈ qs) : members ps = members qs := by
  have hnodup (xs : List Peer) : (members xs).Nodup :=
    (pairwise_members xs).imp fun hlt heq => absurd (heq ▸ hlt) (lt_irrefl _)
  have hperm : (members ps).Perm (members qs) := by
    rw [List.perm_ext_iff_of_nodup (hnodup ps) (hnodup qs)]
    intro p
    rw [mem_members, mem_members, h]
  exact hperm.eq_of_pairwise (fun a b _ _ hab hba => absurd (hab.trans hba) (lt_irrefl _))
    (pairwise_members ps) (pairwise_members qs)

/-- **A ring is that of its members.** -/
theorem build_congr (h : ∀ p, p ∈ ps ↔ p ∈ qs) (replicas : Nat) : build ps replicas = build qs replicas := by
  unfold build
  rw [members_congr h]

/-! ## The owner of a key -/

theorem exists_pointAt? {points : List Point} (h : points ≠ []) (hash : UInt64) :
    ∃ a, pointAt? points hash = some a := by
  obtain ⟨first, rest, rfl⟩ := List.exists_cons_of_ne_nil h
  unfold pointAt?
  generalize (first :: rest).span _ = sides
  obtain ⟨upTo, above⟩ := sides
  simp only
  split
  · split
    · exact ⟨_, rfl⟩
    · cases above with
      | nil => exact ⟨first, rfl⟩
      | cons b above => exact ⟨b, rfl⟩
  · exact ⟨first, rfl⟩

/-- Every key has an owner, as soon as there is a peer and a peer has points. -/
theorem exists_lookup (hp : p ∈ ps) (h : 0 < replicas) (key : String) :
    ∃ owner, (build ps replicas).lookup key = some owner := by
  have hpoint : (⟨hashReplica p 0, p, 0⟩ : Point) ∈ (build ps replicas).points :=
    mem_points.mpr ⟨p, hp, List.mem_map.mpr ⟨0, List.mem_range.mpr h, rfl⟩⟩
  obtain ⟨a, ha⟩ := exists_pointAt? (List.ne_nil_of_mem hpoint) (hashKey key)
  exact ⟨a.peer, by rw [lookup, ha, Option.map_some]⟩

/-- Hashes fall to members. -/
theorem mem_of_pointAt? {hash : UInt64} {a : Point}
    (h : pointAt? (build ps replicas).points hash = some a) : a.peer ∈ ps := by
  obtain ⟨p, hp, hplaced⟩ := mem_points.mp (pointAt?_first (pairwise_mergeSort _) h).1
  rwa [peer_of_mem_placed hplaced]

theorem mem_of_lookup (h : (build ps replicas).lookup key = some p) : p ∈ ps := by
  obtain ⟨a, ha, rfl⟩ := Option.map_eq_some_iff.mp h
  exact mem_of_pointAt? ha

/-- Two rings that both have both owners of a key, have one owner of it. -/
theorem lookup_unique (hp : (build ps replicas).lookup key = some p)
    (hq : (build qs replicas).lookup key = some q) (hpq : p ∈ qs) (hqp : q ∈ ps) : p = q := by
  rcases before_of_lookup hp hqp with heq | hbefore
  · exact heq
  · rcases before_of_lookup hq hpq with heq | hafter
    · exact heq.symm
    · exact absurd (hbefore.trans hafter) Before.irrefl

/-- **Keys move as little as they can.**  Of two rings with the same number of points for a peer: where
the one has one peer more, each of its keys belongs to this peer or to its owner on the other; where
the owner of a key on either is also a member of the other, the owners are the same. -/
theorem moves_little (hreplicas : 0 < replicas) (key : String) (ps qs : List Peer) :
    (∀ p, (∀ q, q ∈ qs ↔ q = p ∨ q ∈ ps) →
      ∃ owner, (build qs replicas).lookup key = some owner ∧
        (owner = p ∨ (build ps replicas).lookup key = some owner)) ∧
    (ps ≠ [] → qs ≠ [] →
      ∃ p q, (build ps replicas).lookup key = some p ∧ (build qs replicas).lookup key = some q ∧
        (p ∈ qs → q ∈ ps → p = q)) := by
  constructor
  · intro p hmem
    obtain ⟨owner, howner⟩ := exists_lookup ((hmem p).mpr (.inl rfl)) hreplicas key
    refine ⟨owner, howner, ?_⟩
    rcases (hmem owner).mp (mem_of_lookup howner) with heq | hold
    · exact .inl heq
    · obtain ⟨before, hbefore⟩ := exists_lookup hold hreplicas key
      have hsame := lookup_unique hbefore howner ((hmem before).mpr (.inr (mem_of_lookup hbefore))) hold
      exact .inr (hsame ▸ hbefore)
  · intro hps hqs
    obtain ⟨a, ha⟩ := List.exists_mem_of_ne_nil ps hps
    obtain ⟨b, hb⟩ := List.exists_mem_of_ne_nil qs hqs
    obtain ⟨p, hp⟩ := exists_lookup ha hreplicas key
    obtain ⟨q, hq⟩ := exists_lookup hb hreplicas key
    exact ⟨p, q, hp, hq, lookup_unique hp hq⟩

theorem moves_little_third_peer :
    let two : List Peer := [⟨"a:1"⟩, ⟨"b:1"⟩]
    let three : List Peer := [⟨"c:1"⟩, ⟨"a:1"⟩, ⟨"b:1"⟩]
    0 < 40 ∧
    (∃ owner, (build three 40).lookup "k" = some owner ∧
      (owner = ⟨"c:1"⟩ ∨ (build two 40).lookup "k" = some owner)) ∧
    ∃ p q, (build two 40).lookup "k" = some p ∧ (build three 40).lookup "k" = some q ∧
      (p ∈ three → q ∈ two → p = q) := by
  intro two three
  obtain ⟨hmore, hboth⟩ := moves_little (by decide : 0 < 40) "k" two three
  exact ⟨by decide, hmore ⟨"c:1"⟩ fun q => List.mem_cons, hboth (List.cons_ne_nil _ _) (List.cons_ne_nil _ _)⟩

end Ring

end PeerCache
