import Mathlib
import PeerCache.Proofs.Cluster.Entries
import PeerCache.Proofs.Network.Removal

/-!
# A removal everywhere

A removal at a node puts one message for each other peer of its ring on the way, and a message that is
delivered is gone; no other step adds any (`removals_step`).  So each node of the ring has lost the key
or is still to be told (`Due`), and when all messages have been delivered no node has it, if none has
stored it again.  Steps that remove the key touch nothing under other keys (`Takes.entries_removed`).

Main statement: `removal_reaches_all`, from the requests that a removal hands to the transport and what
serving one of them does, to all nodes of a cluster.  A key that is a dot is the exception: over HTTP its
removal arrives as that of the empty key (`removal_of_dot`).
-/

namespace PeerCache

namespace Paced

variable {s u : Paced} {e : Event} {i : Nat} {key : String}

/-! ## Messages -/

/-- The removals on their way after a step. -/
def removalsAfter (s : Paced) : Event → List (Peer × String)
  | .plain (.remove i key) => s.cluster.removals ++
      (s.cluster.members[i]?.elim [] fun m => m.membership.others.map fun p => (p, key))
  | .plain (.deliverRemoval d _) | .plain (.loseRemoval d) => s.cluster.removals.eraseIdx d
  | _ => s.cluster.removals

theorem removalsAfter_remove {m : Member} (hm : s.cluster.members[i]? = some m) (key : String) :
    s.removalsAfter (.plain (.remove i key)) =
      s.cluster.removals ++ m.membership.others.map fun p => (p, key) := by
  simp [removalsAfter, hm]

/-- **Only a removal puts messages on their way, and only a delivery or a loss takes one.** -/
theorem removals_step (h : s.step? e = some u) : u.cluster.removals = s.removalsAfter e := by
  have ht := takes h
  cases e with
  | reply n r => cases ht <;> first | rfl | contradiction
  | settle n now => cases ht <;> first | rfl | contradiction
  | plain e =>
    cases e with
    | remove i key =>
      simp only [step?, Cluster.settles, Bool.false_eq_true, if_false, Cluster.step?, Cluster.remove?,
        Cluster.removeLocal?, Option.map_eq_some_iff, Option.bind_eq_bind, Option.bind_eq_some_iff,
        Option.some.injEq] at h
      obtain ⟨c, ⟨m, hm, -, ⟨m', -, rfl⟩, rfl⟩, rfl⟩ := h
      rw [removalsAfter_remove hm]
      rfl
    | removeLocal i key =>
      simp only [step?, Cluster.settles, Bool.false_eq_true, if_false, Cluster.step?,
        Cluster.removeLocal?, Option.map_eq_some_iff, Option.bind_eq_bind, Option.bind_eq_some_iff,
        Option.some.injEq] at h
      obtain ⟨c, ⟨m, -, rfl⟩, rfl⟩ := h
      rfl
    | deliverRemoval d j =>
      simp only [step?, Cluster.settles, Bool.false_eq_true, if_false, Cluster.step?,
        Cluster.deliverRemoval?, Option.map_eq_some_iff, Option.bind_eq_bind, Option.bind_eq_some_iff] at h
      obtain ⟨c, ⟨⟨p, key⟩, -, m, -, h⟩, rfl⟩ := h
      split at h
      · simp only [Cluster.removeLocal?, Option.bind_eq_bind, Option.bind_eq_some_iff, Option.some.injEq] at h
        obtain ⟨m', -, rfl⟩ := h
        rfl
      · cases h
    | _ => cases ht <;> first | rfl | contradiction

/-- Without another removal there are only fewer messages. -/
theorem removals_sublist (s : Paced) (es : List Event) (hes : ∀ i key, .plain (.remove i key) ∉ es) :
    ((s.run es).cluster.removals).Sublist s.cluster.removals := by
  induction es generalizing s with
  | nil => exact List.Sublist.refl _
  | cons e es ih =>
    refine (ih (s.step e) fun i key h => hes i key (List.mem_cons_of_mem e h)).trans ?_
    cases hstep : s.step? e with
    | none => rw [step_of_none hstep]
    | some u =>
      rw [step_eq hstep, removals_step hstep]
      unfold removalsAfter
      split
      · exact absurd List.mem_cons_self (hes _ _)
      · exact List.eraseIdx_sublist _ _
      · exact List.eraseIdx_sublist _ _
      · exact List.Sublist.refl _

/-! ## Who has lost the key -/

/-- Each node has its own address. -/
def Distinct (s : Paced) : Prop :=
  ∀ i j p, s.isLocalAt i p = true → s.isLocalAt j p = true → i = j

/-- A node has lost the key, or is still to be told. -/
def Due (key : String) (i : Nat) (s : Paced) : Prop :=
  s.Lacks i key ∨ ∃ p, (p, key) ∈ s.cluster.removals ∧ s.isLocalAt i p = true

theorem distinct_of_nodup (h : (s.cluster.members.map (·.membership.localPeer)).Nodup) : s.Distinct := by
  have hat {i : Nat} {p : Peer} (hl : s.isLocalAt i p = true) :
      (s.cluster.members.map (·.membership.localPeer))[i]? = some p := by
    obtain ⟨m, hm, hp⟩ := (Option.any_eq_true _ _).mp hl
    rw [List.getElem?_map, hm]
    exact congrArg some (beq_iff_eq.mp hp).symm
  intro i j p hi hj
  obtain ⟨hlt, he⟩ := List.getElem?_eq_some_iff.mp (hat hi)
  obtain ⟨hlt', he'⟩ := List.getElem?_eq_some_iff.mp (hat hj)
  exact (h.getElem_inj_iff).mp (he.trans he'.symm)

theorem Takes.distinct (h : s.Takes e u) (hs : s.Distinct) : u.Distinct := by
  intro i j p hi hj
  rw [h.isLocalAt_eq] at hi hj
  exact hs i j p hi hj

/-- A step that stores nothing under a key, and loses no message. -/
structure Clean (key : String) (s : Paced) (e : Event) : Prop where
  unstored : ∀ i v, ¬ s.Stores i key v e
  kept : ∀ d, e ≠ .plain (.loseRemoval d)

/-- A clean step leaves nobody behind. -/
theorem Due.step (hs : s.Due key i) (hholds : s.HoldsAt (fun _ _ => True) i) (hdistinct : s.Distinct)
    (hclean : s.Clean key e) (h : s.step? e = some u) : u.Due key i := by
  have ht := takes h
  rcases hs with hlacks | ⟨p, hp, hl⟩
  · refine .inl (holds_after ht (hlacks.holds hholds) ?_).lacks
    rintro k v hv rfl
    exact hclean.unstored i v hv
  · have hkept (hmem : (p, key) ∈ u.cluster.removals) : u.Due key i :=
      .inr ⟨p, hmem, by rw [ht.isLocalAt_eq, hl]⟩
    have hremovals := removals_step h
    unfold removalsAfter at hremovals
    split at hremovals
    · exact hkept (by rw [hremovals]; exact List.mem_append_left _ hp)
    · next d j =>
      by_cases hd : s.cluster.removals[d]? = some (p, key)
      · -- the node that is told is the one with the address
        have hj : s.isLocalAt j p = true := by
          simp only [step?, Cluster.settles, Bool.false_eq_true, if_false, Cluster.step?,
            Cluster.deliverRemoval?, hd, Option.map_eq_some_iff, Option.bind_eq_bind, Option.bind_some,
            Option.bind_eq_some_iff] at h
          obtain ⟨c, ⟨m, hm, h⟩, -⟩ := h
          rw [isLocalAt_eq hm]
          by_contra hnot
          rw [if_neg hnot] at h
          cases h
        obtain rfl := hdistinct i j p hl hj
        exact .inl (ht.removes hholds ⟨rfl, p, hd⟩).lacks
      · obtain ⟨n, hn⟩ := List.mem_iff_getElem?.mp hp
        have hne : n ≠ d := by
          rintro rfl
          exact hd hn
        exact hkept (by rw [hremovals]; exact List.mem_eraseIdx_iff_getElem?.mpr ⟨n, hne, hn⟩)
    · next d => exact absurd rfl (hclean.kept d)
    · exact hkept (by rw [hremovals]; exact hp)

/-- After a removal each node of the ring has lost the key or is to be told. -/
theorem due_of_remove {m : Member} {replicas : Nat} (hs : s.Reachable)
    (hm : s.cluster.members[i]? = some m)
    (hring : ∀ a ∈ s.cluster.members, a.membership.Built replicas ∧ a.membership.ring = m.membership.ring)
    (hdistinct : s.Distinct) (h : s.step? (.plain (.remove i key)) = some u) (j : Nat) : u.Due key j := by
  have ht := takes h
  by_cases hj : i = j
  · subst hj
    exact .inl (ht.removes (hs.holds i) ⟨rfl, rfl⟩).lacks
  · cases ha : s.cluster.members[j]? with
    | none =>
      refine .inl fun a ha' => ?_
      rw [List.getElem?_eq_none_iff, ← ht.lengths.1, ← List.getElem?_eq_none_iff] at ha
      rw [ha] at ha'
      cases ha'
    | some a =>
      obtain ⟨hbuilt, heq⟩ := hring a (List.mem_of_getElem? ha)
      have hlocal : s.isLocalAt j a.membership.localPeer = true := by
        rw [isLocalAt_eq ha]
        exact beq_self_eq_true _
      have hother : a.membership.localPeer ∈ m.membership.others := by
        refine Membership.mem_others.mpr ⟨?_, fun he => ?_⟩
        · have hmem := hbuilt.mem_peers
          unfold Membership.peers at hmem ⊢
          rwa [heq] at hmem
        · refine hj (hdistinct i j a.membership.localPeer ?_ hlocal)
          rw [isLocalAt_eq hm, he]
          exact beq_self_eq_true _
      refine .inr ⟨a.membership.localPeer, ?_, by rw [ht.isLocalAt_eq, hlocal]⟩
      rw [removals_step h, removalsAfter_remove hm]
      exact List.mem_append_right _ (List.mem_map_of_mem hother)

/-! ## What is under other keys -/

/-- What a tier of a node has, the least recently used first. -/
def entries (s : Paced) (i : Nat) (kind : TierKind) : List (String × Entry) :=
  s.cluster.members[i]?.elim [] fun m => (m.group.cache.tier kind).view.entries

/-- A step that removes a key takes what one node has under it, and nothing else anywhere. -/
theorem Takes.entries_removed (h : s.Takes e u) (hholds : s.HoldsAt (fun _ _ => True) i)
    (hrem : s.Removes i key e) (j : Nat) (kind : TierKind) :
    u.entries j kind = if i = j then (s.entries j kind).filter (·.1 != key) else s.entries j kind := by
  cases h with
  | @remove e i' k m rs hr hm =>
    obtain ⟨rfl, rfl⟩ := Removes.unique hr hrem
    unfold entries
    simp only [on, Cluster.setGroup, List.getElem?_modify]
    split
    · next hij =>
      subst hij
      rw [hm]
      exact ((hholds m hm).drops k).entries kind
    · cases s.cluster.members[j]? <;> rfl
  | _ => exact hrem.elim

/-- A run that only removes a key leaves everything under other keys, in its order. -/
theorem entries_run (hs : s.Reachable) {es : List Event}
    (h : Along step (fun v e => ∃ j, v.Removes j key e) s es) (j : Nat) (kind : TierKind) :
    ((s.run es).entries j kind).filter (·.1 != key) = (s.entries j kind).filter (·.1 != key) := by
  refine (keeps (I := fun w => w.Reachable ∧
    (w.entries j kind).filter (·.1 != key) = (s.entries j kind).filter (·.1 != key)) ?_ ⟨hs, rfl⟩ h).2
  rintro w e ⟨hw, heq⟩ ⟨i, hrem⟩ ht
  refine ⟨hw.step e, ?_⟩
  rw [← heq, ht.entries_removed (hw.holds i) hrem]
  split
  · rw [List.filter_filter]
    simp
  · rfl

/-- A node that lacks a key has only other keys. -/
theorem Lacks.entries {j : Nat} (h : s.Lacks j key) (kind : TierKind) :
    (s.entries j kind).filter (·.1 != key) = s.entries j kind := by
  unfold Paced.entries
  cases hm : s.cluster.members[j]? with
  | none => rfl
  | some m =>
    refine List.filter_eq_self.mpr fun a ha => ?_
    obtain ⟨x, hx, rfl⟩ := List.mem_map.mp ha
    exact bne_iff_ne.mpr (h m hm kind x (Tier.mem_recency.mp hx))

theorem Removes.clean {j : Nat} {k : String} (h : s.Removes j k e) (key : String) : s.Clean key e := by
  constructor
  · intro i v hv
    cases e with
    | plain e =>
      cases e with
      | set => exact h.elim
      | _ => exact hv.elim
    | reply | settle => exact h.elim
  · rintro d rfl
    exact h.elim

/-! ## In a cluster -/

/-- When all messages of a removal have been delivered, and no node has stored the key again, no node
has it. -/
theorem lacks_of_delivered {m : Member} {replicas : Nat} (hs : s.Reachable)
    (hm : s.cluster.members[i]? = some m)
    (hring : ∀ a ∈ s.cluster.members, a.membership.Built replicas ∧ a.membership.ring = m.membership.ring)
    (hdistinct : s.Distinct) (h : s.step? (.plain (.remove i key)) = some u) {es : List Event}
    (hclean : Along step (Clean key) u es) (hdone : ∀ p, (p, key) ∉ (u.run es).cluster.removals) (j : Nat) :
    (u.run es).Lacks j key := by
  have hu : u.Reachable := by
    rw [← step_eq h]
    exact hs.step _
  obtain ⟨-, -, hlacks | ⟨p, hp, -⟩⟩ : (u.run es).Reachable ∧ (u.run es).Distinct ∧ (u.run es).Due key j := by
    refine Along.keeps (I := fun w => w.Reachable ∧ w.Distinct ∧ w.Due key j) ?_
      ⟨hu, (takes h).distinct hdistinct, due_of_remove hs hm hring hdistinct h j⟩ hclean
    rintro w e ⟨hw, hd, hdue⟩ hclean
    refine ⟨hw.step e, ?_⟩
    cases hstep : w.step? e with
    | none =>
      rw [step_of_none hstep]
      exact ⟨hd, hdue⟩
    | some w' =>
      rw [step_eq hstep]
      exact ⟨(takes hstep).distinct hd, hdue.step (hw.holds j) hd hclean hstep⟩
  · exact hlacks
  · exact absurd hp (hdone p)

/-- **A removal reaches all others once, and goes no further.**

At a node whose ring has the node itself, a removal of a key opens one exchange for each other peer of
the ring, with the request that this peer drop the key; these are all peers but one.  Wherever such a
request arrives, no exchange is opened; and unless the group or the key is a dot or two, the group there
loses this key from its two tiers, and nothing else has changed at the node.

So in a cluster only a removal puts messages on their way.  If all nodes share the ring, all messages of
the removal are delivered, in whatever order, and no step stores the key meanwhile, then no node has it;
and if nothing but removals of the key happens, each tier has what it had before, without the key. -/
theorem removal_reaches_all (replicas : Nat) :
    (∀ (net : Network) (i : Nat) (h : Host) (g : Group) (group key : String), net.host? i = some h →
      h.node.registry.get group = .ok g → h.node.membership.Built replicas →
      let others := h.node.membership.others
      (∃ xs : List Exchange,
        net.remove i group key = .ok
          ({ net.setNode i (h.node.putGroup (g.removeLocal key).1) with
              exchanges := net.exchanges ++ xs
              queue := net.queue ++ xs.map fun x => .send x.id
              next := net.next + 1 + xs.length },
            net.next, (g.removeLocal key).2) ∧
        xs.map (·.message) = others.map (fun p => .peer ⟨.remove, p, group, key⟩ h.transport) ∧
        xs.map (·.id) = List.range' (net.next + 1) xs.length) ∧
      others.Nodup ∧ (∀ p, p ∈ others ↔ p ∈ h.node.membership.peers ∧ p ≠ h.node.membership.localPeer) ∧
      others.length + 1 = h.node.membership.peers.length) ∧
    (∀ (net : Network) (x : Exchange) (q : PeerRequest) (t : Transport) (now : Instant),
      x.message = .peer q t → q.verb = .remove →
      ((net.serve now x).exchanges = net.exchanges ∧
        ∃ as : List Arrival, (net.serve now x).queue = net.queue ++ as.map (.receive x.id)) ∧
      ∀ (i : Nat) (h : Host) (g : Group) (u : Http.Url), q.url? = some u → ¬ Http.Url.IsDots q.group →
        ¬ Http.Url.IsDots q.key → u.path.utf8ByteSize ≤ Http.Target.maxSize →
        net.listenerAt? u.authority = some i → net.host? i = some h →
        h.node.registry.get q.group = .ok g → g.Holds (fun _ _ => True) →
        net.serve now x = (net.setNode i (h.node.putGroup (g.removeLocal q.key).1)).post
            (.receive x.id (.response .noContent)) ∧
          g.Drops q.key (g.removeLocal q.key).1) ∧
    (∀ (s : Paced) (i : Nat) (m : Member) (key : String), s.Reachable → s.cluster.members[i]? = some m →
      m.membership.Built replicas →
      let u := s.step (.plain (.remove i key))
      u.cluster.removals = s.cluster.removals ++ m.membership.others.map (fun p => (p, key)) ∧
      ∀ es : List Event, let w := u.run es
      ((∀ j k, .plain (.remove j k) ∉ es) → w.cluster.removals.Sublist u.cluster.removals) ∧
      ((∀ a ∈ s.cluster.members, a.membership.Built replicas ∧ a.membership.ring = m.membership.ring) →
        s.Distinct → (∀ p, (p, key) ∉ w.cluster.removals) →
        (Along step (Clean key) u es → ∀ j, w.Lacks j key) ∧
        (Along step (fun v e => ∃ j, v.Removes j key e) u es → ∀ j kind,
          w.entries j kind = (s.entries j kind).filter (·.1 != key)))) := by
  refine ⟨fun net i h g group key hh hg hbuilt => ?_, fun net x q t now hx hq => ⟨?_, ?_⟩,
    fun s i m key hs hm hbuilt => ?_⟩
  · exact ⟨Network.remove_eq hh hg key, hbuilt.nodup_others, fun p => Membership.mem_others, hbuilt.length_others⟩
  · exact Network.serve_removal_quiet hx hq net now
  · intro i h g u hu hgroup hkey hsize hi hh hg hholds
    have hpath := PeerRequest.path_of_plain hu hgroup hkey
    exact ⟨Network.serve_removal hx hq hu hpath hsize hi hh hg now, hholds.drops q.key⟩
  · intro u
    have hstep : s.step? (.plain (.remove i key)) = some u := by
      refine step?_eq ?_
      simp [step?, Cluster.settles, Cluster.step?, Cluster.remove?, Cluster.removeLocal?, hm]
    refine ⟨by rw [removals_step hstep, removalsAfter_remove hm], fun es => ⟨removals_sublist u es, ?_⟩⟩
    intro hring hdistinct hdone
    have hlacks (hclean : Along step (Clean key) u es) (j : Nat) : (u.run es).Lacks j key :=
      lacks_of_delivered hs hm hring hdistinct hstep hclean hdone j
    refine ⟨hlacks, fun hremoves j kind => ?_⟩
    have hclean : Along step (Clean key) u es := by
      refine hremoves.imp ?_
      rintro v e ⟨_, hrem⟩
      exact hrem.clean key
    have hall : Along step (fun v e => ∃ j, v.Removes j key e) s (.plain (.remove i key) :: es) :=
      ⟨⟨i, rfl, rfl⟩, hremoves⟩
    rw [← (hlacks hclean j).entries kind]
    exact entries_run hs hall j kind

/-! ## Two nodes -/

/-- A group with room for ten entries in each tier. -/
def users : Group := Group.create { name := "users", main := ⟨.items 10, 1⟩, hot := ⟨.items 10, 1⟩ }

/-- The same with values under a plain key, the empty key and a dot. -/
def filledUsers : Group :=
  ((users.set "k" ⟨#[0]⟩ ⟨1⟩).set "" ⟨#[1]⟩ ⟨2⟩).set "." ⟨#[2]⟩ ⟨3⟩

/-- A node that reaches the other one over HTTP. -/
def userHost (addr : String) (g : Group) : Host :=
  { node :=
      { membership := ⟨⟨addr⟩, ⟨40⟩, {}, Ring.build [⟨"127.0.0.1:9000"⟩, ⟨"127.0.0.1:9001"⟩] 40⟩,
        registry := ⟨[g]⟩ },
    transport := .http,
    listening := true }

/-- The second node has values, the first one is empty. -/
def twoHosts : Network :=
  { hosts := [userHost "127.0.0.1:9000" users, userHost "127.0.0.1:9001" filledUsers] }

/-- The request that the second node drop a key, as the first node sends it. -/
def removalOf (key : String) : Exchange :=
  ⟨1, .peer ⟨.remove, ⟨"127.0.0.1:9001"⟩, "users", key⟩ .http, .notify 0, some 500, some 500⟩

theorem holds_filledUsers : filledUsers.Holds fun _ _ => True :=
  (((Group.holds_create _ _).setWith trivial .default ⟨1⟩).setWith trivial .default ⟨2⟩).setWith
    trivial .default ⟨3⟩

/-- The second node has set a key. -/
def setAtSecond : Paced := (start twoOwners).step (.plain (.set 1 "1" ⟨#[1]⟩ .never ⟨1⟩))

/-- The first node removes it, and the second one is told. -/
theorem removal_reaches_all_two_nodes :
    let h := userHost "127.0.0.1:9000" users
    let g := (filledUsers.removeLocal "k").1
    let u := setAtSecond.step (.plain (.remove 0 "1"))
    h.node.membership.others.length + 1 = h.node.membership.peers.length ∧
    (twoHosts.serve ⟨0⟩ (removalOf "k")).exchanges = [] ∧
    twoHosts.serve ⟨0⟩ (removalOf "k") =
      (twoHosts.setNode 1 ((userHost "127.0.0.1:9001" filledUsers).node.putGroup g)).post
        (.receive 1 (.response .noContent)) ∧
    filledUsers.Drops "k" g ∧
    u.held? 1 .main "1" = some ⟨⟨#[1]⟩, none⟩ ∧ ∀ j, (u.step (.plain (.deliverRemoval 0 1))).Lacks j "1" := by
  have hbuilt {addr : String} (haddr : addr ∈ ["127.0.0.1:9000", "127.0.0.1:9001"]) :
      (⟨⟨addr⟩, ⟨40⟩, {}, Ring.build [⟨"127.0.0.1:9000"⟩, ⟨"127.0.0.1:9001"⟩] 40⟩ : Membership).Built 40 :=
    ⟨rfl, [⟨"127.0.0.1:9000"⟩, ⟨"127.0.0.1:9001"⟩], List.mem_map_of_mem haddr, rfl⟩
  have hu : PeerRequest.url? ⟨.remove, ⟨"127.0.0.1:9001"⟩, "users", "k"⟩ =
      some ⟨"127.0.0.1:9001", "/_groupcache/users/k"⟩ := by
    cbv
  obtain ⟨hsent, hserved, hcluster⟩ := removal_reaches_all 40
  obtain ⟨-, -, -, hlength⟩ := hsent twoHosts 0 _ users "users" "k" rfl rfl (hbuilt List.mem_cons_self)
  obtain ⟨⟨hquiet, -⟩, hdrops⟩ := hserved twoHosts (removalOf "k") _ _ ⟨0⟩ rfl rfl
  obtain ⟨hserve, hdrop⟩ := hdrops 1 _ filledUsers _ hu (by decide) (by decide) (by decide) (by decide) rfl rfl
    holds_filledUsers
  have hring (a : Member) (ha : a ∈ setAtSecond.cluster.members) : a.membership.Built 40 ∧
      a.membership.ring = Ring.build [⟨"a:1"⟩, ⟨"b:1"⟩] 40 := by
    have hmemberships : setAtSecond.cluster.members.map (·.membership) =
        ["a:1", "b:1"].map fun addr => ⟨⟨addr⟩, ⟨40⟩, {}, Ring.build [⟨"a:1"⟩, ⟨"b:1"⟩] 40⟩ := rfl
    obtain ⟨addr, haddr, he⟩ := List.mem_map.mp (hmemberships ▸ List.mem_map_of_mem ha)
    rw [← he]
    exact ⟨⟨rfl, [⟨"a:1"⟩, ⟨"b:1"⟩], List.mem_map_of_mem haddr, rfl⟩, rfl⟩
  have hdistinct : setAtSecond.Distinct := by
    refine distinct_of_nodup ?_
    show (["a:1", "b:1"].map Peer.mk).Nodup
    decide
  have hs : setAtSecond.Reachable := ⟨twoOwners, [.plain (.set 1 "1" ⟨#[1]⟩ .never ⟨1⟩)], rfl⟩
  have hm : ∃ m, setAtSecond.cluster.members[0]? = some m := ⟨_, rfl⟩
  obtain ⟨m, hm⟩ := hm
  obtain ⟨hbuilt', hsame⟩ := hring m (List.mem_of_getElem? hm)
  obtain ⟨hremovals, hrun⟩ := hcluster setAtSecond 0 m "1" hs hm hbuilt'
  obtain ⟨-, hlacks⟩ := hrun [.plain (.deliverRemoval 0 1)]
  have hrunning : (setAtSecond.step (.plain (.remove 0 "1"))).held? 1 .main "1" = some ⟨⟨#[1]⟩, none⟩ ∧
      ((setAtSecond.step (.plain (.remove 0 "1"))).step (.plain (.deliverRemoval 0 1))).cluster.removals = [] := by
    unfold setAtSecond
    rw [twoOwners_eq]
    cbv
  obtain ⟨hheld, hdone⟩ := hrunning
  have hclean : Along step (Clean "1") (setAtSecond.step (.plain (.remove 0 "1")))
      [.plain (.deliverRemoval 0 1)] :=
    ⟨⟨fun i v hv => hv, by rintro d ⟨⟩⟩, trivial⟩
  exact ⟨hlength, hquiet, hserve, hdrop, hheld,
    (hlacks (fun a ha => ⟨(hring a ha).1, (hring a ha).2.trans hsame.symm⟩) hdistinct
      (fun p hp => List.not_mem_nil (hdone ▸ hp))).1 hclean⟩

/-- **The removal of a dot misses.**  The request that the second node drop the key that is a dot arrives
as one for the empty key: that is gone, and the dot is still there. -/
theorem removal_of_dot :
    let g := (filledUsers.removeLocal "").1
    twoHosts.serve ⟨0⟩ (removalOf ".") =
      (twoHosts.setNode 1 ((userHost "127.0.0.1:9001" filledUsers).node.putGroup g)).post
        (.receive 1 (.response .noContent)) ∧
    filledUsers.held? .main "" = some ⟨⟨#[1]⟩, none⟩ ∧ g.held? .main "" = none ∧
    filledUsers.held? .main "." = some ⟨⟨#[2]⟩, none⟩ ∧ g.held? .main "." = some ⟨⟨#[2]⟩, none⟩ := by
  have hu : PeerRequest.url? ⟨.remove, ⟨"127.0.0.1:9001"⟩, "users", "."⟩ =
      some ⟨"127.0.0.1:9001", "/_groupcache/users/"⟩ := by
    cbv
  have hpath : "/_groupcache/users/" = Path.peer "users" "" := by decide
  refine ⟨Network.serve_removal rfl rfl hu hpath (by decide) (by decide) rfl rfl ⟨0⟩, ?_⟩
  cbv

end Paced

end PeerCache
