import Mathlib
import PeerCache.Proofs.Cluster.Contents
import PeerCache.Proofs.Cluster.Wiring

/-!
# What a removal is good for

After a removal a node holds nothing under the key, in either tier, until something stores it again
(`removed_until_stored`): a set, a load that starts later, or the one load of the key that may have
been in flight.  That one is not stopped by the removal, and stores once what it was told before it
or is told after it (`removed_and_back`).
-/

namespace PeerCache

namespace Paced

variable {s u : Paced} {e : Event} {i : Nat} {key : String}

/-- A load of a key at a node that has still to store what it loads. -/
def InFlight (i : Nat) (key : String) (n : Nat) (s : Paced) : Prop :=
  ∃ t, s.cluster.loads[n]? = some t ∧ t.host = i ∧ t.load.key = key ∧ t.phase.isPending = true

/-- A step removes one key at one node. -/
theorem Removes.unique {j : Nat} {k : String} (h : s.Removes j k e) (hrem : s.Removes i key e) :
    j = i ∧ k = key := by
  cases e with
  | plain e =>
    cases e with
    | remove | removeLocal => exact ⟨h.1.symm.trans hrem.1, h.2.symm.trans hrem.2⟩
    | deliverRemoval d j' =>
      obtain ⟨rfl, p, hp⟩ := h
      obtain ⟨rfl, p', hp'⟩ := hrem
      exact ⟨rfl, congrArg Prod.snd (eq_of_getElem? hp' hp)⟩
    | _ => exact h.elim
  | reply | settle => exact h.elim

/-- A removal that takes place leaves nothing under its key. -/
theorem Takes.removes (h : s.Takes e u) (hs : s.HoldsAt (fun _ _ => True) i) (hrem : s.Removes i key e) :
    u.HoldsAt (fun k _ => k ≠ key) i := by
  cases h with
  | @remove e j k m rs hr hm =>
    obtain ⟨rfl, rfl⟩ := Removes.unique hr hrem
    intro m' hm'
    have hafter : m' = { m with group := (m.group.removeLocal k).1 } := by
      obtain ⟨a, ha, rfl⟩ := getElem?_modify_eq_some.mp hm'
      obtain rfl := eq_of_getElem? hm ha
      rw [if_pos rfl]
    rw [hafter]
    exact (hs m hm).removeLocal_key k
  | _ => exact hrem.elim

/-- What is not there gets there by a first step that stores it. -/
theorem exists_first_store (hs : s.HoldsAt (fun k _ => k ≠ key) i) (es : List Event) :
    (s.run es).HoldsAt (fun k _ => k ≠ key) i ∨ ∃ as f bs v, es = as ++ f :: bs ∧
      (s.run as).HoldsAt (fun k _ => k ≠ key) i ∧ (s.run as).Takes f ((s.run as).step f) ∧
      (s.run as).Stores i key v f := by
  rcases turn hs es with h | ⟨as, f, bs, rfl, hbefore, ht, hafter⟩
  · exact .inl h
  · right
    by_contra hnone
    refine hafter (holds_after ht hbefore ?_)
    rintro k v hv rfl
    exact hnone ⟨as, f, bs, v, rfl, hbefore, ht, hv⟩

/-- A load that stores something has not stored before. -/
theorem inFlight_before {n : Nat} {as : List Event} {now : Instant} {v : ByteArray}
    (h : (s.run as).Takes (.settle n now) u) (hv : (s.run as).Stores i key v (.settle n now))
    (hn : n < s.cluster.loads.length) : s.InFlight i key n := by
  obtain ⟨t, r, ht, -, hi, hk, -⟩ := hv
  obtain ⟨p, ht', hrank⟩ := run_load (List.getElem?_eq_getElem hn) as
  obtain rfl := eq_of_getElem? ht ht'
  refine ⟨s.cluster.loads[n], List.getElem?_eq_getElem hn, hi, hk, ?_⟩
  cases h with
  | settle ht₁ hm hr hset =>
    obtain rfl := eq_of_getElem? ht ht₁
    have hone : p.rank = 1 := hset.rank.1
    unfold LoadPhase.isPending
    rw [decide_eq_true_eq]
    omega
  | remove hrem => exact hrem.elim

/-- A load settles once. -/
theorem settles_once {n : Nat} {now : Instant} (h : s.Takes (.settle n now) u) (es : List Event)
    (now' : Instant) : (u.run es).step? (.settle n now') = none := by
  obtain ⟨t, ht, hrank⟩ := h.settled
  obtain ⟨p, ht', hle⟩ := run_load ht es
  rw [Option.eq_none_iff_forall_ne_some]
  intro w hw
  cases takes hw with
  | settle ht₁ hm hr hset =>
    obtain rfl := eq_of_getElem? ht' ht₁
    have hone : p.rank = 1 := hset.rank.1
    omega
  | remove hrem => exact hrem.elim

/-- **A removed key stays away until it is stored again.**  Once a removal has taken place, neither
tier holds anything under the key, or there was a first step that stored it: a set, or the settling
of a load that started after the removal or was in flight at it.  At most one load was, and a load
settles once. -/
theorem removed_until_stored (hs : s.Reachable) (hrem : s.Removes i key e) (hu : s.step? e = some u)
    (after : List Event) :
    ((u.run after).Lacks i key ∨ ∃ as f bs v, after = as ++ f :: bs ∧ (u.run as).Lacks i key ∧
      (u.run as).Stores i key v f ∧
      ∀ n now, f = .settle n now → u.cluster.loads.length ≤ n ∨ u.InFlight i key n) ∧
    (∀ n k, u.InFlight i key n → u.InFlight i key k → n = k) ∧
    ∀ n now as bs now', ((u.run as).step? (.settle n now)).isSome →
      (u.run (as ++ .settle n now :: bs)).step? (.settle n now') = none := by
  have ht := takes hu
  refine ⟨?_, ?_, ?_⟩
  · rcases exists_first_store (ht.removes (hs.holds i) hrem) after with h | ⟨as, f, bs, v, rfl, has, hf, hv⟩
    · exact .inl h.lacks
    · refine .inr ⟨as, f, bs, v, rfl, has.lacks, hv, ?_⟩
      rintro n now rfl
      rcases Nat.lt_or_ge n u.cluster.loads.length with hn | hn
      · exact .inr (inFlight_before hf hv hn)
      · exact .inl hn
  · rintro n k ⟨t, htn, hi, hk, hp⟩ ⟨t', htk, hi', hk', hp'⟩
    exact (hs.wired.step ht).flying_unique htn htk (LoadPhase.isFlying_of_isPending hp)
      (LoadPhase.isFlying_of_isPending hp') (hi.trans hi'.symm) (hk.trans hk'.symm)
  · intro n now as bs now' hsome
    rw [run_append]
    exact settles_once (takes (step?_eq hsome)) bs now'

/-- What a load was told before a removal, it stores after it. -/
theorem removed_until_stored_by_load :
    let s := askingLoad.step (.reply 0 (.backfill (.value ⟨#[0]⟩)))
    let u := s.step (.plain (.removeLocal 0 "k"))
    let after := [Event.settle 0 ⟨5⟩]
    (s.step? (.plain (.removeLocal 0 "k"))).isSome = true ∧
    ((u.run after).Lacks 0 "k" ∨ ∃ as f bs v, after = as ++ f :: bs ∧ (u.run as).Lacks 0 "k" ∧
      (u.run as).Stores 0 "k" v f ∧
      ∀ n now, f = .settle n now → u.cluster.loads.length ≤ n ∨ u.InFlight 0 "k" n) := by
  have hs : (askingLoad.step (.reply 0 (.backfill (.value ⟨#[0]⟩)))).Reachable :=
    (reachable_queuedLoad.step _).step _
  have hsome : ((askingLoad.step (.reply 0 (.backfill (.value ⟨#[0]⟩)))).step?
      (.plain (.removeLocal 0 "k"))).isSome = true := by
    unfold askingLoad queuedLoad
    rw [twoOwners_eq]
    cbv
  have hrem : (askingLoad.step (.reply 0 (.backfill (.value ⟨#[0]⟩)))).Removes 0 "k"
      (.plain (.removeLocal 0 "k")) :=
    ⟨rfl, rfl⟩
  exact ⟨hsome, (removed_until_stored hs hrem (step?_eq hsome) [.settle 0 ⟨5⟩]).1⟩

/-- **A removal does not stop a load.**  The load of the key has its value when the key is removed;
then it stores it, and the key is back, though nobody sets it and no other load starts. -/
theorem removed_and_back :
    let s := askingLoad.step (.reply 0 (.backfill (.value ⟨#[0]⟩)))
    let u := s.step (.plain (.removeLocal 0 "k"))
    let w := u.run [.settle 0 ⟨5⟩]
    u.inMain? 0 "k" = none ∧ w.inMain? 0 "k" = some ⟨⟨#[0]⟩, none⟩ ∧
      w.cluster.loads.length = s.cluster.loads.length := by
  unfold askingLoad queuedLoad
  rw [twoOwners_eq]
  cbv

end Paced

end PeerCache
