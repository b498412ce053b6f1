import Mathlib
import PeerCache.Proofs.Cluster.Contents
import PeerCache.Proofs.Cluster.Wiring

/-!
# One backfill for each residence

As long as a node owns a key, and the key is not set there or taken from its main tier once it is in
it, the backfill is good for one value: the first that it produces is the only one, every get that is
answered with a value is answered with this one, and once it is stored no load asks any more
(`one_backfill`).

A caller may look in vain, fall asleep, and start a load of its own when the load of another has come
and gone.  Two facts make this harmless: a load looks into the main tier again when it begins, and a
load stores its value before its flight is dropped.  So while a load asks, nothing is held under the
key and no other load of it flies; and what has been produced is held by then or in that one load's
hands (`Residing`).
-/

namespace PeerCache

/-- The value that a backfill has produced. -/
def LoadReply.produced? : LoadReply → Option ByteArray
  | backfill (.value v) => some v
  | _ => none

theorem LoadReply.value?_of_produced? {r : LoadReply} {v : ByteArray} (h : r.produced? = some v) :
    r.value? = some v := by
  cases r with
  | backfill a =>
    cases a with
    | value w => exact h
    | missing | failed | panicked => cases h
  | fetch e => cases h

/-- What a load that asks is told to store, its backfill has produced. -/
theorem LoadReply.produced?_of_asking {source : Backfill} {x : Option Instant} {r : LoadReply}
    (ha : (LoadPhase.asking source x).awaits r = true) : r.produced? = r.value? := by
  cases r with
  | backfill a => cases a <;> rfl
  | fetch e => cases ha

def LoadTask.isOf (t : LoadTask) (i : Nat) (key : String) : Bool := t.host == i && t.load.key == key

theorem LoadTask.isOf_iff {t : LoadTask} {i : Nat} {key : String} :
    t.isOf i key = true ↔ t.host = i ∧ t.load.key = key := by
  unfold isOf
  rw [Bool.and_eq_true, beq_iff_eq, beq_iff_eq]

namespace Paced

variable {s u : Paced} {e : Event} {i : Nat} {key : String}

/-! ## Residences -/

/-- The values that backfills of a key have produced at a node, the latest first. -/
def produced (s : Paced) (i : Nat) (key : String) : List ByteArray :=
  s.replies.filterMap fun (n, r) =>
    if s.cluster.loads[n]?.any (·.isOf i key) then r.produced? else none

/-- What a step puts under a key at a node, as a value. -/
def stored? (s : Paced) (i : Nat) (key : String) : Event → Option ByteArray
  | .plain (.set j k v _ _) => if j = i ∧ k = key then some v else none
  | .settle n _ => s.cluster.loads[n]?.bind fun t =>
      if t.isOf i key then (s.reply? n).bind LoadReply.value? else none
  | _ => none

theorem stored?_of_stores {v : ByteArray} (h : s.Stores i key v e) : s.stored? i key e = some v := by
  cases e with
  | plain e =>
    cases e with
    | set j k w x now =>
      obtain ⟨rfl, rfl, rfl⟩ := h
      exact if_pos ⟨rfl, rfl⟩
    | _ => exact h.elim
  | reply n r => exact h.elim
  | settle n now =>
    obtain ⟨t, r, ht, hr, hi, hk, hv⟩ := h
    simp only [stored?, ht, Option.bind_some, LoadTask.isOf_iff.mpr ⟨hi, hk⟩, if_true, hr]
    exact hv

/-- A step in the residence of a key: the node owns it, the step leaves it alone, and what it stores
is not too large. -/
structure Resident (i : Nat) (key : String) (s : Paced) (e : Event) : Prop where
  owned : s.owns i key = true
  undisturbed : s.Undisturbed i key e
  fits : ∀ v ∈ s.stored? i key e, s.admits i key v = true

instance (i : Nat) (key : String) (s : Paced) (e : Event) : Decidable (s.Resident i key e) :=
  decidable_of_iff ((s.owns i key && decide (s.Undisturbed i key e) &&
      (s.stored? i key e).all (s.admits i key ·)) = true) <| by
    rw [Bool.and_eq_true, Bool.and_eq_true, decide_eq_true_eq, Option.all_eq_true, and_assoc]
    exact ⟨fun h => ⟨h.1, h.2.1, h.2.2⟩, fun h => ⟨h.owned, h.undisturbed, h.fits⟩⟩

/-- How far a load of an owned key has come, if no value is there. -/
def ColdLoad (s : Paced) (i n : Nat) : LoadTask → Prop
  | ⟨_, l, .queued⟩ => s.isLocalAt i l.owner = true
  | ⟨_, _, .asking ..⟩ => ∀ r, s.reply? n = some r → r.produced? = none
  | ⟨_, _, .fetching ..⟩ => False
  | ⟨_, _, .ended e⟩ => ∀ v, e ≠ .returned (.ok v)
  | ⟨_, _, .released _⟩ => True

/-- How far a request for an owned key has come, if no value is there. -/
def ColdRequest (s : Paced) (i : Nat) : RequestPhase → Prop
  | .looking owner | .missed owner => s.isLocalAt i owner = true
  | .glancing _ => False
  | .waiting k => ∀ (n : Nat) (t : LoadTask), s.cluster.loads[n]? = some t → t.host = i → t.load.number = k →
      ∀ v, t.phase ≠ .released (.returned (.ok v))
  | _ => True

/-- Before a residence: nothing is held under the key, no load of it has a value, and what has begun
counts on the node itself as the owner. -/
structure Cold (i : Nat) (key : String) (s : Paced) : Prop where
  lacks : s.Lacks i key
  load : ∀ (n : Nat) (t : LoadTask), s.cluster.loads[n]? = some t → t.isOf i key = true → s.ColdLoad i n t
  request : ∀ (r : Nat) (q : Request), s.cluster.requests[r]? = some q → q.host = i → q.key = key →
    s.ColdRequest i q.phase

/-! ## The invariant -/

/-- What a load of the key may be, when backfills have produced `new`. -/
def LoadOk (s : Paced) (i : Nat) (key : String) (new : List ByteArray) (n : Nat) (t : LoadTask) : Prop :=
  match t.phase with
  | .queued => s.isLocalAt i t.load.owner = true
  | .asking .. => s.inMain? i key = none ∧ ∀ r v, s.reply? n = some r → r.produced? = some v → new = [v]
  | .fetching .. => False
  | .ended e => ∀ v, e = .returned (.ok v) → new = [v] ∧ (s.inMain? i key).isSome
  | .released _ => True

/-- What a request for the key may be.  Those that were closed before are no concern. -/
def RequestOk (s : Paced) (i : Nat) (new : List ByteArray) (closed : Prop) : RequestPhase → Prop
  | .looking owner | .missed owner => s.isLocalAt i owner = true
  | .glancing _ => False
  | .waiting k => ∀ (n : Nat) (t : LoadTask), s.cluster.loads[n]? = some t → t.host = i → t.load.number = k →
      ∀ v, t.phase = .released (.returned (.ok v)) → new = [v]
  | .answered o => ∀ v, o = .ok v → closed ∨ new = [v]
  | _ => True

/-- What holds throughout a residence in which `new` has been produced after `old`. -/
structure Residing (i : Nat) (key : String) (closed : Nat → Prop) (old new : List ByteArray) (s : Paced) :
    Prop where
  wired : s.Wired
  produced : s.produced i key = new ++ old
  most : new.length ≤ 1
  holds : s.HoldsAt (fun k w => k = key → new = [w]) i
  kept : (s.inMain? i key).isSome ∨ s.HoldsAt (fun k _ => k ≠ key) i
  pending : new ≠ [] → (s.inMain? i key).isSome ∨ ∃ n t r v, s.cluster.loads[n]? = some t ∧
    t.isOf i key = true ∧ t.phase.rank = 1 ∧ s.reply? n = some r ∧ r.produced? = some v
  load : ∀ (n : Nat) (t : LoadTask), s.cluster.loads[n]? = some t → t.isOf i key = true →
    s.LoadOk i key new n t
  request : ∀ (r : Nat) (q : Request), s.cluster.requests[r]? = some q → q.host = i → q.key = key →
    s.RequestOk i new (closed r) q.phase

variable {closed : Nat → Prop} {old new : List ByteArray}

/-- A load that has asked for its value asks the backfill. -/
theorem Residing.asking (hs : s.Residing i key closed old new) {n : Nat} {t : LoadTask}
    (ht : s.cluster.loads[n]? = some t) (hof : t.isOf i key = true) (hr : t.phase.rank = 1) :
    ∃ source x, t.phase = .asking source x ∧ s.inMain? i key = none ∧
      ∀ r v, s.reply? n = some r → r.produced? = some v → new = [v] := by
  have hok := hs.load n t ht hof
  unfold LoadOk at hok
  cases hp : t.phase with
  | asking source x =>
    rw [hp] at hok
    exact ⟨source, x, rfl, hok⟩
  | fetching owner x q => rw [hp] at hok; exact hok.elim
  | queued | ended | released => rw [hp] at hr; cases hr

/-- No other load of the key flies. -/
theorem Residing.only (hs : s.Residing i key closed old new) {n k : Nat} {t t' : LoadTask}
    (ht : s.cluster.loads[n]? = some t) (ht' : s.cluster.loads[k]? = some t') (hof : t.isOf i key = true)
    (hof' : t'.isOf i key = true) (hf : t.phase.isFlying = true) (hf' : t'.phase.isFlying = true) : n = k := by
  rw [LoadTask.isOf_iff] at hof hof'
  exact hs.wired.flying_unique ht ht' hf hf' (hof.1.trans hof'.1.symm) (hof.2.trans hof'.2.symm)

/-- What a step stores under the key is the value that was produced, and there it is. -/
theorem Residing.stores (hs : s.Residing i key closed old new) (hp : s.Resident i key e) (h : s.Takes e u)
    {v : ByteArray} (hv : s.Stores i key v e) : new = [v] ∧ (u.inMain? i key).isSome ∧
      ∃ n now t, e = .settle n now ∧ s.cluster.loads[n]? = some t ∧ t.isOf i key = true ∧ t.phase.rank = 1 := by
  have hfit := hp.fits v (stored?_of_stores hv)
  cases e with
  | plain e =>
    cases e with
    | set j k w x now =>
      obtain ⟨rfl, rfl, rfl⟩ := hv
      have hunset := hp.undisturbed.unset
      simp [Event.sets] at hunset
    | _ => exact hv.elim
  | reply n r => exact hv.elim
  | settle n now =>
    obtain ⟨t, r, ht, hr, hi, hk, hv⟩ := hv
    have hof : t.isOf i key = true := LoadTask.isOf_iff.mpr ⟨hi, hk⟩
    cases h with
    | remove hrem => exact hrem.elim
    | @settle _ _ t₁ m r₁ g p ht₁ hm hr₁ hset =>
      obtain rfl := eq_of_getElem? ht ht₁
      obtain rfl : r = r₁ := Option.some.inj (hr.symm.trans hr₁)
      obtain ⟨source, x, hphase, -, hnew⟩ := hs.asking ht hof hset.rank.1
      have hrank := hset.rank.1
      suffices hboth : new = [v] ∧ (Paced.inMain? _ i key).isSome from
        ⟨hboth.1, hboth.2, n, now, _, rfl, ht, hof, hrank⟩
      cases hset with
      | fail ha hnone hg hc he =>
        rw [hnone] at hv
        cases hv
      | @store kind w y ha hkind hw =>
        obtain rfl : v = w := Option.some.inj (hv.symm.trans hw)
        rw [hphase] at ha hkind
        cases hkind
        refine ⟨hnew r v hr ((LoadReply.produced?_of_asking ha).trans hw), ?_⟩
        subst hi hk
        obtain ⟨m', hm', hadmits⟩ := exists_of_admits hfit
        obtain rfl := eq_of_getElem? hm hm'
        rw [inMain?_eq (getElem?_modify_eq_some.mpr ⟨m', hm, (if_pos rfl).symm⟩),
          (hs.holds m' hm).held?_store hadmits y now]
        rfl

/-- What is nowhere stays nowhere, unless a load of the key settles. -/
theorem Residing.kept_after (hs : s.Residing i key closed old new) (hp : s.Resident i key e)
    (h : s.Takes e (s.step e)) :
    ((s.step e).inMain? i key).isSome ∨ (s.step e).HoldsAt (fun k _ => k ≠ key) i := by
  rcases hs.kept with hsome | hnone
  · exact .inl (hp.undisturbed.stays hsome)
  · by_cases hstore : ∃ v, s.Stores i key v e
    · obtain ⟨v, hv⟩ := hstore
      exact .inl (hs.stores hp h hv).2.1
    · refine .inr (holds_after h hnone ?_)
      rintro k v hv rfl
      exact hstore ⟨v, hv⟩

/-- While a load of the key goes on asking, the key stays nowhere. -/
theorem Residing.inMain?_of_asking (hs : s.Residing i key closed old new) (hp : s.Resident i key e)
    (h : s.Takes e (s.step e)) {n : Nat} {t : LoadTask} (ht : s.cluster.loads[n]? = some t)
    (hof : t.isOf i key = true) (hf : t.phase.isFlying = true) (hnone : s.inMain? i key = none)
    (hother : ∀ now, e ≠ .settle n now) : (s.step e).inMain? i key = none := by
  have hlacks : s.HoldsAt (fun k _ => k ≠ key) i := by
    rcases hs.kept with hsome | hlacks
    · rw [hnone] at hsome
      cases hsome
    · exact hlacks
  refine HoldsAt.inMain?_eq_none (holds_after h hlacks ?_)
  rintro k v hv rfl
  obtain ⟨-, -, n', now, t', rfl, ht', hof', hrank⟩ := hs.stores hp h hv
  -- a load that stores flies, so it is the one that asks
  have hf' : t'.phase.isFlying = true := by
    unfold LoadPhase.isFlying
    rw [hrank]
    rfl
  obtain rfl := hs.only ht ht' hof hof' hf hf'
  exact hother now rfl

/-- A load that does not move stays as it should be. -/
theorem Residing.load_same (hs : s.Residing i key closed old new) (hp : s.Resident i key e)
    (h : s.Takes e (s.step e)) (hr : (s.step e).replies = s.replies) {n : Nat} {t : LoadTask}
    (ht : s.cluster.loads[n]? = some t) (ht' : (s.step e).cluster.loads[n]? = some t)
    (hof : t.isOf i key = true) : (s.step e).LoadOk i key new n t := by
  have hok := hs.load n t ht hof
  unfold LoadOk at hok ⊢
  cases hphase : t.phase with
  | queued =>
    rw [hphase] at hok
    show (s.step e).isLocalAt i t.load.owner = true
    rw [h.isLocalAt_eq]
    exact hok
  | asking source x =>
    rw [hphase] at hok
    refine ⟨hs.inMain?_of_asking hp h ht hof (by rw [hphase]; rfl) hok.1 ?_, ?_⟩
    · rintro now rfl
      obtain ⟨t₁, ht₁, htwo⟩ := h.settled
      obtain rfl := eq_of_getElem? ht' ht₁
      rw [hphase] at htwo
      cases htwo
    · unfold reply?
      rw [hr]
      exact hok.2
  | fetching owner x q => rw [hphase] at hok; exact hok.elim
  | ended e' =>
    rw [hphase] at hok
    exact fun v hv => (hok v hv).imp_right hp.undisturbed.stays
  | released e' => trivial

/-- A load that begins finds what was produced, or asks while nothing is there. -/
theorem Residing.load_begun {n : Nat} {now : Instant} (hs : s.Residing i key closed old new)
    (hp : s.Resident i key (.plain (.work n now)))
    (h : s.Takes (.plain (.work n now)) (s.step (.plain (.work n now))))
    (hr : (s.step (.plain (.work n now))).replies = s.replies) {t : LoadTask} {m : Member} {p : LoadPhase}
    (ht : s.cluster.loads[n]? = some t) (hm : s.cluster.members[t.host]? = some m)
    (hqueued : t.phase = .queued) (hb : m.Begins t.load now p) (hof : t.isOf i key = true) :
    (s.step (.plain (.work n now))).LoadOk i key new n { t with phase := p } := by
  have hok := hs.load n t ht hof
  obtain ⟨rfl, rfl⟩ := LoadTask.isOf_iff.mp hof
  unfold LoadOk at hok
  rw [hqueued] at hok
  replace hok : m.membership.isLocal t.load.owner = true := by rw [← isLocalAt_eq hm]; exact hok
  cases hb with
  | present hl hpeek =>
    rintro v ⟨⟩
    have hheld := (Option.filter_eq_some_iff.mp hpeek).1
    refine ⟨(hs.holds m hm).main.peek hpeek rfl, hp.undisturbed.stays ?_⟩
    rw [inMain?_eq hm]
    exact Option.isSome_of_eq_some hheld
  | sourceless hl hnone => rintro v ⟨⟩
  | ask hl hpeek hsource =>
    have hnone : s.inMain? t.host t.load.key = none := by
      cases hx : s.inMain? t.host t.load.key with
      | none => rfl
      | some x =>
        have hlive := hp.undisturbed.live x hx now (reads?_work ht now)
        rw [Tier.peek_of_held (by rw [← inMain?_eq hm, hx]) hlive] at hpeek
        cases hpeek
    refine ⟨hs.inMain?_of_asking hp h ht hof (by rw [hqueued]; rfl) hnone (by rintro _ ⟨⟩), ?_⟩
    -- no reply comes to a load that has not begun
    intro r v hr'
    unfold reply? at hr'
    rw [hr] at hr'
    have hbegun := hs.wired.rank_of_reply ht hr'
    rw [hqueued] at hbegun
    cases hbegun
  | fetch hl => rw [hok] at hl; cases hl

/-- Loads stay as they should be. -/
theorem Residing.load_after (hs : s.Residing i key closed old new) (hp : s.Resident i key e)
    (h : s.Takes e (s.step e)) (hr : (s.step e).replies = s.replies) {n : Nat} {t : LoadTask}
    (ht' : (s.step e).cluster.loads[n]? = some t) (hof : t.isOf i key = true) :
    (s.step e).LoadOk i key new n t := by
  cases h.load ht' with
  | same ht => exact hs.load_same hp h hr ht ht' hof
  | @start r now q m owner k hn hq hm hmiss hk =>
    rw [LoadTask.isOf_iff] at hof
    have hok := hs.request r q hq hof.1 hof.2
    rw [hmiss] at hok
    show (s.step _).isLocalAt i owner = true
    rw [h.isLocalAt_eq]
    exact hok
  | begin ht hm hqueued hb => exact hs.load_begun hp h hr ht hm hqueued hb hof
  | release ht hend => trivial
  | deliver ht hfetch =>
    have hok := hs.load n _ ht hof
    unfold LoadOk at hok
    rw [hfetch] at hok
    exact hok.elim
  | @settle now t m r g p ht hm hr' hset =>
    have hi : t.host = i := (LoadTask.isOf_iff.mp hof).1
    have hk : t.load.key = key := (LoadTask.isOf_iff.mp hof).2
    cases hset with
    | fail ha hv hg hc he => exact fun v hv => absurd hv (he v)
    | store ha hkind hv =>
      rintro w ⟨⟩
      obtain ⟨hnew, hthere, -⟩ := hs.stores hp h ⟨t, r, ht, hr', hi, hk, hv⟩
      exact ⟨hnew, hthere⟩

/-- Whoever waits will not be told another value. -/
theorem Residing.waiting_after (hs : s.Residing i key closed old new) (h : s.Takes e u) {r k : Nat}
    (hok : ∀ (n : Nat) (t : LoadTask), s.cluster.loads[n]? = some t → t.host = i → t.load.number = k →
      t.load.key = key ∧ ∀ v, t.phase = .released (.returned (.ok v)) → new = [v]) :
    u.RequestOk i new (closed r) (.waiting k) := by
  intro n t ht' hi hnum v hphase
  cases h.load ht' with
  | same ht => exact (hok n t ht hi hnum).2 v hphase
  | @release now t e ht hend =>
    cases hphase
    have hof : t.isOf i key = true := LoadTask.isOf_iff.mpr ⟨hi, (hok n t ht hi hnum).1⟩
    have hload := hs.load n t ht hof
    unfold LoadOk at hload
    rw [hend] at hload
    exact (hload v rfl).1
  | begin ht hm hqueued hb => cases hb <;> cases hphase
  | settle ht hm hr hset => cases hset <;> cases hphase
  | start => cases hphase
  | deliver => cases hphase

/-- A request that does not move stays as it should be. -/
theorem Residing.request_same (hs : s.Residing i key closed old new) (h : s.Takes e u) {r : Nat} {q : Request}
    (hq : s.cluster.requests[r]? = some q) (hi : q.host = i) (hk : q.key = key) :
    u.RequestOk i new (closed r) q.phase := by
  have hok := hs.request r q hq hi hk
  unfold RequestOk at hok ⊢
  cases hphase : q.phase with
  | looking owner | missed owner =>
    rw [hphase] at hok
    show u.isLocalAt i owner = true
    rw [h.isLocalAt_eq]
    exact hok
  | glancing owner => rw [hphase] at hok; exact hok.elim
  | waiting k =>
    rw [hphase] at hok
    refine hs.waiting_after (r := r) h fun n t ht hti hnum => ⟨?_, hok n t ht hti hnum⟩
    rw [hs.wired.key_of_waiting hq hphase ht (hti.trans hi.symm) hnum, hk]
  | answered o => rw [hphase] at hok; exact hok
  | arrived | asking | abandoned => trivial

/-- A request that moves finds what was produced, or goes on with the node itself for the owner. -/
theorem Residing.request_advanced {r : Nat} {now : Instant} (hs : s.Residing i key closed old new)
    (howned : s.owns i key = true) (h : s.Takes e u) {q : Request} {m : Member} {g : Group}
    {p : RequestPhase} (hq : s.cluster.requests[r]? = some q) (hm : s.cluster.members[q.host]? = some m)
    (hadv : m.Advances q.key now q.phase g p) (hi : q.host = i) (hk : q.key = key) :
    u.RequestOk i new (closed r) p := by
  subst hi hk
  have hok := hs.request r q hq rfl rfl
  unfold RequestOk at hok
  generalize q.phase = phase at hadv hok
  cases hadv with
  | accept hl => trivial
  | refuse hl => rintro v ⟨⟩
  | look =>
    show u.isLocalAt q.host _ = true
    rw [h.isLocalAt_eq, isLocalAt_eq hm, ← owns_eq hm]
    exact howned
  | find hprobe =>
    rintro v ⟨⟩
    exact .inr (((hs.holds m hm).probe _ q.key now).2 _ hprobe rfl)
  | lack hl hprobe =>
    show u.isLocalAt q.host _ = true
    rw [h.isLocalAt_eq, isLocalAt_eq hm]
    exact hl
  | turn hl hprobe =>
    replace hok : s.isLocalAt q.host _ = true := hok
    rw [isLocalAt_eq hm, hl] at hok
    cases hok
  | glance hglance => exact hok.elim
  | miss hglance => exact hok.elim
  | @join owner k c hsite hc =>
    refine hs.waiting_after (r := r) h fun n t ht hti hnum => ?_
    obtain ⟨n', t', ht', hh, hnum', hkey, hfly⟩ := hs.wired.site hm hsite
    obtain rfl := hs.wired.unique ht ht' (hti.trans hh.symm) (hnum.trans hnum'.symm)
    obtain rfl := eq_of_getElem? ht ht'
    refine ⟨hkey, fun v hv => ?_⟩
    rw [hv] at hfly
    cases hfly

/-- Requests stay as they should be. -/
theorem Residing.request_after (hs : s.Residing i key closed old new) (hp : s.Resident i key e)
    (h : s.Takes e u) {r : Nat} {q : Request} (hq' : u.cluster.requests[r]? = some q)
    (hi : q.host = i) (hk : q.key = key) : u.RequestOk i new (closed r) q.phase := by
  cases h.request hq' with
  | get | serve | deliver | abandon => trivial
  | same hq => exact hs.request_same h hq hi hk
  | advance hq hm hadv => exact hs.request_advanced hp.owned h hq hm hadv hi hk
  | @start now q m owner k hq hm hmiss hnext =>
    subst hi
    refine hs.waiting_after (r := r) h ?_
    intro n t ht hti hnum
    have hlt := hs.wired.number_lt (m := m) ht (by rw [hti]; exact hm)
    omega
  | @hear q k n t e' group hq hwait ht hh hnum hreleased =>
    have hok := hs.request r q hq hi hk
    rw [hwait] at hok
    intro v hv
    have hend : e' = .returned (.ok v) := by
      cases e' with
      | returned o => exact congrArg Ending.returned hv
      | panicked => cases hv
    exact .inr (hok n t ht (hh.trans hi) hnum v (by rw [hreleased, hend]))

theorem produced_eq (h : s.Takes e u) (hw : s.Wired) (hr : u.replies = s.replies) :
    u.produced i key = s.produced i key := by
  unfold produced
  rw [hr]
  apply List.filterMap_congr
  rintro ⟨n, r⟩ hm
  obtain ⟨t, ht, -⟩ := hw.replied n r hm
  obtain ⟨p, ht', -⟩ := h.load_forward ht
  simp only [ht, ht', Option.any_some, LoadTask.isOf]

/-- What has been produced is held, or still in the hands of the load. -/
theorem Residing.pending_after (hs : s.Residing i key closed old new) (hp : s.Resident i key e)
    (h : s.Takes e (s.step e)) (hr : (s.step e).replies = s.replies) (hnew : new ≠ []) :
    ((s.step e).inMain? i key).isSome ∨ ∃ n t r v, (s.step e).cluster.loads[n]? = some t ∧
      t.isOf i key = true ∧ t.phase.rank = 1 ∧ (s.step e).reply? n = some r ∧ r.produced? = some v := by
  rcases hs.pending hnew with hsome | ⟨n, t, r, v, ht, hof, hrank, hreply, hv⟩
  · exact .inl (hp.undisturbed.stays hsome)
  · obtain ⟨p, ht', -⟩ := h.load_forward ht
    generalize ({ t with phase := p } : LoadTask) = t' at ht'
    have hreply' : (s.step e).reply? n = some r := by
      unfold reply? at hreply ⊢
      rw [hr]
      exact hreply
    cases h.load ht' with
    | same ht₁ =>
      obtain rfl := eq_of_getElem? ht ht₁
      exact .inr ⟨n, t', r, v, ht', hof, hrank, hreply', hv⟩
    | deliver ht₁ hfetch =>
      obtain ⟨source, x, hasking, -⟩ := hs.asking ht hof hrank
      obtain rfl := eq_of_getElem? ht ht₁
      rw [hfetch] at hasking
      cases hasking
    | settle ht₁ hm hr₁ hset =>
      have hi := LoadTask.isOf_iff.mp hof
      exact .inl (hs.stores hp h ⟨t, r, ht, hreply, hi.1, hi.2, LoadReply.value?_of_produced? hv⟩).2.1
    | begin ht₁ hm hqueued hb =>
      obtain rfl := eq_of_getElem? ht ht₁
      rw [hqueued] at hrank
      cases hrank
    | release ht₁ hend =>
      obtain rfl := eq_of_getElem? ht ht₁
      rw [hend] at hrank
      cases hrank
    | start hn =>
      have hlt := (List.getElem?_eq_some_iff.mp ht).1
      omega

/-- When a backfill produces a value, nothing has been produced before. -/
theorem Residing.nothing (hs : s.Residing i key closed old new) {n : Nat} {t : LoadTask}
    (ht : s.cluster.loads[n]? = some t) (hof : t.isOf i key = true) (hrank : t.phase.rank = 1)
    (hnone : s.reply? n = none) : new = [] := by
  obtain ⟨source, x, -, habsent, -⟩ := hs.asking ht hof hrank
  by_contra hne
  rcases hs.pending hne with hsome | ⟨n', t', r', v', ht', hof', hrank', hr', -⟩
  · rw [habsent] at hsome
    cases hsome
  · -- no other load could have something in hand
    obtain rfl := hs.only ht ht' hof hof' (LoadPhase.isFlying_of_rank hrank) (LoadPhase.isFlying_of_rank hrank')
    rw [hnone] at hr'
    cases hr'

/-- A backfill produces a value for the key: it is the first. -/
theorem Residing.reply_value (hs : s.Residing i key closed old []) {n : Nat} {r : LoadReply} {t : LoadTask}
    {v : ByteArray} (ht : s.cluster.loads[n]? = some t) (hof : t.isOf i key = true)
    (hrank : t.phase.rank = 1) (hv : r.produced? = some v)
    (hw : Wired { s with replies := (n, r) :: s.replies }) :
    Residing i key closed old [v] { s with replies := (n, r) :: s.replies } := by
  have hself : reply? { s with replies := (n, r) :: s.replies } n = some r := by rw [reply?_cons, if_pos rfl]
  refine ⟨hw, ?_, Nat.le_refl 1, hs.holds.imp ?_, hs.kept,
    fun _ => .inr ⟨n, t, r, v, ht, hof, hrank, hself, hv⟩, ?_, ?_⟩
  · show List.filterMap _ ((n, r) :: s.replies) = v :: old
    rw [List.filterMap_cons_some (b := v)]
    · exact congrArg (v :: ·) hs.produced
    · simp only [ht, Option.any_some, hof, if_true, hv]
  · intro k w hk hkey
    cases hk hkey
  · intro n' t' ht' hof'
    have hok := hs.load n' t' ht' hof'
    unfold LoadOk at hok ⊢
    cases hphase : t'.phase with
    | asking source x =>
      rw [hphase] at hok
      refine ⟨hok.1, fun r' v' hr' hv' => ?_⟩
      rw [reply?_cons] at hr'
      split at hr'
      · cases hr'
        rw [Option.some.inj (hv.symm.trans hv')]
      · cases hok.2 r' v' hr' hv'
    | ended e =>
      rw [hphase] at hok
      intro w hw'
      cases (hok w hw').1
    | queued | fetching | released => rw [hphase] at hok; exact hok
  · intro r' q hq hi hk
    have hok := hs.request r' q hq hi hk
    unfold RequestOk at hok ⊢
    cases hphase : q.phase with
    | answered o =>
      rw [hphase] at hok
      intro w hw'
      rcases hok w hw' with hc | hne
      · exact .inl hc
      · cases hne
    | waiting k =>
      rw [hphase] at hok
      intro n' t' ht' hi' hk' w hw'
      cases hok n' t' ht' hi' hk' w hw'
    | looking | missed | glancing | arrived | asking | abandoned => rw [hphase] at hok; exact hok

/-- A reply without a value for the key comes. -/
theorem Residing.reply_other (hs : s.Residing i key closed old new) {n : Nat} {r : LoadReply} {t : LoadTask}
    (ht : s.cluster.loads[n]? = some t) (hnone : s.reply? n = none)
    (hno : t.isOf i key = true → r.produced? = none)
    (hw : Wired { s with replies := (n, r) :: s.replies }) :
    Residing i key closed old new { s with replies := (n, r) :: s.replies } := by
  refine ⟨hw, ?_, hs.most, hs.holds, hs.kept, ?_, ?_, hs.request⟩
  · show List.filterMap _ ((n, r) :: s.replies) = new ++ old
    rw [List.filterMap_cons_none]
    · exact hs.produced
    · simp only [ht, Option.any_some]
      split
      · next hof => exact hno hof
      · rfl
  · intro hne
    rcases hs.pending hne with hsome | ⟨n', t', r', v', ht', hof', hrank', hr', hv'⟩
    · exact .inl hsome
    · have hne' : n' ≠ n := by
        rintro rfl
        rw [hnone] at hr'
        cases hr'
      exact .inr ⟨n', t', r', v', ht', hof', hrank', by rw [reply?_cons, if_neg hne']; exact hr', hv'⟩
  · intro n' t' ht' hof'
    have hok := hs.load n' t' ht' hof'
    unfold LoadOk at hok ⊢
    cases hphase : t'.phase with
    | asking source x =>
      rw [hphase] at hok
      refine ⟨hok.1, fun r' v' hr' hv' => ?_⟩
      rw [reply?_cons] at hr'
      split at hr'
      · next hn =>
        subst hn
        obtain rfl := eq_of_getElem? ht ht'
        cases hr'
        rw [hno hof'] at hv'
        cases hv'
      · exact hok.2 r' v' hr' hv'
    | queued | fetching | ended | released => rw [hphase] at hok; exact hok

theorem Residing.step (hs : s.Residing i key closed old new) (hp : s.Resident i key e)
    (h : s.Takes e (s.step e)) : ∃ new', (s.step e).Residing i key closed old new' := by
  have hw := hs.wired.step h
  rcases h.replies with hr | ⟨n, r, t, rfl, ht, ha, hnone, -⟩
  · refine ⟨new, hw, (produced_eq h hs.wired hr).trans hs.produced, hs.most, ?_, hs.kept_after hp h,
      hs.pending_after hp h hr, fun n t ht hof => hs.load_after hp h hr ht hof,
      fun r q hq hi hk => hs.request_after hp h hq hi hk⟩
    refine holds_after h hs.holds ?_
    rintro k v hv rfl
    exact (hs.stores hp h hv).1
  · rw [h.reply_eq] at hw ⊢
    by_cases hmade : t.isOf i key = true ∧ ∃ v, r.produced? = some v
    · obtain ⟨hof, v, hv⟩ := hmade
      obtain rfl := hs.nothing ht hof (LoadPhase.awaits_rank ha) hnone
      exact ⟨[v], hs.reply_value ht hof (LoadPhase.awaits_rank ha) hv hw⟩
    · refine ⟨new, hs.reply_other ht hnone (fun hof => ?_) hw⟩
      rw [Option.eq_none_iff_forall_ne_some]
      exact fun v hv => hmade ⟨hof, v, hv⟩

/-! ## The residence -/

/-- A request has been closed. -/
def Closed (s : Paced) (r : Nat) : Prop :=
  ∃ q : Request, s.cluster.requests[r]? = some q ∧ q.phase.isOpen = false

theorem Cold.residing (hs : s.Reachable) (hc : s.Cold i key) :
    s.Residing i key s.Closed (s.produced i key) [] := by
  have hlacks := hc.lacks.holds (hs.holds i)
  refine ⟨hs.wired, rfl, Nat.zero_le 1, hlacks.imp fun k v hk he => absurd he hk, .inr hlacks,
    fun h => absurd rfl h, ?_, ?_⟩
  · intro n t ht hof
    have hcold := hc.load n t ht hof
    unfold LoadOk
    rcases t with ⟨host, l, phase⟩
    cases phase with
    | queued => exact hcold
    | asking source x =>
      refine ⟨hlacks.inMain?_eq_none, fun r v hr hv => ?_⟩
      rw [hcold r hr] at hv
      cases hv
    | fetching owner x q => exact hcold
    | ended e => exact fun v hv => absurd hv (hcold v)
    | released e => trivial
  · intro r q hq hi hk
    have hcold := hc.request r q hq hi hk
    unfold RequestOk
    cases hphase : q.phase with
    | answered o => exact fun v _ => .inl ⟨q, hq, by rw [hphase]; rfl⟩
    | waiting k =>
      rw [hphase] at hcold
      exact fun n t ht hti hnum v hv => absurd hv (hcold n t ht hti hnum v)
    | looking | missed | glancing | arrived | asking | abandoned => rw [hphase] at hcold; exact hcold

/-- A cluster in which nothing has happened is cold. -/
theorem cold_start (founders : List Founder) (i : Nat) (key : String) : (start founders).Cold i key := by
  constructor
  · intro m hm kind x hx
    obtain ⟨a, -, rfl⟩ := List.mem_map.mp (List.mem_of_getElem? hm)
    have hnone := (Group.holds_create (fun _ _ => False) a.config).tier kind
    exact (hnone.all x hx).elim
  · rintro n t ⟨⟩
  · rintro r q ⟨⟩

/-- **One backfill for each residence.**  From a cold state on, as long as the residence of the key
lasts, its backfills produce one value at most; a get that was open, or begins since, is answered with
this value if with any; and once the key is in the main tier it stays there, and no load of it asks. -/
theorem one_backfill {after : List Event} (hs : s.Reachable) (hcold : s.Cold i key)
    (hafter : Along step (Resident i key) s after) :
    let w := s.run after
    ∃ new, w.produced i key = new ++ s.produced i key ∧ new.length ≤ 1 ∧
      (∀ (r : Nat) (q : Request) v, w.cluster.requests[r]? = some q → q.host = i → q.key = key →
        q.phase = .answered (.ok v) → s.Closed r ∨ new = [v]) ∧
      ∀ as bs, after = as ++ bs → ((s.run as).inMain? i key).isSome → (w.inMain? i key).isSome ∧
        ∀ (n : Nat) (t : LoadTask), w.cluster.loads[n]? = some t → t.host = i → t.load.key = key →
          t.phase.isAsking = false := by
  intro w
  have hresides : ∃ new, w.Residing i key s.Closed (s.produced i key) new :=
    keeps (I := fun u => ∃ new, u.Residing i key s.Closed (s.produced i key) new)
      (fun ⟨_, hi⟩ hp h => hi.step hp h) ⟨[], hcold.residing hs⟩ hafter
  obtain ⟨new, hw⟩ := hresides
  refine ⟨new, hw.produced, hw.most, ?_, ?_⟩
  · intro r q v hq hi hk hp
    have hok := hw.request r q hq hi hk
    rw [hp] at hok
    exact hok v rfl
  · rintro as bs rfl hsome
    rw [along_append] at hafter
    have hthere : (w.inMain? i key).isSome := by
      have hlater : ((s.run as).run bs).inMain? i key |>.isSome :=
        keeps (I := fun u => (u.inMain? i key).isSome) (fun hi hp _ => hp.undisturbed.stays hi) hsome hafter.2
      rw [← run_append] at hlater
      exact hlater
    refine ⟨hthere, fun n t ht hi hk => ?_⟩
    have hok := hw.load n t ht (LoadTask.isOf_iff.mpr ⟨hi, hk⟩)
    unfold LoadOk at hok
    cases hp : t.phase with
    | asking source x =>
      rw [hp] at hok
      rw [hok.1] at hthere
      cases hthere
    | queued | fetching | ended | released => rfl

/-- Two callers miss.  The load of the first has come and gone when the other one starts its own. -/
def lateCaller : List Event :=
  [.plain (.get 0 "k"), .plain (.get 0 "k"), .plain (.advance 0 ⟨1⟩), .plain (.advance 0 ⟨2⟩),
    .plain (.advance 1 ⟨3⟩), .plain (.advance 1 ⟨4⟩), .plain (.advance 0 ⟨5⟩), .plain (.work 0 ⟨6⟩),
    .reply 0 (.backfill (.value ⟨#[0]⟩)), .settle 0 ⟨7⟩, .plain (.work 0 ⟨8⟩), .plain (.hear 0),
    .plain (.advance 1 ⟨9⟩), .plain (.work 1 ⟨10⟩), .plain (.work 1 ⟨11⟩), .plain (.hear 1)]

theorem one_backfill_for_late_caller :
    let s := start twoOwners
    let w := s.run lateCaller
    (s.Cold 0 "k" ∧ Along step (Resident 0 "k") s lateCaller) ∧
    ∃ new, w.produced 0 "k" = new ++ s.produced 0 "k" ∧ new.length ≤ 1 ∧
      (∀ (r : Nat) (q : Request) v, w.cluster.requests[r]? = some q → q.host = 0 → q.key = "k" →
        q.phase = .answered (.ok v) → s.Closed r ∨ new = [v]) ∧
      ∀ as bs, lateCaller = as ++ bs → ((s.run as).inMain? 0 "k").isSome → (w.inMain? 0 "k").isSome ∧
        ∀ (n : Nat) (t : LoadTask), w.cluster.loads[n]? = some t → t.host = 0 → t.load.key = "k" →
          t.phase.isAsking = false := by
  have h : decide (Along step (Resident 0 "k") (start twoOwners) lateCaller) = true := by
    rw [twoOwners_eq]
    cbv
  have hafter := of_decide_eq_true h
  have hcold := cold_start twoOwners 0 "k"
  exact ⟨⟨hcold, hafter⟩, one_backfill ⟨twoOwners, [], rfl⟩ hcold hafter⟩

end Paced

end PeerCache
