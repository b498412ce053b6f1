import Mathlib
import PeerCache.Proofs.Cluster.OneHop

/-!
# How loads end

A load ends where it begins, with a value or without a source, or as the reply that has come to it
says (`Takes.ending_cases`); from then on it keeps its ending.  What it is about is settled when a get
that has missed starts it (`Takes.load_before`).
-/

namespace PeerCache

/-- The ending of a load whose reply this is. -/
def LoadReply.ending (group key : String) : LoadReply → Ending
  | backfill (.value v) => .returned (.ok v)
  | backfill .missing => .returned (.error (.itemNotFound group key))
  | backfill (.failed text) => .returned (.error (.backfill group key text))
  | backfill .panicked => .panicked
  | fetch e => e

theorem Ending.eq_of_outcome {x : Ending} {group key : String} {v : ByteArray}
    (h : x.outcome group key = .ok v) : x = .returned (.ok v) := by
  cases x with
  | returned o => exact congrArg Ending.returned h
  | panicked => cases h

theorem Member.settleReply?_eq {m : Member} {t : LoadTask} {r : LoadReply} (now : Instant)
    (ha : t.phase.awaits r = true) :
    ∃ g, m.settleReply? t r now = some (g, .ended (r.ending m.group.name t.load.key)) := by
  unfold settleReply?
  cases hp : t.phase with
  | asking source x =>
    rw [hp] at ha
    cases r with
    | backfill a => cases a <;> exact ⟨_, rfl⟩
    | fetch e => cases ha
  | fetching owner x q =>
    rw [hp] at ha
    cases r with
    | backfill a => cases ha
    | fetch e => rcases e with (err | v) | _ <;> exact ⟨_, rfl⟩
  | queued | ended | released => rw [hp] at ha; cases ha

namespace Paced

variable {s u : Paced} {e : Event} {n : Nat} {t : LoadTask}

/-! ## Replies -/

/-- The reply of a load stays what it is, but for the step in which it comes. -/
theorem Takes.reply_eq_or (h : s.Takes e u) (n : Nat) : u.reply? n = s.reply? n ∨
    ∃ r, e = .reply n r ∧ s.reply? n = none ∧ u.reply? n = some r := by
  rcases h.replies with heq | ⟨k, r, -, rfl, -, -, hnone, heq⟩
  · left
    unfold reply?
    rw [heq]
  · have hcons : u.reply? n = if n = k then some r else s.reply? n := by
      rw [← reply?_cons s k r n]
      unfold reply?
      rw [heq]
    by_cases hnk : n = k
    · subst hnk
      exact .inr ⟨r, rfl, hnone, hcons.trans (if_pos rfl)⟩
    · exact .inl (hcons.trans (if_neg hnk))

/-- A load keeps its reply, and gets it when it comes. -/
theorem Takes.reply_cases (h : s.Takes e u) {r : LoadReply} (hr : u.reply? n = some r) :
    s.reply? n = some r ∨ e = .reply n r := by
  rcases h.reply_eq_or n with heq | ⟨r', rfl, -, heq⟩
  · exact .inl (heq.symm.trans hr)
  · obtain rfl := Option.some.inj (heq.symm.trans hr)
    exact .inr rfl

theorem Takes.reply_forward (h : s.Takes e u) {r : LoadReply} (hr : s.reply? n = some r) :
    u.reply? n = some r := by
  rcases h.reply_eq_or n with heq | ⟨-, -, hnone, -⟩
  · exact heq.trans hr
  · rw [hnone] at hr
    cases hr

/-- A reply is that of a load. -/
theorem Wired.load_of_reply (hs : s.Wired) {r : LoadReply} (hr : s.reply? n = some r) :
    ∃ t, s.cluster.loads[n]? = some t := by
  obtain ⟨as, bs, he, -⟩ := List.lookup_eq_some_iff.mp hr
  obtain ⟨t, ht, -⟩ := hs.replied n r (by rw [he]; exact List.mem_append_right _ List.mem_cons_self)
  exact ⟨t, ht⟩

/-! ## Loads -/

/-- A load has been there before the step, or a get of its key that has missed starts it. -/
theorem Takes.load_before (h : s.Takes e u) (ht : u.cluster.loads[n]? = some t) :
    (∃ t₀, s.cluster.loads[n]? = some t₀ ∧ t.host = t₀.host ∧ t.load = t₀.load) ∨
      n = s.cluster.loads.length ∧ ∃ (r : Nat) (q : Request),
        s.cluster.requests[r]? = some q ∧ q.key = t.load.key ∧ q.phase = .missed t.load.owner := by
  have hload := h.load ht
  cases ht₀ : s.cluster.loads[n]? with
  | some t₀ =>
    obtain ⟨hh, hl, -⟩ := hload.forward ht₀
    exact .inl ⟨t₀, rfl, hh, hl⟩
  | none =>
    right
    cases hload with
    | start hn hq hm hp hk => exact ⟨hn, _, _, hq, rfl, hp⟩
    | same hs | begin hs | release hs | deliver hs | settle hs => rw [ht₀] at hs; cases hs

/-- A load stays at its node and what it is. -/
theorem Takes.load_eq (h : s.Takes e u) {t₀ : LoadTask} (ht₀ : s.cluster.loads[n]? = some t₀)
    (ht : u.cluster.loads[n]? = some t) : t.host = t₀.host ∧ t.load = t₀.load := by
  obtain ⟨hh, hl, -⟩ := (h.load ht).forward ht₀
  exact ⟨hh, hl⟩

/-- A load that is released stays as it is. -/
theorem Takes.load_released (h : s.Takes e u) (ht : s.cluster.loads[n]? = some t)
    (hf : t.phase.isFlying = false) : u.cluster.loads[n]? = some t := by
  obtain ⟨p, ht', -⟩ := h.load_forward ht
  generalize { t with phase := p } = t' at ht'
  rw [ht']
  cases h.load ht' with
  | same ht₁ => exact ht₁.symm.trans ht
  | start hn =>
    subst hn
    rw [List.getElem?_eq_none (Nat.le_refl _)] at ht
    cases ht
  | begin ht₁ hm hp | release ht₁ hp | deliver ht₁ hp =>
    obtain rfl := eq_of_getElem? ht ht₁
    rw [hp] at hf
    cases hf
  | settle ht₁ hm hr hset =>
    obtain rfl := eq_of_getElem? ht ht₁
    rw [LoadPhase.isFlying_of_rank hset.rank.1] at hf
    cases hf

/-! ## Endings -/

/-- A load that settles ends with what its reply says. -/
theorem load_settled {m : Member} {r : LoadReply} (now : Instant) (ht : s.cluster.loads[n]? = some t)
    (hm : s.cluster.members[t.host]? = some m) (hr : s.reply? n = some r) (ha : t.phase.awaits r = true) :
    (s.step (.settle n now)).cluster.loads[n]? =
      some { t with phase := .ended (r.ending m.group.name t.load.key) } := by
  obtain ⟨g, hg⟩ := Member.settleReply?_eq (m := m) now ha
  have hstep : s.step? (.settle n now) = some (s.on ((s.cluster.setGroup t.host g).setLoad n
      (.ended (r.ending m.group.name t.load.key)))) := by
    simp [step?, settle?, ht, hm, hr, hg]
  rw [step_eq hstep]
  exact getElem?_modify_eq_some.mpr ⟨t, ht, (if_pos rfl).symm⟩

/-- **Everything that a load can end with**: what it has ended with before, a value, the want of a
source, or what its reply says. -/
theorem Takes.ending_cases (h : s.Takes e (s.step e)) {x : Ending}
    (ht' : (s.step e).cluster.loads[n]? = some t) (hend : t.phase.ending? = some x) :
    ∃ t₀, s.cluster.loads[n]? = some t₀ ∧ t.host = t₀.host ∧ t.load = t₀.load ∧
      (t₀.phase.ending? = some x ∨ (∃ v, x = .returned (.ok v)) ∨
        ∃ m, s.cluster.members[t.host]? = some m ∧ (x = .returned (.error (.noBackfill m.group.name)) ∨
          ∃ r, s.reply? n = some r ∧ x = r.ending m.group.name t.load.key)) := by
  cases h.load ht' with
  | same ht => exact ⟨t, ht, rfl, rfl, .inl hend⟩
  | start | deliver => cases hend
  | release ht hp => exact ⟨_, ht, rfl, rfl, .inl (by rw [hp]; exact hend)⟩
  | begin ht hm hq hb =>
    refine ⟨_, ht, rfl, rfl, .inr ?_⟩
    cases hb with
    | present => cases hend; exact .inl ⟨_, rfl⟩
    | sourceless => cases hend; exact .inr ⟨_, hm, .inl rfl⟩
    | ask | fetch => cases hend
  | @settle now t m r g p ht hm hr hset =>
    have hawaits : t.phase.awaits r = true := by
      cases hset with
      | store ha => exact ha
      | fail ha => exact ha
    have hload := load_settled now ht hm hr hawaits
    rw [ht'] at hload
    obtain rfl : p = .ended (r.ending m.group.name t.load.key) := congrArg LoadTask.phase (Option.some.inj hload)
    exact ⟨t, ht, rfl, rfl, .inr (.inr ⟨m, hm, .inr ⟨r, hr, (Option.some.inj hend).symm⟩⟩)⟩

end Paced

end PeerCache
