import Mathlib
import PeerCache.Proofs.Cluster.Endings
import PeerCache.Proofs.Wire.Errors

/-!
# What errors are about

Every error that a request is answered with is about the key that was asked for, in the group of its
node, as far as it names one: so with each error that a load ends with, and each that a fetch comes
back with (`Paced.Pertinent`).  This holds of every run in which fetches bring errors about their own
keys only (`errors_concern`), as those over the wire do (`PeerRequest.fetchOutcome_concerns`).
-/

namespace PeerCache.Paced

variable {s u : Paced} {e : Event}

/-- If a fetch comes back with an error, it is one about its key. -/
def Pertains (s : Paced) : Event → Prop
  | .reply n (.fetch (.returned (.error x))) => ∀ (t : LoadTask) (m : Member),
      s.cluster.loads[n]? = some t → s.cluster.members[t.host]? = some m →
        x.Concerns m.group.name t.load.key
  | _ => True

/-- All errors that are there are about the keys that they came up for. -/
structure Pertinent (s : Paced) : Prop where
  answer : ∀ (r : Nat) (q : Request) (m : Member) (x : Error), s.cluster.requests[r]? = some q →
    s.cluster.members[q.host]? = some m → q.phase = .answered (.error x) → x.Concerns m.group.name q.key
  ending : ∀ (n : Nat) (t : LoadTask) (m : Member) (x : Error), s.cluster.loads[n]? = some t →
    s.cluster.members[t.host]? = some m → t.phase.ending? = some (.returned (.error x)) →
      x.Concerns m.group.name t.load.key
  reply : ∀ (n : Nat) (t : LoadTask) (m : Member) (x : Error), s.cluster.loads[n]? = some t →
    s.cluster.members[t.host]? = some m → s.reply? n = some (.fetch (.returned (.error x))) →
      x.Concerns m.group.name t.load.key

/-- What callers are told of a load is about its key if its ending is. -/
theorem outcome_concerns {x : Ending} {err : Error} {name key : String} (group : String)
    (h : ∀ err, x = .returned (.error err) → err.Concerns name key) (ho : x.outcome group key = .error err) :
    err.Concerns name key := by
  cases x with
  | returned o => exact h err (congrArg Ending.returned ho)
  | panicked => cases ho; trivial

namespace Pertinent

theorem answer_after (hs : s.Pertinent) (hw : s.Wired) (h : s.Takes e u) {r : Nat} {q : Request}
    {m : Member} {x : Error} (hq' : u.cluster.requests[r]? = some q)
    (hm' : u.cluster.members[q.host]? = some m) (hp : q.phase = .answered (.error x)) :
    x.Concerns m.group.name q.key := by
  obtain ⟨a, ha, -, hname⟩ := (h.member hm').before
  rw [hname]
  cases h.request hq' with
  | same hq => exact hs.answer r q a x hq ha hp
  | get | serve | deliver | start | abandon => cases hp
  | @hear q k n t y group hq hwait ht hh hnum hreleased =>
    have hkey := hw.key_of_waiting hq hwait ht hh hnum
    replace hp : y.outcome group t.load.key = .error x := RequestPhase.answered.inj hp
    rw [hkey] at hp
    refine outcome_concerns group (fun err hy => ?_) hp
    have hending := hs.ending n t a err ht (by rw [hh]; exact ha) (by rw [hreleased, hy]; rfl)
    rwa [hkey] at hending
  | @advance now q b g phase hq hm hadv =>
    obtain rfl := eq_of_getElem? ha hm
    replace hp : phase = .answered (.error x) := hp
    subst hp
    generalize q.phase = before at hadv
    cases hadv with
    | refuse => exact ⟨rfl, rfl⟩

theorem ending_after (hs : s.Pertinent) (h : s.Takes e (s.step e)) {n : Nat} {t : LoadTask} {m : Member}
    {x : Error} (ht' : (s.step e).cluster.loads[n]? = some t)
    (hm' : (s.step e).cluster.members[t.host]? = some m)
    (hend : t.phase.ending? = some (.returned (.error x))) : x.Concerns m.group.name t.load.key := by
  obtain ⟨a, ha, -, hname⟩ := (h.member hm').before
  obtain ⟨t₀, ht, hh, hl, hcases⟩ := h.ending_cases ht' hend
  rw [hname]
  rcases hcases with hbefore | ⟨v, hv⟩ | ⟨b, hb, hsource⟩
  · rw [hl]
    exact hs.ending n t₀ a x ht (hh ▸ ha) hbefore
  · cases hv
  · obtain rfl := eq_of_getElem? hb ha
    rcases hsource with hnone | ⟨r, hr, hreply⟩
    · cases hnone
      rfl
    · rcases r with (v | _ | text | _) | y
      · cases hreply
      · cases hreply
        exact ⟨rfl, rfl⟩
      · cases hreply
        exact ⟨rfl, rfl⟩
      · cases hreply
      · obtain rfl : Ending.returned (.error x) = y := hreply
        rw [hl]
        exact hs.reply n t₀ a x ht (hh ▸ ha) hr

theorem reply_after (hs : s.Pertinent) (hw : s.Wired) (hp : s.Pertains e) (h : s.Takes e u) {n : Nat}
    {t : LoadTask} {m : Member} {x : Error} (ht : u.cluster.loads[n]? = some t)
    (hm' : u.cluster.members[t.host]? = some m) (hr : u.reply? n = some (.fetch (.returned (.error x)))) :
    x.Concerns m.group.name t.load.key := by
  obtain ⟨a, ha, -, hname⟩ := (h.member hm').before
  rw [hname]
  rcases h.reply_cases hr with hr | rfl
  · obtain ⟨t₀, ht₀⟩ := hw.load_of_reply hr
    obtain ⟨hh, hl⟩ := h.load_eq ht₀ ht
    rw [hl]
    exact hs.reply n t₀ a x ht₀ (hh ▸ ha) hr
  · cases h with
    | reply ht₀ => exact hp t a ht ha
    | remove hrem => exact hrem.elim

theorem step (hs : s.Pertinent) (hw : s.Wired) (hp : s.Pertains e) (h : s.Takes e (s.step e)) :
    (s.step e).Pertinent where
  answer _ _ _ _ := hs.answer_after hw h
  ending _ _ _ _ := hs.ending_after h
  reply _ _ _ _ := hs.reply_after hw hp h

end Pertinent

/-- **Errors are about the keys that were asked for.**  Whatever happens to a cluster, as long as fetches
bring errors about their own keys only. -/
theorem errors_concern {founders : List Founder} {es : List Event}
    (h : Along step Pertains (start founders) es) : ((start founders).run es).Pertinent := by
  have hstart : (start founders).Pertinent := by
    constructor
    case answer => intro r q m x hq; cases hq
    case ending => intro n t m x ht; cases ht
    case reply => intro n t m x ht; cases ht
  exact (keeps (I := fun s => s.Pertinent ∧ s.Wired) (fun ⟨hs, hw⟩ hp ht => ⟨hs.step hw hp ht, hw.step ht⟩)
    ⟨hstart, wired_start founders⟩ h).1

end PeerCache.Paced
