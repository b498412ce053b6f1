import Mathlib
import PeerCache.Proofs.Cluster.Basic
import PeerCache.Proofs.Lists

/-!
# Requests that nothing comes between

A request takes up to five steps until it is answered or waits.  If they follow each other, they
come to what `Group.get` and `Group.servePeer` do at once, so the steps of a cluster take these two
apart and add nothing to them.

Main statement: `run_advances`.
-/

namespace PeerCache

namespace Cluster

variable {s : Cluster} {r : Nat} {q : Request} {m : Member} {now : Instant}

/-! ## A request and its node -/

/-- A request has come to `p`, and the group of its node to `g`. -/
def place (s : Cluster) (r host : Nat) (g : Group) (p : RequestPhase) : Cluster :=
  (s.setGroup host g).setRequest r p

/-- How a cluster stands when a group has done at once all that a request can do. -/
def begun (s : Cluster) (r host : Nat) : Group × Begun → Cluster
  | (g, .answer o) => s.place r host g (.answered o)
  | (g, .waiting n none) => s.place r host g (.waiting n)
  | (g, .waiting n (some l)) => (s.place r host g (.waiting n)).addLoad { host, load := l }

theorem place_self (hq : s.requests[r]? = some q) (hm : s.members[q.host]? = some m) :
    s.place r q.host m.group q.phase = s := by
  unfold place setGroup setRequest
  simp only [modify_eq_self hm, modify_eq_self hq]

theorem request_place (hq : s.requests[r]? = some q) (g : Group) (p : RequestPhase) :
    (s.place r q.host g p).requests[r]? = some { q with phase := p } :=
  getElem?_modify_eq_some.mpr ⟨q, hq, (if_pos rfl).symm⟩

/-- A step of a request that has brought the group of its node to `g`. -/
theorem step_place (hq : s.requests[r]? = some q) (hm : s.members[q.host]? = some m) {g g' : Group}
    {p p' : RequestPhase} {started : Option Load}
    (h : Member.advance? { m with group := g } { q with phase := p } now = some (g', p', started)) :
    (s.place r q.host g p).step? (.advance r now) =
      some (match started with
        | some l => (s.place r q.host g' p').addLoad { host := q.host, load := l }
        | none => s.place r q.host g' p') := by
  have hm' : (s.place r q.host g p).members[q.host]? = some { m with group := g } :=
    getElem?_modify_eq_some.mpr ⟨m, hm, (if_pos rfl).symm⟩
  have hset : ((s.place r q.host g p).setGroup q.host g').setRequest r p' = s.place r q.host g' p' := by
    unfold place setGroup setRequest
    simp only [List.modify_modify_eq]
    rfl
  show (s.place r q.host g p).advance? r now = _
  unfold advance?
  simp only [request_place hq, hm', Option.bind_eq_bind, Option.bind_some, h, hset]
  cases started <;> rfl

/-! ## One step after the other -/

/-- The steps of one request. -/
def advances (r : Nat) (now : Instant) (n : Nat) : List Event := List.replicate n (.advance r now)

theorem run_place (hq : s.requests[r]? = some q) (hm : s.members[q.host]? = some m) {g g' : Group}
    {p p' : RequestPhase} (n : Nat)
    (h : Member.advance? { m with group := g } { q with phase := p } now = some (g', p', none)) :
    (s.place r q.host g p).run (advances r now (n + 1)) =
      (s.place r q.host g' p').run (advances r now n) := by
  show ((step? _ _).getD _).run _ = _
  rw [step_place hq hm h]
  rfl

/-- A request that is answered or waits goes no further by itself. -/
theorem run_begun (hq : s.requests[r]? = some q) (b : Group × Begun) (now : Instant) (n : Nat) :
    (s.begun r q.host b).run (advances r now n) = s.begun r q.host b := by
  have hstop : (s.begun r q.host b).step? (.advance r now) = none := by
    show advance? _ r now = none
    obtain ⟨g, o | ⟨k, - | l⟩⟩ := b
    all_goals
      simp only [begun, addLoad, advance?, request_place hq, Option.bind_eq_bind, Option.bind_some]
      simp [Member.advance?]
  induction n with
  | zero => rfl
  | succ n ih =>
    show ((step? _ _).getD _).run _ = _
    rw [hstop]
    exact ih

/-- A get that has found nothing asks the coordinator. -/
theorem run_join (hq : s.requests[r]? = some q) (hm : s.members[q.host]? = some m) (g : Group)
    (owner : Peer) (n : Nat) : (s.place r q.host g (.missed owner)).run (advances r now (n + 1)) =
      s.begun r q.host (g.join q.key owner) := by
  rw [← run_begun hq (g.join q.key owner) now n]
  show ((step? _ _).getD _).run _ = _
  generalize hj : g.join q.key owner = b
  obtain ⟨g', o | ⟨k, started⟩⟩ := b
  · have h : Member.advance? { m with group := g } { q with phase := .missed owner } now =
        some (g', .answered o, none) := by
      simp only [Member.advance?, hj]
    rw [step_place hq hm h]
    rfl
  · have h : Member.advance? { m with group := g } { q with phase := .missed owner } now =
        some (g', .waiting k, started) := by
      simp only [Member.advance?, hj]
    rw [step_place hq hm h]
    cases started <;> rfl

/-- A get that nothing comes between is `Group.get`: the same group, and the same answer or load. -/
theorem run_get (hq : s.requests[r]? = some q) (hm : s.members[q.host]? = some m) (g : Group)
    (now : Instant) (n : Nat) :
    (s.place r q.host g .asking).run (advances r now (n + 4)) =
      s.begun r q.host (g.get m.membership q.key now) := by
  have h : Member.advance? { m with group := g } { q with phase := .asking } now =
      some (g.countGet, .looking (m.membership.ownerOf q.key), none) := rfl
  rw [run_place hq hm (n + 3) h]
  unfold Group.get Group.lookup Group.lookupTiers
  simp only
  generalize m.membership.ownerOf q.key = owner
  generalize hprobe : g.countGet.probe (Group.home (m.membership.isLocal owner)) q.key now = found
  obtain ⟨g', - | v⟩ := found
  · cases hlocal : m.membership.isLocal owner with
    | true =>
      have h : Member.advance? { m with group := g.countGet } { q with phase := .looking owner } now =
          some (g'.countMiss, .missed owner, none) := by
        simp only [Member.advance?, hprobe]
        rw [if_pos hlocal]
      rw [run_place hq hm (n + 2) h]
      exact run_join hq hm g'.countMiss owner (n + 1)
    | false =>
      have h : Member.advance? { m with group := g.countGet } { q with phase := .looking owner } now =
          some (g', .glancing owner, none) := by
        simp only [Member.advance?, hprobe]
        rw [if_neg (Bool.eq_false_iff.mp hlocal)]
      rw [run_place hq hm (n + 2) h]
      cases hglance : g'.glance q.key now with
      | some v =>
        have h : Member.advance? { m with group := g' } { q with phase := .glancing owner } now =
            some (g'.countHit, .answered (.ok v), none) := by
          simp only [Member.advance?, hglance]
        rw [run_place hq hm (n + 1) h]
        simp only [hglance]
        exact run_begun hq (g'.countHit, .answer (.ok v)) now (n + 1)
      | none =>
        have h : Member.advance? { m with group := g' } { q with phase := .glancing owner } now =
            some (g'.countMiss, .missed owner, none) := by
          simp only [Member.advance?, hglance]
        rw [run_place hq hm (n + 1) h]
        simp only [hglance]
        exact run_join hq hm g'.countMiss owner n
  · have h : Member.advance? { m with group := g.countGet } { q with phase := .looking owner } now =
        some (g'.countHit, .answered (.ok v), none) := by
      simp only [Member.advance?, hprobe]
    rw [run_place hq hm (n + 2) h]
    exact run_begun hq (g'.countHit, .answer (.ok v)) now (n + 2)

/-- A request of another node that nothing comes between is `Group.servePeer`. -/
theorem run_servePeer (hq : s.requests[r]? = some q) (hm : s.members[q.host]? = some m) (g : Group)
    (now : Instant) (n : Nat) :
    (s.place r q.host g .arrived).run (advances r now (n + 5)) =
      s.begun r q.host (g.servePeer m.membership q.key now) := by
  unfold Group.servePeer
  generalize haccept : g.accept m.membership q.key = a
  obtain ⟨g', - | e⟩ := a
  · have h : Member.advance? { m with group := g } { q with phase := .arrived } now =
        some (g', .asking, none) := by
      simp only [Member.advance?, haccept]
    rw [run_place hq hm (n + 4) h]
    exact run_get hq hm g' now n
  · have h : Member.advance? { m with group := g } { q with phase := .arrived } now =
        some (g', .answered (.error e), none) := by
      simp only [Member.advance?, haccept]
    rw [run_place hq hm (n + 4) h]
    exact run_begun hq (g', .answer (.error e)) now (n + 4)

/-- **Steps that nothing comes between are one operation of the group**: five steps of a request do
what `Group.get` or `Group.servePeer` does at once. -/
theorem run_advances (hq : s.requests[r]? = some q) (hm : s.members[q.host]? = some m) :
    (q.phase = .asking →
      s.run (advances r now 5) = s.begun r q.host (m.group.get m.membership q.key now)) ∧
    (q.phase = .arrived →
      s.run (advances r now 5) = s.begun r q.host (m.group.servePeer m.membership q.key now)) := by
  have hself := place_self hq hm
  constructor
  · intro hp
    rw [← run_get hq hm m.group now 1, ← hp, hself]
  · intro hp
    rw [← run_servePeer hq hm m.group now 0, ← hp, hself]

end Cluster

end PeerCache
