import Mathlib
import PeerCache.Proofs.Cluster.Progress
import PeerCache.Proofs.Group.OneKey

/-!
# What the nodes hold

Nothing gets into the tiers of a node but by a set there, or by a load of that node that settles a
value (`Paced.Stores`, `holds_after`).  Between two writes of a key only time and room can take its
entry from the main tier; a step at which that does not happen leaves the key `Undisturbed`.
-/

namespace PeerCache

namespace Member

variable {P : String → ByteArray → Prop} {m : Member}

/-! ## At a node -/

/-- A request puts nothing into the tiers. -/
theorem Advances.holds {key : String} {now : Instant} {p p' : RequestPhase} {g : Group}
    (h : m.Advances key now p g p') (hm : m.group.Holds P) : g.Holds P := by
  cases h with
  | accept hl => exact hm.congr rfl
  | refuse hl => exact hm.congr rfl
  | look => exact hm.congr rfl
  | find h => exact (hm.probe _ key now).1.congr rfl
  | lack hl h => exact (hm.probe .main key now).1.congr rfl
  | turn hl h => exact (hm.probe .hot key now).1
  | glance h => exact hm.congr rfl
  | miss h => exact hm.congr rfl
  | join hn hc => exact hm.congr rfl

theorem Settles.holds {t : LoadTask} {r : LoadReply} {now : Instant} {g : Group} {p : LoadPhase}
    (h : m.Settles t r now g p) (hm : m.group.Holds P) (hv : ∀ v, r.value? = some v → P t.load.key v) :
    g.Holds P := by
  cases h with
  | store ha hk hr => exact hm.store (hv _ hr) _ now
  | fail ha hr hg hc he => exact hm.congr hc

theorem register_holds (hm : m.group.Holds P) (c : GroupConfig) (now : Instant) :
    (m.register c now).group.Holds P := by
  rcases m.register_cases c now with he | he
  · rw [he]
    exact hm
  · rw [he]
    exact hm.reconfigure c now

end Member

namespace Paced

variable {P : String → ByteArray → Prop} {s u : Paced} {e : Event}

/-! ## In a step -/

/-- All entries of a node have a property. -/
def HoldsAt (P : String → ByteArray → Prop) (i : Nat) (s : Paced) : Prop :=
  ∀ m, s.cluster.members[i]? = some m → m.group.Holds P

/-- What a step puts under a key at a node. -/
def Stores (s : Paced) (i : Nat) (key : String) (v : ByteArray) : Event → Prop
  | .plain (.set j k w _ _) => j = i ∧ k = key ∧ w = v
  | .settle n _ => ∃ t r, s.cluster.loads[n]? = some t ∧ s.reply? n = some r ∧
      t.host = i ∧ t.load.key = key ∧ r.value? = some v
  | _ => False

/-- **Nothing gets into the tiers but what is stored.** -/
theorem holds_after {i : Nat} (h : s.Takes e u) (hs : s.HoldsAt P i)
    (hP : ∀ key v, s.Stores i key v e → P key v) : u.HoldsAt P i := by
  intro m hm
  have hafter := h.member hm
  clear h hm
  cases hafter with
  | same hm => exact hs m hm
  | advance hq hi hm h => exact h.holds (hs _ hm)
  | start hq hi hm => exact (hs _ hm).congr rfl
  | begin ht hi hm ha hc => exact (hs _ hm).congr hc
  | release ht hi hm => exact (hs _ hm).congr rfl
  | settle ht hi hm hr h =>
    exact h.holds (hs _ hm) fun v hv => hP _ v ⟨_, _, ht, hr, hi, rfl, hv⟩
  | remove h hm => exact (hs _ hm).removeLocal _
  | set hm => exact (hs _ hm).setWith (hP _ _ ⟨rfl, rfl, rfl⟩) _ _
  | setPeers hm =>
    rw [Member.setPeers_group]
    exact hs _ hm
  | register hm => exact Member.register_holds (hs _ hm) _ _

/-- The tiers of all nodes are sound. -/
theorem Reachable.holds (hs : s.Reachable) (i : Nat) : s.HoldsAt (fun _ _ => True) i := by
  obtain ⟨founders, es, rfl⟩ := hs
  refine keeps_always (I := HoldsAt (fun _ _ => True) i)
    (fun hs h => holds_after h hs fun _ _ _ => trivial) ?_ es
  intro m hm
  obtain ⟨a, -, rfl⟩ := List.mem_map.mp (List.mem_of_getElem? hm)
  exact Group.holds_create _ a.config

/-! ## A key that is not there -/

/-- Neither tier of a node holds anything under a key, expired or not. -/
def Lacks (i : Nat) (key : String) (s : Paced) : Prop :=
  ∀ m, s.cluster.members[i]? = some m → ∀ kind, ∀ x ∈ (m.group.cache.tier kind).slots, x.key ≠ key

theorem HoldsAt.lacks {i : Nat} {key : String} (h : s.HoldsAt (fun k _ => k ≠ key) i) : s.Lacks i key :=
  fun m hm kind x hx => ((h m hm).tier kind).all x hx

/-- A node that lacks a key holds only other keys. -/
theorem Lacks.holds {i : Nat} {key : String} (h : s.Lacks i key) (hs : s.HoldsAt (fun _ _ => True) i) :
    s.HoldsAt (fun k _ => k ≠ key) i := by
  intro m hm
  obtain ⟨hmain, hhot⟩ := hs m hm
  exact ⟨⟨hmain.sound, hmain.fits, h m hm .main⟩, ⟨hhot.sound, hhot.fits, h m hm .hot⟩⟩

/-! ## A key that is left alone -/

/-- The entry under a key in the main tier of a node, expired or not. -/
def inMain? (s : Paced) (i : Nat) (key : String) : Option Entry :=
  s.cluster.members[i]?.bind fun m => m.group.cache.main.held? key

/-- A value under a key is not too large for the main tier of a node. -/
def admits (s : Paced) (i : Nat) (key : String) (v : ByteArray) : Bool :=
  s.cluster.members[i]?.any fun m => m.group.cache.main.Admits key v

/-- When a step reads the tiers of a node. -/
def reads? (s : Paced) (i : Nat) : Event → Option Instant
  | .plain (.advance r now) => if s.cluster.requests[r]?.any (·.host == i) then some now else none
  | .plain (.work n now) => if s.cluster.loads[n]?.any (·.host == i) then some now else none
  | _ => none

def Event.sets (i : Nat) (key : String) : Event → Bool
  | .plain (.set j k _ _ _) => j == i && k == key
  | _ => false

/-- A step that does not set the key at the node, and takes nothing from under it in the main tier:
what is there has not expired when it is read, and is not removed, evicted or squeezed out by a
smaller bound. -/
structure Undisturbed (i : Nat) (key : String) (s : Paced) (e : Event) : Prop where
  unset : e.sets i key = false
  live : ∀ x ∈ s.inMain? i key, ∀ now ∈ s.reads? i e, x.isExpiredAt now = false
  stays : (s.inMain? i key).isSome → ((s.step e).inMain? i key).isSome

instance (i : Nat) (key : String) (s : Paced) (e : Event) : Decidable (s.Undisturbed i key e) :=
  decidable_of_iff ((!e.sets i key &&
      (s.inMain? i key).all (fun x => (s.reads? i e).all fun now => !x.isExpiredAt now) &&
      (!(s.inMain? i key).isSome || ((s.step e).inMain? i key).isSome)) = true) <| by
    simp only [Bool.and_eq_true, Bool.not_eq_true', Option.all_eq_true, Bool.or_eq_true, and_assoc]
    refine ⟨fun ⟨hset, hlive, hstay⟩ => ⟨hset, hlive, ?_⟩, fun h => ⟨h.unset, h.live, ?_⟩⟩
    · exact fun hs => hstay.resolve_left (by simp [hs])
    · cases hs : (s.inMain? i key).isSome with
      | false => exact .inl rfl
      | true => exact .inr (h.stays hs)

theorem inMain?_eq {i : Nat} {m : Member} (hm : s.cluster.members[i]? = some m) (key : String) :
    s.inMain? i key = m.group.cache.main.held? key := by
  unfold inMain?
  rw [hm]
  rfl

theorem exists_of_admits {i : Nat} {key : String} {v : ByteArray} (h : s.admits i key v = true) :
    ∃ m, s.cluster.members[i]? = some m ∧ m.group.cache.main.Admits key v := by
  unfold admits at h
  cases hm : s.cluster.members[i]? with
  | none => rw [hm] at h; cases h
  | some m => rw [hm] at h; exact ⟨m, rfl, of_decide_eq_true h⟩

theorem HoldsAt.entry {i : Nat} {key : String} {x : Entry} (h : s.HoldsAt P i)
    (hx : s.inMain? i key = some x) : P key x.value := by
  obtain ⟨m, hm, hheld⟩ := Option.bind_eq_some_iff.mp hx
  exact (h m hm).main.held hheld

theorem HoldsAt.imp {Q : String → ByteArray → Prop} {i : Nat} (h : s.HoldsAt P i)
    (hpq : ∀ key v, P key v → Q key v) : s.HoldsAt Q i :=
  fun m hm => ⟨(h m hm).main.imp hpq, (h m hm).hot.imp hpq⟩

/-- Where only other keys are held, there is no entry under the key. -/
theorem HoldsAt.inMain?_eq_none {i : Nat} {key : String} (h : s.HoldsAt (fun k _ => k ≠ key) i) :
    s.inMain? i key = none := by
  rw [Option.eq_none_iff_forall_ne_some]
  intro x hx
  exact h.entry hx rfl

theorem reads?_advance {r : Nat} {q : Request} (hq : s.cluster.requests[r]? = some q) (now : Instant) :
    s.reads? q.host (.plain (.advance r now)) = some now := by
  simp [reads?, hq]

theorem reads?_work {n : Nat} {t : LoadTask} (ht : s.cluster.loads[n]? = some t) (now : Instant) :
    s.reads? t.host (.plain (.work n now)) = some now := by
  simp [reads?, ht]

/-- What the main tier has under the key, where a step reads it. -/
theorem Undisturbed.read {i : Nat} {key : String} (h : s.Undisturbed i key e)
    (hhas : (s.inMain? i key).isSome) {m : Member} (hm : s.cluster.members[i]? = some m) {now : Instant}
    (hr : s.reads? i e = some now) :
    ∃ x, m.group.cache.main.held? key = some x ∧ x.isExpiredAt now = false := by
  obtain ⟨x, hx⟩ := Option.isSome_iff_exists.mp hhas
  exact ⟨x, by rw [← inMain?_eq hm, hx], h.live x hx now hr⟩

end Paced

end PeerCache
