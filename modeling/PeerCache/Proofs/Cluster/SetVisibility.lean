import Mathlib
import PeerCache.Proofs.Cluster.Contents

/-!
# When a set is seen

A value that was set at a node is what every later get of its key there is answered with, owner or
not, until the key is set again or leaves the main tier, if no load of the key was under way when it
was set (`Paced.Clear`).  A load that still has to begin is no harm at the owner, which looks into
the main tier once more; one that has asked its source, or that will fetch, stores what it is told
over the value, or in front of it.

Main statement: `set_seen`.  Without the condition a set is lost for good (`set_lost_to_fetch`).
-/

namespace PeerCache

/-- How far a get has come that does not know of anything but `v`. -/
def RequestPhase.Sees (v : ByteArray) : RequestPhase → Prop
  | asking | looking _ | glancing _ | abandoned => True
  | answered o => o = .ok v
  | _ => False

namespace Member

variable {m : Member} {key : String} {v : ByteArray} {x : Entry} {now : Instant}

/-- A lookup finds the one value that both tiers can hold. -/
theorem Advances.sees {p p' : RequestPhase} {g : Group} (h : m.Advances key now p g p')
    (hg : m.group.Holds fun k w => k = key → w = v) (hx : m.group.cache.main.held? key = some x)
    (hlive : x.isExpiredAt now = false) (hp : p.Sees v) : p'.Sees v := by
  have hmain := hg.probe_of_held hx hlive
  cases h with
  | accept hl => trivial
  | refuse hl => exact hp.elim
  | look => trivial
  | find h => exact congrArg Except.ok ((hg.probe _ key now).2 _ h rfl)
  | lack hl h => rw [hmain] at h; cases h
  | turn hl h => trivial
  | glance h => exact congrArg Except.ok (hg.glance h rfl)
  | miss h => rw [Group.glance_of_held hx hlive] at h; cases h
  | join hn hc => exact hp.elim

/-- A get that nothing comes between is answered with that value. -/
theorem get_sees (hg : m.group.Holds fun k w => k = key → w = v)
    (hx : m.group.cache.main.held? key = some x) (hlive : x.isExpiredAt now = false) :
    (m.group.get m.membership key now).2 = .answer (.ok v) := by
  have hcount : m.group.countGet.Holds fun k w => k = key → w = v := hg.congr rfl
  have hxv : x.value = v := hg.main.held hx rfl
  have hfound (isLocal : Bool) : (m.group.countGet.lookupTiers isLocal key now).2 = some v := by
    unfold Group.lookupTiers
    split
    · next g w he =>
      have hw := (hcount.probe (Group.home isLocal) key now).2 w (congrArg Prod.snd he) rfl
      rw [hw]
    · next g he =>
      cases isLocal with
      | true =>
        have hnone : (m.group.countGet.probe .main key now).2 = none := congrArg Prod.snd he
        rw [hcount.probe_of_held hx hlive] at hnone
        cases hnone
      | false =>
        -- looking into the hot tier leaves the main tier as it is
        have hmain : g.cache.main = m.group.cache.main := (congrArg (fun p => p.1.cache.main) he).symm
        show g.glance key now = some v
        rw [Group.glance_of_held (hmain ▸ hx) hlive, hxv]
  unfold Group.get Group.lookup
  simp only [hfound]

end Member

namespace Paced

variable {s u : Paced} {e : Event} {i : Nat} {key : String} {v : ByteArray}

/-- No load of a key is under way at a node that could store a value, and no get there will start
one: what has not begun yet, or looked in vain, has the node itself for the owner. -/
structure Clear (i : Nat) (key : String) (s : Paced) : Prop where
  load : ∀ (n : Nat) (t : LoadTask), s.cluster.loads[n]? = some t → t.host = i → t.load.key = key →
    t.phase.isPending = true → t.phase = .queued ∧ s.isLocalAt i t.load.owner = true
  request : ∀ (r : Nat) (q : Request) (owner : Peer), s.cluster.requests[r]? = some q → q.host = i →
    q.key = key → q.phase = .missed owner → s.isLocalAt i owner = true

/-- What holds from the set on: nothing but the value is there, and every get since sees it. -/
structure Seen (base i : Nat) (key : String) (v : ByteArray) (s : Paced) : Prop where
  holds : s.HoldsAt (fun k w => k = key → w = v) i
  has : (s.inMain? i key).isSome
  clear : s.Clear i key
  late : ∀ (r : Nat) (q : Request), base ≤ r → s.cluster.requests[r]? = some q → q.host = i →
    q.key = key → q.fromPeer = false → q.phase.Sees v

/-- While no load of the key is under way, only a set stores something under it. -/
theorem Clear.set_of_stores (hs : s.Clear i key) (h : s.Takes e u) {w : ByteArray}
    (hw : s.Stores i key w e) : ∃ x now, e = .plain (.set i key w x now) := by
  cases e with
  | plain e =>
    cases e with
    | set j k w' x now =>
      obtain ⟨rfl, rfl, rfl⟩ := hw
      exact ⟨x, now, rfl⟩
    | _ => exact hw.elim
  | reply n r => exact hw.elim
  | settle n now =>
    obtain ⟨t, r, ht, hr, hi, hk, -⟩ := hw
    cases h with
    | settle ht' hm hr' hset =>
      obtain rfl := eq_of_getElem? ht ht'
      have hrank := hset.rank.1
      obtain ⟨hq, -⟩ := hs.load n _ ht hi hk (by unfold LoadPhase.isPending; rw [hrank]; rfl)
      rw [hq] at hrank
      cases hrank
    | remove hrem => exact hrem.elim

theorem Clear.step (hs : s.Clear i key) (hhas : (s.inMain? i key).isSome) (hp : s.Undisturbed i key e)
    (h : s.Takes e u) : u.Clear i key := by
  constructor
  · intro n t ht' hi hk hpend
    cases h.load ht' with
    | same ht =>
      obtain ⟨hq, hl⟩ := hs.load n t ht hi hk hpend
      exact ⟨hq, by rw [h.isLocalAt_eq, hl]⟩
    | start hn hq hm hmiss hnum =>
      exact ⟨rfl, by rw [h.isLocalAt_eq]; exact hs.request _ _ _ hq hi hk hmiss⟩
    | @begin now t m p ht hm hq hb =>
      obtain ⟨-, hl⟩ := hs.load n t ht hi hk (by rw [hq]; rfl)
      subst hi
      rw [isLocalAt_eq hm] at hl
      obtain ⟨x, hx, hlive⟩ := hp.read hhas hm (reads?_work ht now)
      cases hb with
      | present hl' hpeek => cases hpend
      | sourceless hl' hnone => cases hpend
      | ask hl' hpeek hsource =>
        rw [show t.load.key = key from hk, Tier.peek_of_held hx hlive] at hpeek
        cases hpeek
      | fetch hl' => rw [hl] at hl'; cases hl'
    | release ht hend => cases hpend
    | deliver ht hfetch =>
      obtain ⟨hq, -⟩ := hs.load n _ ht hi hk (by rw [hfetch]; rfl)
      rw [hfetch] at hq
      cases hq
    | settle ht hm hr hset =>
      unfold LoadPhase.isPending at hpend
      rw [hset.rank.2] at hpend
      cases hpend
  · intro r q owner hq' hi hk hmiss
    cases h.request hq' with
    | same hq => rw [h.isLocalAt_eq]; exact hs.request r q owner hq hi hk hmiss
    | @advance now q m g p hq hm hadv =>
      subst hi
      obtain ⟨x, hx, hlive⟩ := hp.read hhas hm (reads?_advance hq now)
      replace hmiss : p = .missed owner := hmiss
      subst hmiss
      generalize hphase : q.phase = phase at hadv
      cases hadv with
      | lack hl hprobe => rw [h.isLocalAt_eq, isLocalAt_eq hm]; exact hl
      | miss hglance =>
        rw [show q.key = key from hk, Group.glance_of_held hx hlive] at hglance
        cases hglance
    | get | serve | deliver | start | hear | abandon => cases hmiss

/-- A step that leaves the key alone leaves the value in sight. -/
theorem Seen.step {base : Nat} (hs : s.Seen base i key v) (hp : s.Undisturbed i key e)
    (h : s.Takes e (s.step e)) : (s.step e).Seen base i key v := by
  refine ⟨?_, hp.stays hs.has, hs.clear.step hs.has hp h, ?_⟩
  · refine holds_after h hs.holds ?_
    rintro k w hw rfl
    obtain ⟨x, now, rfl⟩ := hs.clear.set_of_stores h hw
    have hunset := hp.unset
    simp [Event.sets] at hunset
  · intro r q hr hq' hi hk hclient
    cases h.request hq' with
    | same hq => exact hs.late r q hr hq hi hk hclient
    | get hl => trivial
    | @advance now q m g p hq hm hadv =>
      subst hi
      obtain ⟨x, hx, hlive⟩ := hp.read hs.has hm (reads?_advance hq now)
      subst hk
      exact hadv.sees (hs.holds m hm) hx hlive (hs.late r q hr hq rfl rfl hclient)
    | start hq hm hmiss hnum =>
      have hsees := hs.late r _ hr hq hi hk hclient
      rw [hmiss] at hsees
      exact hsees.elim
    | hear hq hwait ht hh hn he =>
      have hsees := hs.late r _ hr hq hi hk hclient
      rw [hwait] at hsees
      exact hsees.elim
    | abandon hq ho => trivial
    | serve hl => cases hclient
    | deliver hl => cases hclient

/-- **A set is seen.**  If no load of the key is under way at the node, then from the set on, as
long as nothing disturbs the key: a get that a client begins later never has to wait for a load and
is answered with the value or not at all, and a get that nothing comes between is answered with it. -/
theorem set_seen {x : Expiration} {now : Instant} {after : List Event} (hs : s.Reachable)
    (hfit : s.admits i key v = true) (hclear : s.Clear i key)
    (hafter : Along step (Undisturbed i key) (s.step (.plain (.set i key v x now))) after) :
    let u := s.step (.plain (.set i key v x now))
    let w := u.run after
    (∀ r q, u.cluster.requests.length ≤ r → w.cluster.requests[r]? = some q → q.host = i → q.key = key →
      q.fromPeer = false → q.phase.Sees v) ∧
    ∀ m now, w.cluster.members[i]? = some m →
      (∀ y ∈ w.inMain? i key, y.isExpiredAt now = false) →
      (m.group.get m.membership key now).2 = .answer (.ok v) := by
  intro u w
  obtain ⟨m, hm, hfit⟩ := exists_of_admits hfit
  have hset : s.step? (.plain (.set i key v x now)) =
      some (s.on (s.cluster.setGroup i (m.group.setWith key v x now))) := by
    simp [step?, Cluster.settles, Cluster.step?, Cluster.set?, hm]
  have hu : u = s.on (s.cluster.setGroup i (m.group.setWith key v x now)) := step_eq hset
  have hmu : u.cluster.members[i]? = some { m with group := m.group.setWith key v x now } := by
    rw [hu]
    exact getElem?_modify_eq_some.mpr ⟨m, hm, (if_pos rfl).symm⟩
  have hsound : m.group.Holds fun _ _ => True := hs.holds i m hm
  have hstart : u.Seen u.cluster.requests.length i key v := by
    refine ⟨?_, ?_, ?_, ?_⟩
    · intro m' hm'
      obtain rfl := eq_of_getElem? hmu hm'
      exact hsound.setWith_only key v x now
    · rw [inMain?_eq hmu, hsound.held?_setWith hfit x now]
      rfl
    · have hlocal := (takes hset).isLocalAt_eq i
      rw [hu]
      exact ⟨fun n t ht hi hk hp => by rw [hlocal]; exact hclear.load n t ht hi hk hp,
        fun r q owner hq hi hk hp => by rw [hlocal]; exact hclear.request r q owner hq hi hk hp⟩
    · intro r q hr hq
      have hlt := (List.getElem?_eq_some_iff.mp hq).1
      omega
  have hseen : w.Seen u.cluster.requests.length i key v :=
    keeps (I := Seen u.cluster.requests.length i key v) (fun hi hp h => hi.step hp h) hstart hafter
  refine ⟨hseen.late, ?_⟩
  intro m' now' hm' hlive
  obtain ⟨y, hy⟩ := Option.isSome_iff_exists.mp hseen.has
  exact Member.get_sees (hseen.holds m' hm') (by rw [← inMain?_eq hm', hy]) (hlive y hy)

/-- The load begins after a set and is released, its get is answered, and another one comes. -/
def loadThenGet : List Event :=
  [.work 0 ⟨5⟩, .work 0 ⟨6⟩, .hear 0, .get 0 "k", .advance 1 ⟨7⟩, .advance 1 ⟨8⟩].map .plain

theorem set_seen_by_load :
    let u := queuedLoad.step (.plain (.set 0 "k" ⟨#[1]⟩ .default ⟨4⟩))
    let w := u.run loadThenGet
    (queuedLoad.Clear 0 "k" ∧ Along step (Undisturbed 0 "k") u loadThenGet) ∧
    (∀ r q, u.cluster.requests.length ≤ r → w.cluster.requests[r]? = some q → q.host = 0 → q.key = "k" →
      q.fromPeer = false → q.phase.Sees ⟨#[1]⟩) ∧
    ∀ m now, w.cluster.members[0]? = some m →
      (∀ y ∈ w.inMain? 0 "k", y.isExpiredAt now = false) →
      (m.group.get m.membership "k" now).2 = .answer (.ok ⟨#[1]⟩) := by
  have h : (queuedLoad.cluster.loads = [⟨0, ⟨0, "k", ⟨"a:1"⟩⟩, .queued⟩] ∧
      queuedLoad.cluster.requests = [⟨0, "k", false, .waiting 0⟩]) ∧
      (queuedLoad.isLocalAt 0 ⟨"a:1"⟩ = true ∧ queuedLoad.admits 0 "k" ⟨#[1]⟩ = true) ∧
      decide (Along step (Undisturbed 0 "k") (queuedLoad.step (.plain (.set 0 "k" ⟨#[1]⟩ .default ⟨4⟩)))
        loadThenGet) = true := by
    unfold queuedLoad
    rw [twoOwners_eq]
    cbv
  obtain ⟨⟨hloads, hrequests⟩, ⟨hlocal, hfit⟩, hafter⟩ := h
  have hclear : queuedLoad.Clear 0 "k" := by
    constructor
    · intro n t ht _ _ _
      have hmem := List.mem_of_getElem? ht
      rw [hloads, List.mem_singleton] at hmem
      subst hmem
      exact ⟨rfl, hlocal⟩
    · intro r q owner hq _ _ hp
      have hmem := List.mem_of_getElem? hq
      rw [hrequests, List.mem_singleton] at hmem
      subst hmem
      cases hp
  replace hafter := of_decide_eq_true hafter
  exact ⟨⟨hclear, hafter⟩, set_seen reachable_queuedLoad hfit hclear hafter⟩

/-- The load begins, its fetch is answered and stored, and another get comes. -/
def fetchThenGet : List Event :=
  [.plain (.work 0 ⟨6⟩), .reply 0 (.fetch (.returned (.ok ⟨#[0]⟩))), .settle 0 ⟨7⟩, .plain (.get 0 "1"),
    .plain (.advance 1 ⟨8⟩), .plain (.advance 1 ⟨9⟩)]

/-- **A set can be lost.**  A load of the key that will fetch has started when it is set.  The main tier
has the new value, and nothing disturbs it; but the load does not look there when it begins, and brings
the old value into the hot tier, which is what a later get is answered with. -/
theorem set_lost_to_fetch :
    let u := queuedFetch.step (.plain (.set 0 "1" ⟨#[1]⟩ .default ⟨5⟩))
    let w := u.run fetchThenGet
    (queuedFetch.admits 0 "1" ⟨#[1]⟩ = true ∧ Along step (Undisturbed 0 "1") u fetchThenGet) ∧
    u.cluster.requests.length ≤ 1 ∧
    w.inMain? 0 "1" = some ⟨⟨#[1]⟩, none⟩ ∧
    w.cluster.requests[1]? = some ⟨0, "1", false, .answered (.ok ⟨#[0]⟩)⟩ := by
  intro u w
  have h : (queuedFetch.admits 0 "1" ⟨#[1]⟩ = true ∧
      decide (Along step (Undisturbed 0 "1") (queuedFetch.step (.plain (.set 0 "1" ⟨#[1]⟩ .default ⟨5⟩)))
        fetchThenGet) = true) ∧
      (queuedFetch.step (.plain (.set 0 "1" ⟨#[1]⟩ .default ⟨5⟩))).cluster.requests.length ≤ 1 ∧
      ((queuedFetch.step (.plain (.set 0 "1" ⟨#[1]⟩ .default ⟨5⟩))).run fetchThenGet).inMain? 0 "1" =
        some ⟨⟨#[1]⟩, none⟩ ∧
      ((queuedFetch.step (.plain (.set 0 "1" ⟨#[1]⟩ .default ⟨5⟩))).run
        fetchThenGet).cluster.requests[1]? = some ⟨0, "1", false, .answered (.ok ⟨#[0]⟩)⟩ := by
    unfold queuedFetch
    rw [twoOwners_eq]
    cbv
  exact ⟨⟨h.1.1, of_decide_eq_true h.1.2⟩, h.2⟩

end Paced

end PeerCache
