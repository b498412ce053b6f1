import Mathlib
import PeerCache.Proofs.Cluster.Entries
import PeerCache.Proofs.Cluster.SetVisibility

/-!
# A set across rings

A value that is set while nothing of its key is under way at the node (`Paced.Idle`) is from then on
the one entry of the key: it is in the main tier, the hot tier has none, and no load of the key is
started, so neither the backfill nor another node is asked.  It makes no difference how often the peers
are set in between, and whether the node owns the key: where it does a get finds the value in the main
tier, where it does not the get turns to the hot tier in vain and glances at the main tier.

The value goes when the key is set or removed, when it is read after it has expired, or when something
else is put into the main tier or its bound is changed, and the entry is evicted (`Paced.Standing`).

Main statement: `set_stands`.
-/

namespace PeerCache

namespace Paced

variable {s u : Paced} {e : Event} {i : Nat} {key : String} {x : Entry}

/-! ## The condition -/

/-- Nothing of a key is under way at a node: no load of it is in flight, and no get of it has looked in
vain and still has to join or start one. -/
structure Idle (i : Nat) (key : String) (s : Paced) : Prop where
  load : ∀ (n : Nat) (t : LoadTask), s.cluster.loads[n]? = some t → t.host = i → t.load.key = key →
    t.phase.isFlying = false
  request : ∀ (r : Nat) (q : Request) (owner : Peer), s.cluster.requests[r]? = some q → q.host = i →
    q.key = key → q.phase ≠ .missed owner

/-- A step that may evict from the main tier of a node: it puts something there, or changes the bound. -/
def crowds (s : Paced) (i : Nat) : Event → Bool
  | .plain (.set j ..) | .plain (.register j ..) => j == i
  | .settle n _ => s.cluster.loads[n]?.any fun t => t.host == i && t.phase.isAsking
  | _ => false

instance (s : Paced) (i : Nat) (key : String) : (e : Event) → Decidable (s.Removes i key e)
  | .plain (.remove j k) | .plain (.removeLocal j k) => inferInstanceAs (Decidable (j = i ∧ k = key))
  | .plain (.deliverRemoval d j) =>
    decidable_of_iff (j = i ∧ s.cluster.removals[d]?.any (·.2 == key) = true) <| by
      show _ ↔ j = i ∧ ∃ p, s.cluster.removals[d]? = some (p, key)
      cases s.cluster.removals[d]? with
      | none => simp
      | some a => simp [Prod.ext_iff]
  | .plain (.get ..) | .plain (.serve ..) | .plain (.advance ..) | .plain (.hear ..) | .plain (.abandon ..)
  | .plain (.work ..) | .plain (.deliver ..) | .plain (.respond ..) | .plain (.endFetch ..)
  | .plain (.loseRemoval ..) | .plain (.set ..) | .plain (.setPeers ..) | .plain (.register ..)
  | .reply .. | .settle .. => inferInstanceAs (Decidable False)

/-- A step that does not set or remove the key at the node, does not read it after it has expired, and
does not evict it. -/
structure Standing (i : Nat) (key : String) (s : Paced) (e : Event) : Prop where
  unset : e.sets i key = false
  unremoved : ¬ s.Removes i key e
  live : ∀ x ∈ s.inMain? i key, ∀ now ∈ s.reads? i e, x.isExpiredAt now = false
  uncrowded : s.crowds i e = true → (s.inMain? i key).isSome → ((s.step e).inMain? i key).isSome

instance (i : Nat) (key : String) (s : Paced) (e : Event) : Decidable (s.Standing i key e) :=
  decidable_of_iff (((e.sets i key = false ∧ ¬ s.Removes i key e) ∧
      ((s.inMain? i key).all fun x => (s.reads? i e).all fun now => !x.isExpiredAt now) = true) ∧
      (s.crowds i e = true → (s.inMain? i key).isSome → ((s.step e).inMain? i key).isSome)) <| by
    simp only [Option.all_eq_true, Bool.not_eq_true']
    exact ⟨fun ⟨⟨⟨hset, hrem⟩, hlive⟩, hroom⟩ => ⟨hset, hrem, hlive, hroom⟩,
      fun h => ⟨⟨⟨h.unset, h.unremoved⟩, h.live⟩, h.uncrowded⟩⟩

/-! ## What is in the main tier stays there -/

/-- A request takes nothing that has not expired. -/
theorem held?_advanced {P : String → ByteArray → Prop} {m : Member} {g : Group} {k : String}
    {now : Instant} {p p' : RequestPhase} {kind : TierKind} (h : m.Advances k now p g p')
    (hm : m.group.Holds P) (hx : m.group.held? kind key = some x) (hlive : x.isExpiredAt now = false) :
    g.held? kind key = some x := by
  cases h with
  | find h => exact hm.held?_probe_of_live hx hlive _ k
  | lack hl h => exact hm.held?_probe_of_live hx hlive _ k
  | turn hl h => exact hm.held?_probe_of_live hx hlive _ k
  | accept | refuse | look | glance | miss | join => exact hx

/-- Only a removal, a lookup after its expiry, and what may evict can take an entry from the main tier. -/
theorem Takes.inMain?_kept (h : s.Takes e u) (hs : s.HoldsAt (fun _ _ => True) i)
    (hx : s.inMain? i key = some x) (hlive : ∀ now ∈ s.reads? i e, x.isExpiredAt now = false)
    (hrem : ¬ s.Removes i key e) (hcrowds : s.crowds i e ≠ true) : u.inMain? i key = some x := by
  obtain ⟨m₀, hm₀, -⟩ := Option.bind_eq_some_iff.mp hx
  obtain ⟨m', hm', -⟩ := h.member_forward hm₀
  have hold {m : Member} (hm : s.cluster.members[i]? = some m) : m.group.held? .main key = some x :=
    (held?_eq hm .main key).symm.trans hx
  rw [inMain?_eq_held?, held?_eq hm']
  cases h.member hm' with
  | same hm => exact hold hm
  | advance hq hi hm hadv =>
    subst hi
    exact held?_advanced hadv (hs _ hm) (hold hm) (hlive _ (reads?_advance hq _))
  | start hq hi hm =>
    have hheld := hold hm
    exact hheld
  | begin ht hi hm ha hc =>
    have hheld := hold hm
    unfold Group.held? at hheld ⊢
    rw [hc]
    exact hheld
  | release ht hi hm =>
    have hheld := hold hm
    exact hheld
  | @settle n now t m r g p ht hi hm hr hset =>
    cases hset with
    | store ha hkind hv =>
      cases hp : t.phase with
      | asking source y => simp [crowds, ht, hi, hp, LoadPhase.isAsking] at hcrowds
      | fetching owner y q =>
        rw [hp] at hkind
        cases hkind
        have hheld := hold hm
        exact hheld
      | queued | ended | released => rw [hp] at hkind; cases hkind
    | fail ha hv hg hc he =>
      have hheld := hold hm
      unfold Group.held? at hheld ⊢
      rw [hc]
      exact hheld
  | @remove e k m hr hm =>
    have hk : key ≠ k := by
      rintro rfl
      exact hrem hr
    exact (hs m hm).held?_removeLocal_of_ne hk (hold hm)
  | set hm => simp [crowds] at hcrowds
  | setPeers hm =>
    rw [Member.setPeers_group]
    exact hold hm
  | register hm => simp [crowds] at hcrowds

theorem Standing.undisturbed (hp : s.Standing i key e) (h : s.Takes e (s.step e))
    (hs : s.HoldsAt (fun _ _ => True) i) : s.Undisturbed i key e := by
  refine ⟨hp.unset, hp.live, fun hhas => ?_⟩
  by_cases hcrowds : s.crowds i e = true
  · exact hp.uncrowded hcrowds hhas
  · obtain ⟨x, hx⟩ := Option.isSome_iff_exists.mp hhas
    rw [h.inMain?_kept hs hx (hp.live x hx) hp.unremoved hcrowds]
    rfl

/-! ## The invariant -/

theorem Idle.clear (h : s.Idle i key) : s.Clear i key := by
  constructor
  · intro n t ht hi hk hpend
    have hflying := LoadPhase.isFlying_of_isPending hpend
    rw [h.load n t ht hi hk] at hflying
    cases hflying
  · exact fun r q owner hq hi hk hmiss => absurd hmiss (h.request r q owner hq hi hk)

/-- An entry is all that a node has of its key, and nothing else comes: no load of the key is in flight,
and none has started since there were `loads` of them. -/
structure Stands (requests loads i : Nat) (key : String) (x : Entry) (s : Paced) : Prop where
  main : s.held? i .main key = some x
  hot : s.held? i .hot key = none
  idle : s.Idle i key
  old : ∀ (n : Nat) (t : LoadTask), s.cluster.loads[n]? = some t → t.host = i → t.load.key = key → n < loads
  seen : s.Seen requests i key x.value

theorem Stands.has {requests loads : Nat} (hs : s.Stands requests loads i key x) : (s.inMain? i key).isSome := by
  rw [inMain?_eq_held?, hs.main]
  rfl

/-- What a step could put under the key, it would put there for a load in flight. -/
theorem Idle.not_puts (hs : s.Idle i key) (hset : e.sets i key = false) {kind : TierKind} {y : Entry} :
    ¬ s.Puts i kind key y e := by
  intro hput
  cases e with
  | plain e =>
    cases e with
    | set j k w z now =>
      obtain ⟨rfl, rfl, -⟩ := hput
      simp [Event.sets] at hset
    | _ => exact hput
  | reply n r => exact hput
  | settle n now =>
    obtain ⟨t, r, ht, -, hi, hk, ha, -⟩ := hput
    have hflying := LoadPhase.isFlying_of_rank (LoadPhase.awaits_rank ha)
    rw [hs.load n t ht hi hk] at hflying
    cases hflying

/-- A load of the key that is there after a step was there before it, and has landed. -/
theorem Idle.load_after (hs : s.Idle i key) (h : s.Takes e u) {n : Nat} {t : LoadTask}
    (ht' : u.cluster.loads[n]? = some t) (hi : t.host = i) (hk : t.load.key = key) :
    s.cluster.loads[n]? = some t := by
  have hlanded {t' : LoadTask} (ht : s.cluster.loads[n]? = some t') (hh : t'.host = i)
      (hkey : t'.load.key = key) (hf : t'.phase.isFlying = true) : False := by
    rw [hs.load n t' ht hh hkey] at hf
    cases hf
  cases h.load ht' with
  | same ht => exact ht
  | start hn hq hm hmiss hnum => exact absurd hmiss (hs.request _ _ _ hq hi hk)
  | begin ht hm hq hb => exact (hlanded ht hi hk (by rw [hq]; rfl)).elim
  | release ht hend => exact (hlanded ht hi hk (by rw [hend]; rfl)).elim
  | deliver ht hfetch => exact (hlanded ht hi hk (by rw [hfetch]; rfl)).elim
  | settle ht hm hr hset => exact (hlanded ht hi hk (LoadPhase.isFlying_of_rank hset.rank.1)).elim

/-- While the entry is there, a get does not look in vain. -/
theorem Idle.request_after (hs : s.Idle i key) (h : s.Takes e u) (hp : s.Undisturbed i key e)
    (hhas : (s.inMain? i key).isSome) (hholds : s.HoldsAt (fun _ _ => True) i) {r : Nat} {q : Request}
    {owner : Peer} (hq' : u.cluster.requests[r]? = some q) (hi : q.host = i) (hk : q.key = key) :
    q.phase ≠ .missed owner := by
  intro hmiss
  cases h.request hq' with
  | same hq => exact hs.request r q owner hq hi hk hmiss
  | @advance now q m g p hq hm hadv =>
    subst hi hk
    obtain ⟨x, hx, hlive⟩ := hp.read hhas hm (reads?_advance hq now)
    replace hmiss : p = .missed owner := hmiss
    subst hmiss
    generalize q.phase = phase at hadv
    cases hadv with
    | lack hl hnone =>
      rw [(hholds m hm).probe_of_held hx hlive] at hnone
      cases hnone
    | miss hnone =>
      rw [Group.glance_of_held hx hlive] at hnone
      cases hnone
  | get | serve | deliver | start | hear | abandon => cases hmiss

/-- A step that leaves the entry standing leaves it the only one. -/
theorem Stands.step {requests loads : Nat} (hs : s.Stands requests loads i key x)
    (hholds : s.HoldsAt (fun _ _ => True) i) (hp : s.Standing i key e) (h : s.Takes e (s.step e)) :
    (s.step e).Stands requests loads i key x := by
  have hundisturbed := hp.undisturbed h hholds
  have hbefore {kind : TierKind} {y : Entry} (hy : (s.step e).held? i kind key = some y) :
      s.held? i kind key = some y :=
    (h.of_held? hholds hy).resolve_left (hs.idle.not_puts hp.unset)
  refine ⟨?_, ?_, ⟨?_, ?_⟩, ?_, hs.seen.step hundisturbed h⟩
  · obtain ⟨y, hy⟩ := Option.isSome_iff_exists.mp (hundisturbed.stays hs.has)
    rw [inMain?_eq_held?] at hy
    rw [hy, ← hbefore hy, hs.main]
  · rw [Option.eq_none_iff_forall_ne_some]
    intro y hy
    have hhot := hbefore hy
    rw [hs.hot] at hhot
    cases hhot
  · exact fun n t ht hi hk => hs.idle.load n t (hs.idle.load_after h ht hi hk) hi hk
  · exact fun r q owner hq hi hk => hs.idle.request_after h hundisturbed hs.has hholds hq hi hk
  · exact fun n t ht hi hk => hs.old n t (hs.idle.load_after h ht hi hk) hi hk

/-- Where one entry is all that a node has of its key, there is no value but its own. -/
theorem holds_of_entries (hholds : s.HoldsAt (fun _ _ => True) i) (hmain : s.held? i .main key = some x)
    (hhot : s.held? i .hot key = none) : s.HoldsAt (fun k w => k = key → w = x.value) i := by
  have honly {m : Member} (hm : s.cluster.members[i]? = some m) (kind : TierKind) :
      ∀ y ∈ (m.group.cache.tier kind).slots, y.key = key → y.entry.value = x.value := by
    intro y hy hk
    have hheld : s.held? i kind key = some y.entry := by
      rw [held?_eq hm]
      exact ((hholds m hm).tier kind).sound.toLaid.held?_eq.mpr ⟨y, hy, hk, rfl⟩
    cases kind with
    | main => rw [Option.some.inj (hmain.symm.trans hheld)]
    | hot => rw [hhot] at hheld; cases hheld
  intro m hm
  obtain ⟨hmain, hhot⟩ := hholds m hm
  exact ⟨⟨hmain.sound, hmain.fits, honly hm .main⟩, ⟨hhot.sound, hhot.fits, honly hm .hot⟩⟩

/-! ## The set -/

theorem step_set {m : Member} (hm : s.cluster.members[i]? = some m) (key : String) (v : ByteArray)
    (expiration : Expiration) (now : Instant) :
    s.step? (.plain (.set i key v expiration now)) =
      some (s.on (s.cluster.setGroup i (m.group.setWith key v expiration now))) := by
  simp [step?, Cluster.settles, Cluster.step?, Cluster.set?, hm]

/-- A value that fits is the only one of its key when it has been set. -/
theorem Idle.stands (hs : s.Idle i key) (hholds : s.HoldsAt (fun _ _ => True) i) {m : Member}
    (hm : s.cluster.members[i]? = some m) {v : ByteArray} (hfit : m.group.cache.main.Admits key v)
    (expiration : Expiration) (now : Instant) :
    (s.step (.plain (.set i key v expiration now))).Stands s.cluster.requests.length s.cluster.loads.length
      i key ⟨v, expiration.resolve m.group.settings.itemExpiration now⟩ := by
  have hset := step_set hm key v expiration now
  have htakes := takes hset
  rw [step_eq hset]
  generalize hu : s.on (s.cluster.setGroup i (m.group.setWith key v expiration now)) = u at htakes
  have hmembers : u.cluster.members =
      s.cluster.members.modify i fun a => { a with group := m.group.setWith key v expiration now } := by
    rw [← hu]
    rfl
  have hrequests : u.cluster.requests = s.cluster.requests := by rw [← hu]; rfl
  have hloads : u.cluster.loads = s.cluster.loads := by rw [← hu]; rfl
  have hmain : u.held? i .main key = some ⟨v, expiration.resolve m.group.settings.itemExpiration now⟩ := by
    rw [held?_of_modify hm hmembers]
    exact (hholds m hm).held?_setWith hfit expiration now
  have hhot : u.held? i .hot key = none := by
    rw [held?_of_modify hm hmembers, Option.eq_none_iff_forall_ne_some]
    intro y hy
    rcases (hholds m hm).of_held?_setWith hy with ⟨hkind, -⟩ | ⟨hk, -⟩
    · cases hkind
    · exact hk rfl
  have hidle : u.Idle i key :=
    ⟨fun n t ht => hs.load n t (by rw [← hloads]; exact ht),
      fun r q owner hq => hs.request r q owner (by rw [← hrequests]; exact hq)⟩
  refine ⟨hmain, hhot, hidle, ?_, ⟨?_, by rw [inMain?_eq_held?, hmain]; rfl, hidle.clear, ?_⟩⟩
  · intro n t ht _ _
    rw [hloads] at ht
    exact (List.getElem?_eq_some_iff.mp ht).1
  · exact holds_of_entries (holds_after htakes hholds fun _ _ _ => trivial) hmain hhot
  · intro r q hr hq
    rw [hrequests] at hq
    have hlt := (List.getElem?_eq_some_iff.mp hq).1
    omega

/-- A value that does not fit takes what was there with it. -/
theorem lacks_of_set (hholds : s.HoldsAt (fun _ _ => True) i) {m : Member}
    (hm : s.cluster.members[i]? = some m) {v : ByteArray} (hfit : ¬ m.group.cache.main.Admits key v)
    (expiration : Expiration) (now : Instant) : (s.step (.plain (.set i key v expiration now))).Lacks i key := by
  have hset := step_set hm key v expiration now
  rw [step_eq hset]
  refine lacks_of_entries (holds_after (takes hset) hholds fun _ _ _ => trivial) fun kind => ?_
  rw [held?_of_modify hm rfl]
  cases kind with
  | main => exact (hholds m hm).held?_setWith_of_not hfit expiration now
  | hot =>
    rw [Option.eq_none_iff_forall_ne_some]
    intro y hy
    rcases (hholds m hm).of_held?_setWith hy with ⟨hkind, -⟩ | ⟨hk, -⟩
    · cases hkind
    · exact hk rfl

/-- **A set stands across rings.**  Let nothing of a key be under way at a node when it is set there.  If
the value fits, then from the set on, as long as the entry is left standing and whatever rings come: it
is the one entry of the key at the node, no load of the key is in flight and none has started, a get that
a client begins later is answered with the value or not at all, and a get that nothing comes between is
answered with it at once.  If the value does not fit, neither tier has anything under the key. -/
theorem set_stands {v : ByteArray} {expiration : Expiration} {now : Instant} {m : Member} (hs : s.Reachable)
    (hm : s.cluster.members[i]? = some m) :
    let u := s.step (.plain (.set i key v expiration now))
    let entry : Entry := ⟨v, expiration.resolve m.group.settings.itemExpiration now⟩
    (m.group.cache.main.Admits key v → s.Idle i key → ∀ after, Along step (Standing i key) u after →
      let w := u.run after
      (w.held? i .main key = some entry ∧ w.held? i .hot key = none) ∧
      (w.Idle i key ∧ ∀ (n : Nat) (t : LoadTask), w.cluster.loads[n]? = some t → t.host = i →
        t.load.key = key → n < s.cluster.loads.length) ∧
      (∀ (r : Nat) (q : Request), s.cluster.requests.length ≤ r → w.cluster.requests[r]? = some q →
        q.host = i → q.key = key → q.fromPeer = false → q.phase.Sees v) ∧
      ∀ m' now', w.cluster.members[i]? = some m' → entry.isExpiredAt now' = false →
        (m'.group.get m'.membership key now').2 = .answer (.ok v)) ∧
    (¬ m.group.cache.main.Admits key v → u.Lacks i key) := by
  intro u entry
  refine ⟨fun hfit hidle after hafter => ?_, fun hfit => lacks_of_set (hs.holds i) hm hfit expiration now⟩
  have hstart := hidle.stands (hs.holds i) hm hfit expiration now
  obtain ⟨-, hw⟩ := keeps
    (I := fun w => w.HoldsAt (fun _ _ => True) i ∧
      w.Stands s.cluster.requests.length s.cluster.loads.length i key entry)
    (fun hi hp h => ⟨holds_after h hi.1 fun _ _ _ => trivial, hi.2.step hi.1 hp h⟩)
    ⟨(hs.step _).holds i, hstart⟩ hafter
  refine ⟨⟨hw.main, hw.hot⟩, ⟨hw.idle, hw.old⟩, hw.seen.late, fun m' now' hm' hlive => ?_⟩
  have hheld : m'.group.cache.main.held? key = some entry := (held?_eq hm' .main key).symm.trans hw.main
  exact Member.get_sees (hw.seen.holds m' hm') hheld hlive

/-- The two nodes with a main tier of eight bytes. -/
def narrow : List Founder :=
  sparseOwners.map fun a => { a with config := { a.config with main := ⟨.bytes 8, 1⟩ } }

/-- The first node sets a key that the other one owns. -/
def remoteSet : Paced := (start narrow).step (.plain (.set 0 "1" ⟨#[1]⟩ (.at ⟨100⟩) ⟨1⟩))

/-- It gets the key, becomes the owner and gets it again, gives it back, and sets and removes another key. -/
def thereAndBack : List Event :=
  [.get 0 "1", .advance 0 ⟨2⟩, .advance 0 ⟨3⟩, .advance 0 ⟨4⟩, .setPeers 0 ["a:1"], .get 0 "1",
    .advance 1 ⟨5⟩, .advance 1 ⟨6⟩, .serve 0 "1", .advance 2 ⟨7⟩, .setPeers 0 ["a:1", "b:1"],
    .advance 2 ⟨8⟩, .advance 2 ⟨9⟩, .set 0 "2" ⟨#[2]⟩ .never ⟨10⟩, .removeLocal 0 "2", .get 0 "1"].map .plain

theorem set_stands_there_and_back :
    let w := remoteSet.run thereAndBack
    ((start narrow).admits 0 "1" ⟨#[1]⟩ = true ∧ (start narrow).Idle 0 "1" ∧
      Along step (Standing 0 "1") remoteSet thereAndBack ∧
      remoteSet.admits 0 "1" ⟨#[0, 0, 0, 0, 0, 0, 0, 0]⟩ = false) ∧
    (w.held? 0 .main "1" = some ⟨⟨#[1]⟩, some ⟨100⟩⟩ ∧ w.held? 0 .hot "1" = none) ∧
    (∀ m now, w.cluster.members[0]? = some m → Entry.isExpiredAt ⟨⟨#[1]⟩, some ⟨100⟩⟩ now = false →
      (m.group.get m.membership "1" now).2 = .answer (.ok ⟨#[1]⟩)) ∧
    (remoteSet.step (.plain (.set 0 "1" ⟨#[0, 0, 0, 0, 0, 0, 0, 0]⟩ .never ⟨2⟩))).Lacks 0 "1" := by
  have h : ((start narrow).admits 0 "1" ⟨#[1]⟩ = true ∧
      remoteSet.admits 0 "1" ⟨#[0, 0, 0, 0, 0, 0, 0, 0]⟩ = false) ∧
      decide (Along step (Standing 0 "1") remoteSet thereAndBack) = true ∧
      remoteSet.cluster.members[0]?.isSome = true := by
    cbv
  obtain ⟨⟨hfit, hbig⟩, hafter, hmember⟩ := h
  replace hafter := of_decide_eq_true hafter
  have hidle : (start narrow).Idle 0 "1" := ⟨by rintro n t ⟨⟩, by rintro r q owner ⟨⟩⟩
  obtain ⟨m, hm, hadmits⟩ := exists_of_admits hfit
  obtain ⟨m', hm'⟩ := Option.isSome_iff_exists.mp hmember
  have hlarge : ¬ m'.group.cache.main.Admits "1" ⟨#[0, 0, 0, 0, 0, 0, 0, 0]⟩ := by
    unfold admits at hbig
    rw [hm'] at hbig
    exact of_decide_eq_false hbig
  have hreachable : (start narrow).Reachable := ⟨narrow, [], rfl⟩
  obtain ⟨hheld, -, -, hget⟩ := (set_stands hreachable hm).1 hadmits hidle thereAndBack hafter
  exact ⟨⟨hfit, hidle, hafter, hbig⟩, hheld, hget, (set_stands (hreachable.step _) hm').2 hlarge⟩

end Paced

end PeerCache
