import Mathlib
import PeerCache.Group.Basic
import PeerCache.Proofs.Cache.Contents
import PeerCache.Proofs.Coordinator.Flights

/-!
# The steps of a group

What each step of a get or a load can come to, what it leaves alone (`Group.Aside`: name, settings
and flights), and that it puts nothing into the tiers but the value it stores (`Group.Holds`).
-/

namespace PeerCache

namespace Group

variable {P : String → ByteArray → Prop}

/-! ## What the tiers hold, and what stands aside -/

/-- All entries of both tiers have a property. -/
structure Holds (P : String → ByteArray → Prop) (g : Group) : Prop where
  main : g.cache.main.Holds P
  hot : g.cache.hot.Holds P

theorem Holds.congr {g h : Group} (hg : g.Holds P) (hc : h.cache = g.cache) : h.Holds P :=
  ⟨hc ▸ hg.main, hc ▸ hg.hot⟩

theorem Holds.tier {g : Group} (hg : g.Holds P) (k : TierKind) : (g.cache.tier k).Holds P := by
  cases k with
  | main => exact hg.main
  | hot => exact hg.hot

theorem Holds.setTier {g : Group} (hg : g.Holds P) (k : TierKind) {t : Tier} (ht : t.Holds P) :
    Holds P { g with cache := g.cache.setTier k t } := by
  cases k with
  | main => exact ⟨ht, hg.hot⟩
  | hot => exact ⟨hg.main, ht⟩

/-- The same name, settings and flights. -/
structure Aside (g h : Group) : Prop where
  name : h.name = g.name
  settings : h.settings = g.settings
  coordinator : h.coordinator = g.coordinator

theorem Aside.refl (g : Group) : Aside g g := ⟨rfl, rfl, rfl⟩

theorem Aside.trans {g h k : Group} (hgh : Aside g h) (hhk : Aside h k) : Aside g k :=
  ⟨hhk.name.trans hgh.name, hhk.settings.trans hgh.settings, hhk.coordinator.trans hgh.coordinator⟩

theorem holds_create (P : String → ByteArray → Prop) (c : GroupConfig) : (create c).Holds P :=
  ⟨Tier.holds_create P .main c.main, Tier.holds_create P .hot c.hot⟩

/-! ## Reading -/

theorem accept_aside (g : Group) (m : Membership) (key : String) :
    Aside g (g.accept m key).1 ∧ (g.accept m key).1.cache = g.cache :=
  ⟨⟨rfl, rfl, rfl⟩, rfl⟩

/-- A refusal says who the owner is. -/
theorem accept_eq_some {g : Group} {m : Membership} {key : String} {e : Error}
    (h : (g.accept m key).2 = some e) : e = .notOwned g.name key (m.ownerOf key).addr := by
  unfold accept at h
  simp only at h
  split at h
  · cases h
  · exact (Option.some.inj h).symm

theorem probe_aside (g : Group) (kind : TierKind) (key : String) (now : Instant) :
    Aside g (g.probe kind key now).1 :=
  ⟨rfl, rfl, rfl⟩

theorem Holds.probe {g : Group} (hg : g.Holds P) (kind : TierKind) (key : String) (now : Instant) :
    (g.probe kind key now).1.Holds P ∧ ∀ v, (g.probe kind key now).2 = some v → P key v := by
  obtain ⟨ht, hv⟩ := (hg.tier kind).get key now
  refine ⟨hg.setTier kind ht, ?_⟩
  intro v hp
  obtain ⟨e, he, rfl⟩ := Option.map_eq_some_iff.mp hp
  exact hv e he

theorem Holds.glance {g : Group} (hg : g.Holds P) {key : String} {now : Instant} {v : ByteArray}
    (hv : g.glance key now = some v) : P key v := by
  obtain ⟨e, he, rfl⟩ := Option.map_eq_some_iff.mp hv
  exact hg.main.peek he

/-- **Everything that joining can do to a group**: it waits for a load that flies for the key, or
starts one under the next number. -/
theorem join_cases (g : Group) (key : String) (owner : Peer) :
    (∃ c n, g.join key owner = ({ g with coordinator := c }, .waiting n none) ∧
      (n, g.name, key) ∈ g.coordinator.sites ∧ c.sites = g.coordinator.sites ∧
      c.nextLoad = g.coordinator.nextLoad) ∨
    (∃ c n, g.join key owner = ({ g with coordinator := c }, .waiting n (some ⟨n, key, owner⟩)) ∧
      n = g.coordinator.nextLoad ∧ (∀ k, (k, g.name, key) ∉ g.coordinator.sites) ∧
      c.sites = (n, g.name, key) :: g.coordinator.sites ∧ c.nextLoad = g.coordinator.nextLoad + 1) := by
  unfold join
  rcases g.coordinator.join_cases g.name key with ⟨n, hn, ht, hs, hnext⟩ | ⟨hnone, ht, hs, hnext⟩
  · left
    refine ⟨_, n, ?_, hn, hs, hnext⟩
    simp only [ht]
    rfl
  · right
    refine ⟨_, _, ?_, rfl, hnone, hs, hnext⟩
    simp only [ht]
    rfl

/-- A get is a probe, a second look where it may help, and the coordinator if neither finds anything. -/
theorem get_eq (g : Group) (m : Membership) (key : String) (now : Instant) :
    let owner := m.ownerOf key
    let p := g.countGet.probe (home (m.isLocal owner)) key now
    g.get m key now =
      (p.2.or (if m.isLocal owner then none else p.1.glance key now)).elim (p.1.countMiss.join key owner)
        fun v => (p.1.countHit, .answer (.ok v)) := by
  unfold get lookup lookupTiers
  dsimp only
  rcases g.countGet.probe (home (m.isLocal (m.ownerOf key))) key now with ⟨h, _ | v⟩
  · dsimp only [Option.none_or]
    cases (if m.isLocal (m.ownerOf key) then none else h.glance key now) with
    | some v => rfl
    | none => rfl
  · rfl

theorem servePeer_eq (g : Group) (m : Membership) (key : String) (now : Instant) :
    g.servePeer m key now =
      (g.accept m key).2.elim ((g.accept m key).1.get m key now)
        fun e => ((g.accept m key).1, .answer (.error e)) := by
  unfold servePeer
  obtain ⟨h, refused⟩ := g.accept m key
  cases refused <;> rfl

/-! ## Loading -/

/-- **Everything that a load can begin with**: what the main tier holds after all, no source, the
source, or a fetch from the owner of the get that started it. -/
theorem beginLoad_cases (g : Group) (m : Membership) (l : Load) (now : Instant) :
    Aside g (g.beginLoad m l now).1 ∧ (g.beginLoad m l now).1.cache = g.cache ∧
      ((∃ e, m.isLocal l.owner = true ∧ g.cache.main.peek l.key now = some e ∧
          (g.beginLoad m l now).2 = .ended (.returned (.ok e.value))) ∨
        (m.isLocal l.owner = true ∧ g.settings.backfill = none ∧
          (g.beginLoad m l now).2 = .ended (.returned (.error (.noBackfill g.name)))) ∨
        (∃ b, m.isLocal l.owner = true ∧ g.settings.backfill = some b ∧
          (g.beginLoad m l now).2 = .ask b (g.defaultExpiry now)) ∨
        (m.isLocal l.owner = false ∧ (g.beginLoad m l now).2 = .fetch l.owner (g.defaultExpiry now))) := by
  unfold beginLoad
  cases hl : m.isLocal l.owner with
  | false => exact ⟨⟨rfl, rfl, rfl⟩, rfl, .inr (.inr (.inr ⟨rfl, rfl⟩))⟩
  | true =>
    cases hp : g.cache.main.peek l.key now with
    | some e => exact ⟨Aside.refl g, rfl, .inl ⟨e, rfl, rfl, rfl⟩⟩
    | none =>
      cases hb : g.settings.backfill with
      | none => exact ⟨Aside.refl g, rfl, .inr (.inl ⟨rfl, rfl, rfl⟩)⟩
      | some b => exact ⟨⟨rfl, rfl, rfl⟩, rfl, .inr (.inr (.inl ⟨b, rfl, rfl, rfl⟩))⟩

theorem Holds.store {g : Group} (hg : g.Holds P) {kind : TierKind} {key : String} {v : ByteArray}
    (hv : P key v) (expireAt : Option Instant) (now : Instant) :
    (g.store kind key v expireAt now).Holds P :=
  hg.setTier kind ((hg.tier kind).put hv expireAt now)

theorem settleBackfill_aside (g : Group) (l : Load) (expireAt : Option Instant) (a : Answer)
    (now : Instant) : Aside g (g.settleBackfill l expireAt a now).1 := by
  cases a <;> exact ⟨rfl, rfl, rfl⟩

/-- A load that asks its source returns a value, or leaves the tiers as they are. -/
theorem settleBackfill_cache (g : Group) (l : Load) (expireAt : Option Instant) (a : Answer) (now : Instant) :
    (∃ v, (g.settleBackfill l expireAt a now).2 = .returned (.ok v)) ∨
      (g.settleBackfill l expireAt a now).1.cache = g.cache := by
  cases a with
  | value v => exact .inl ⟨v, rfl⟩
  | missing | failed | panicked => exact .inr rfl

theorem Holds.settleBackfill {g : Group} (hg : g.Holds P) {l : Load} {expireAt : Option Instant}
    {a : Answer} {now : Instant} (ha : ∀ v, a = .value v → P l.key v) :
    (g.settleBackfill l expireAt a now).1.Holds P := by
  cases a with
  | value v => exact hg.store (ha v rfl) expireAt now
  | missing => exact hg.congr rfl
  | failed text => exact hg.congr rfl
  | panicked => exact hg

theorem settleFetch_aside (g : Group) (l : Load) (expireAt : Option Instant) (e : Ending)
    (now : Instant) : Aside g (g.settleFetch l expireAt e now).1 := by
  rcases e with (_ | _) | _ <;> exact ⟨rfl, rfl, rfl⟩

/-- A fetch ends a load as it has ended itself. -/
theorem settleFetch_ending (g : Group) (l : Load) (expireAt : Option Instant) (e : Ending)
    (now : Instant) : (g.settleFetch l expireAt e now).2 = e := by
  rcases e with (_ | _) | _ <;> rfl

theorem settleFetch_cache (g : Group) (l : Load) (expireAt : Option Instant) (e : Ending) (now : Instant) :
    (∃ v, (g.settleFetch l expireAt e now).2 = .returned (.ok v)) ∨
      (g.settleFetch l expireAt e now).1.cache = g.cache := by
  rcases e with (err | v) | _
  · exact .inr rfl
  · exact .inl ⟨v, rfl⟩
  · exact .inr rfl

theorem Holds.settleFetch {g : Group} (hg : g.Holds P) {l : Load} {expireAt : Option Instant}
    {e : Ending} {now : Instant} (he : ∀ v, e = .returned (.ok v) → P l.key v) :
    (g.settleFetch l expireAt e now).1.Holds P := by
  rcases e with (err | v) | _
  · exact hg.congr rfl
  · exact hg.store (he v rfl) expireAt now
  · exact hg

/-! ## Writing and configuring -/

theorem removeLocal_aside (g : Group) (key : String) :
    Aside g (g.removeLocal key).1 := ⟨rfl, rfl, rfl⟩

theorem Holds.removeLocal {g : Group} (hg : g.Holds P) (key : String) :
    (g.removeLocal key).1.Holds P :=
  ⟨hg.main.remove key, hg.hot.remove key⟩

theorem Holds.reconfigure {g : Group} (hg : g.Holds P) (c : GroupConfig) (now : Instant) :
    (g.reconfigure c now).Holds P :=
  ⟨hg.main.resize c.main.capacity now, hg.hot.resize c.hot.capacity now⟩

end Group

end PeerCache
