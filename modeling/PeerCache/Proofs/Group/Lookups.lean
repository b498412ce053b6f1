import Mathlib
import PeerCache.Proofs.Coordinator.Records
import PeerCache.Proofs.Group.Acts

/-!
# What counts as a lookup

A tier counts its lookups, and a group its gets; a get looks into one tier and is a hit or a miss there
(`Group.get_cases`).  A second look into the main tier does not count, nor does the look of a load before
it turns to its source: all else that happens to a group is quiet (`Group.Quiet`).

    g.Quiet h                  the counts of gets and lookups are the same
    g.Even                     gets, lookups and calls add up

Gets and quiet steps keep a group even (`Even.get`, `Even.quiet`).
-/

namespace PeerCache

/-! ## Lookups of a tier -/

namespace Tier

/-- What a tier has counted of its lookups. -/
def lookups (t : Tier) : Nat × Nat := (t.tally.hits, t.tally.misses)

variable {t : Tier} {key : String} {now : Instant}

/-- A lookup is a hit or a miss, by what it finds. -/
theorem lookups_get (t : Tier) (key : String) (now : Instant) :
    (∃ e, (t.get key now).2 = some e ∧ (t.get key now).1.lookups = (t.tally.hits + 1, t.tally.misses)) ∨
      ((t.get key now).2 = none ∧ (t.get key now).1.lookups = (t.tally.hits, t.tally.misses + 1)) := by
  unfold get
  rcases (t.shardOf key).get key now t.clock with ⟨shard, e | _ | _⟩
  · exact .inl ⟨e, rfl, rfl⟩
  · dsimp only
    split
    · exact .inr ⟨rfl, rfl⟩
    · exact .inr ⟨rfl, rfl⟩
  · exact .inr ⟨rfl, rfl⟩

theorem popOldest?_tally {x : Slot} {u : Tier} (h : t.popOldest? = some (x, u)) : u.tally = t.tally := by
  unfold popOldest? at h
  obtain ⟨⟨tick, i⟩, -, h⟩ := Option.bind_eq_some_iff.mp h
  obtain ⟨shard, -, h⟩ := Option.bind_eq_some_iff.mp h
  obtain ⟨⟨slot, rest⟩, -, h⟩ := Option.bind_eq_some_iff.mp h
  cases h
  rfl

theorem lookups_reclaim (t : Tier) (x : Slot) (now : Instant) : (t.reclaim x now).lookups = t.lookups := by
  unfold reclaim
  dsimp only
  split
  · rfl
  · rfl

theorem lookups_evictUpTo (now : Instant) (fuel : Nat) (t : Tier) :
    (evictUpTo now fuel t).lookups = t.lookups := by
  induction fuel generalizing t with
  | zero => rfl
  | succ fuel ih =>
    unfold evictUpTo
    split
    · rfl
    · split
      · rfl
      · next x u hpop =>
        rw [ih, lookups_reclaim]
        unfold lookups
        rw [popOldest?_tally hpop]

theorem lookups_discard (t : Tier) (key : String) : (t.discard key).lookups = t.lookups := by
  unfold discard
  split
  · rfl
  · rfl

theorem lookups_place (t : Tier) (key : String) (e : Entry) : (t.place key e).lookups = t.lookups := by
  unfold place
  dsimp only
  split
  · rfl
  · rfl

theorem lookups_put (t : Tier) (key : String) (v : ByteArray) (expireAt : Option Instant) (now : Instant) :
    (t.put key v expireAt now).1.lookups = t.lookups := by
  rw [put_eq]
  split
  · exact t.lookups_discard key
  · exact (lookups_evictUpTo now _ _).trans (t.lookups_place key ⟨v, expireAt⟩)

theorem lookups_remove (t : Tier) (key : String) : (t.remove key).1.lookups = t.lookups := by
  unfold Tier.remove
  split
  · rfl
  · rfl

theorem lookups_resize (t : Tier) (c : Capacity) (now : Instant) : (t.resize c now).lookups = t.lookups :=
  lookups_evictUpTo now _ _

end Tier

namespace Group

variable {g h k : Group} {key : String} {now : Instant}

/-! ## What looks nothing up -/

/-- Nobody has looked anything up in between: the same name, and the same counts of gets and lookups. -/
structure Quiet (g h : Group) : Prop where
  name : h.name = g.name
  gets : h.counters.gets = g.counters.gets
  hits : h.counters.hits = g.counters.hits
  misses : h.counters.misses = g.counters.misses
  lookups : ∀ kind, (h.cache.tier kind).lookups = (g.cache.tier kind).lookups

theorem Quiet.refl (g : Group) : Quiet g g := ⟨rfl, rfl, rfl, rfl, fun _ => rfl⟩

theorem Quiet.trans (hgh : Quiet g h) (hhk : Quiet h k) : Quiet g k :=
  ⟨hhk.name.trans hgh.name, hhk.gets.trans hgh.gets, hhk.hits.trans hgh.hits, hhk.misses.trans hgh.misses,
    fun kind => (hhk.lookups kind).trans (hgh.lookups kind)⟩

theorem quiet_store (g : Group) (kind : TierKind) (key : String) (v : ByteArray) (expireAt : Option Instant)
    (now : Instant) : Quiet g (g.store kind key v expireAt now) := by
  refine ⟨rfl, rfl, rfl, rfl, fun k => ?_⟩
  show ((g.cache.setTier kind _).tier k).lookups = _
  rw [tier_setTier]
  split
  · next hk =>
    subst hk
    exact Tier.lookups_put ..
  · rfl

theorem quiet_setWith (g : Group) (key : String) (v : ByteArray) (e : Expiration) (now : Instant) :
    Quiet g (g.setWith key v e now) := by
  let h : Group :=
    { g with
      counters := { g.counters with sets := g.counters.sets + 1 }
      cache := { g.cache with hot := (g.cache.hot.remove key).1 } }
  have hremoved : Quiet g h := by
    refine ⟨rfl, rfl, rfl, rfl, fun kind => ?_⟩
    cases kind with
    | main => rfl
    | hot => exact g.cache.hot.lookups_remove key
  exact hremoved.trans (h.quiet_store .main key v (e.resolve g.settings.itemExpiration now) now)

theorem quiet_removeLocal (g : Group) (key : String) : Quiet g (g.removeLocal key).1 := by
  refine ⟨rfl, rfl, rfl, rfl, fun kind => ?_⟩
  cases kind with
  | main => exact Tier.lookups_remove ..
  | hot => exact Tier.lookups_remove ..

theorem quiet_reconfigure (g : Group) (c : GroupConfig) (now : Instant) : Quiet g (g.reconfigure c now) := by
  refine ⟨rfl, rfl, rfl, rfl, fun kind => ?_⟩
  cases kind with
  | main => exact Tier.lookups_resize ..
  | hot => exact Tier.lookups_resize ..

theorem quiet_beginLoad (g : Group) (m : Membership) (l : Load) (now : Instant) :
    Quiet g (g.beginLoad m l now).1 := by
  unfold beginLoad
  split
  · split
    · exact .refl g
    · split
      · exact .refl g
      · exact ⟨rfl, rfl, rfl, rfl, fun _ => rfl⟩
  · exact ⟨rfl, rfl, rfl, rfl, fun _ => rfl⟩

theorem quiet_settleBackfill (g : Group) (l : Load) (expireAt : Option Instant) (a : Answer) (now : Instant) :
    Quiet g (g.settleBackfill l expireAt a now).1 := by
  cases a with
  | value v => exact quiet_store ..
  | missing | failed | panicked => exact ⟨rfl, rfl, rfl, rfl, fun _ => rfl⟩

theorem quiet_settleFetch (g : Group) (l : Load) (expireAt : Option Instant) (e : Ending) (now : Instant) :
    Quiet g (g.settleFetch l expireAt e now).1 := by
  rcases e with (err | v) | _
  · exact ⟨rfl, rfl, rfl, rfl, fun _ => rfl⟩
  · exact quiet_store ..
  · exact .refl g

/-! ## What a get counts -/

/-- Hits in both tiers. -/
def tierHits (g : Group) : Nat := g.cache.main.tally.hits + g.cache.hot.tally.hits

def tierMisses (g : Group) : Nat := g.cache.main.tally.misses + g.cache.hot.tally.misses

theorem Quiet.tierHits_eq (hq : Quiet g h) : h.tierHits = g.tierHits :=
  congrArg₂ (· + ·) (congrArg Prod.fst (hq.lookups .main)) (congrArg Prod.fst (hq.lookups .hot))

theorem Quiet.tierMisses_eq (hq : Quiet g h) : h.tierMisses = g.tierMisses :=
  congrArg₂ (· + ·) (congrArg Prod.snd (hq.lookups .main)) (congrArg Prod.snd (hq.lookups .hot))

theorem tierHits_setTier (g : Group) (kind : TierKind) (t : Tier) :
    tierHits { g with cache := g.cache.setTier kind t } + (g.cache.tier kind).tally.hits =
      g.tierHits + t.tally.hits := by
  cases kind with
  | main | hot =>
    simp only [tierHits, TierPair.setTier, TierPair.tier]
    omega

theorem tierMisses_setTier (g : Group) (kind : TierKind) (t : Tier) :
    tierMisses { g with cache := g.cache.setTier kind t } + (g.cache.tier kind).tally.misses =
      g.tierMisses + t.tally.misses := by
  cases kind with
  | main | hot =>
    simp only [tierMisses, TierPair.setTier, TierPair.tier]
    omega

/-- A probe is a hit or a miss of one tier. -/
theorem probe_counts (g : Group) (kind : TierKind) (key : String) (now : Instant) :
    (∃ v, (g.probe kind key now).2 = some v ∧ (g.probe kind key now).1.tierHits = g.tierHits + 1 ∧
        (g.probe kind key now).1.tierMisses = g.tierMisses) ∨
      ((g.probe kind key now).2 = none ∧ (g.probe kind key now).1.tierHits = g.tierHits ∧
        (g.probe kind key now).1.tierMisses = g.tierMisses + 1) := by
  have hhits := g.tierHits_setTier kind ((g.cache.tier kind).get key now).1
  have hmisses := g.tierMisses_setTier kind ((g.cache.tier kind).get key now).1
  have hprobe : g.probe kind key now =
      ({ g with cache := g.cache.setTier kind ((g.cache.tier kind).get key now).1 },
        ((g.cache.tier kind).get key now).2.map (·.value)) := rfl
  rw [hprobe]
  dsimp only
  rcases (g.cache.tier kind).lookups_get key now with ⟨e, hfound, hlookups⟩ | ⟨hfound, hlookups⟩
  · obtain ⟨hh, hm⟩ := Prod.mk.inj hlookups
    exact .inl ⟨e.value, by rw [hfound]; rfl, by omega, by omega⟩
  · obtain ⟨hh, hm⟩ := Prod.mk.inj hlookups
    exact .inr ⟨by rw [hfound]; rfl, by omega, by omega⟩

/-- A get has been counted, and has looked into one tier. -/
structure Looked (g p : Group) : Prop where
  name : p.name = g.name
  coordinator : p.coordinator = g.coordinator
  counters : p.counters = { g.counters with gets := g.counters.gets + 1 }
  lookups : p.tierHits + p.tierMisses = g.tierHits + g.tierMisses + 1

/-- **A get looks into one tier, and is a hit or a miss**: it answers, perhaps with what a second look has
found, or goes on to the coordinator. -/
theorem get_cases (g : Group) (m : Membership) (key : String) (now : Instant) :
    ∃ p, Looked g p ∧
      ((∃ v, g.get m key now = (p.countHit, .answer (.ok v)) ∧ p.tierHits ≤ g.tierHits + 1) ∨
        (g.get m key now = p.countMiss.join key (m.ownerOf key) ∧ p.tierHits = g.tierHits)) := by
  have hprobe := g.countGet.probe_counts (home (m.isLocal (m.ownerOf key))) key now
  rw [show g.countGet.tierHits = g.tierHits from rfl, show g.countGet.tierMisses = g.tierMisses from rfl] at hprobe
  rw [get_eq]
  have hname := g.countGet.probe_aside (home (m.isLocal (m.ownerOf key))) key now
  have hcounters : (g.countGet.probe (home (m.isLocal (m.ownerOf key))) key now).1.counters =
      { g.counters with gets := g.counters.gets + 1 } := rfl
  generalize g.countGet.probe (home (m.isLocal (m.ownerOf key))) key now = p at hprobe hname hcounters ⊢
  obtain ⟨p, found⟩ := p
  dsimp only at hprobe hname hcounters
  rcases hprobe with ⟨v, hfound, hhits, hmisses⟩ | ⟨hfound, hhits, hmisses⟩
  · refine ⟨p, ⟨hname.name, hname.coordinator, hcounters, by omega⟩, .inl ⟨v, ?_, Nat.le_of_eq hhits⟩⟩
    rw [hfound]
    rfl
  · refine ⟨p, ⟨hname.name, hname.coordinator, hcounters, by omega⟩, ?_⟩
    rw [hfound, Option.none_or]
    cases (if m.isLocal (m.ownerOf key) then none else p.glance key now) with
    | some v => exact .inl ⟨v, rfl, by omega⟩
    | none => exact .inr ⟨rfl, hhits⟩

/-- A call that waits counts as a load if it has started one, and otherwise as coalesced. -/
theorem join_counts (g : Group) (key : String) (owner : Peer) :
    ∃ h n started, g.join key owner = (h, .waiting n started) ∧ h.cache = g.cache ∧ h.counters = g.counters ∧
      h.coordinator.loads = g.coordinator.loads + started.isSome.toNat ∧
      h.coordinator.coalesced = g.coordinator.coalesced + (!started.isSome).toNat := by
  have hcounts := g.coordinator.join_counts g.name key
  unfold join
  generalize g.coordinator.join g.name key = r at hcounts ⊢
  obtain ⟨c, n, starts⟩ := r
  refine ⟨_, _, _, rfl, rfl, rfl, ?_⟩
  cases starts <;> exact hcounts

/-- The counts of gets, lookups and calls add up. -/
structure Even (g : Group) : Prop where
  gets : g.counters.gets = g.counters.hits + g.counters.misses
  lookups : g.counters.gets = g.tierHits + g.tierMisses
  tierHits : g.tierHits ≤ g.counters.hits
  misses : g.counters.misses = g.coordinator.loads + g.coordinator.coalesced

theorem even_create (c : GroupConfig) : (create c).Even := ⟨rfl, rfl, Nat.le_refl 0, rfl⟩

theorem Even.quiet (hg : g.Even) (hq : g.Quiet h) (hloads : h.coordinator.loads = g.coordinator.loads)
    (hcoalesced : h.coordinator.coalesced = g.coordinator.coalesced) : h.Even := by
  have hhits := hq.tierHits_eq
  have hmisses := hq.tierMisses_eq
  obtain ⟨-, hgets, hh, hm, -⟩ := hq
  obtain ⟨hgets', hlookups, htier, hmisses'⟩ := hg
  exact ⟨by omega, by omega, by omega, by omega⟩

/-- A get counts a hit, or a miss with a call that waits. -/
theorem Even.get (hg : g.Even) (m : Membership) (key : String) (now : Instant) : (g.get m key now).1.Even := by
  obtain ⟨hgets, hlookups, htier, hmisses⟩ := hg
  obtain ⟨p, ⟨-, hcoordinator, hcounters, hlooked⟩, ⟨v, hget, hhits⟩ | ⟨hget, hhits⟩⟩ := g.get_cases m key now
  · rw [hget]
    have hsame : p.countHit.coordinator = g.coordinator := hcoordinator
    have hcounts : p.countHit.counters =
        { g.counters with gets := g.counters.gets + 1, hits := g.counters.hits + 1 } := by
      rw [countHit, hcounters]
    have htiers : p.countHit.tierHits = p.tierHits ∧ p.countHit.tierMisses = p.tierMisses := ⟨rfl, rfl⟩
    refine ⟨?_, ?_, ?_, ?_⟩ <;> simp only [hcounts, hsame, htiers] <;> omega
  · obtain ⟨h, n, started, hjoin, hcache, hjoined, hloads, hcoalesced⟩ :=
      p.countMiss.join_counts key (m.ownerOf key)
    rw [hget, hjoin]
    have hsame : p.countMiss.coordinator = g.coordinator := hcoordinator
    have hcounts : h.counters =
        { g.counters with gets := g.counters.gets + 1, misses := g.counters.misses + 1 } := by
      rw [hjoined, countMiss, hcounters]
    have htiers : h.tierHits = p.tierHits ∧ h.tierMisses = p.tierMisses := by
      unfold Group.tierHits Group.tierMisses
      rw [hcache]
      exact ⟨rfl, rfl⟩
    have hone : started.isSome.toNat + (!started.isSome).toNat = 1 := by cases started.isSome <;> rfl
    rw [hsame] at hloads hcoalesced
    refine ⟨?_, ?_, ?_, ?_⟩ <;> simp only [hcounts, hloads, hcoalesced, htiers] <;> omega

end Group

end PeerCache
