import Mathlib
import PeerCache.Proofs.Cache.OneKey
import PeerCache.Proofs.Group.Acts

/-!
# What a failure leaves alone

A get that finds nothing may have dropped an entry on its way: what it has met under its own key, and
found expired.  Nothing else of the tiers has changed, nor has it when the load after it fails, for
whatever reason (`Group.Spares`):

    g.get m key now answers with a value, or starts a load and spares g        (get_cases)
    a load returns a value, or leaves the tiers as they are                    (Loads.cases)

So what can still be read is there as it was, in its order of use (`Tier.Spares.live`).
-/

namespace PeerCache

/-- Once expired, always expired. -/
theorem Entry.isExpiredAt_mono {e : Entry} {now t : Instant} (h : e.isExpiredAt now = true)
    (ht : now.nanos ≤ t.nanos) : e.isExpiredAt t = true := by
  unfold isExpiredAt at h ⊢
  cases hx : e.expireAt with
  | none =>
    rw [hx] at h
    cases h
  | some x =>
    rw [hx] at h
    simp only [decide_eq_true_eq] at h ⊢
    omega

namespace Lru

/-- What can be read at a moment, in the order of use. -/
def live (l : Lru) (t : Instant) : List (String × Entry) := l.entries.filter fun p => !p.2.isExpiredAt t

/-- The entries without what has expired under one key. -/
def swept (l : Lru) (key : String) (now : Instant) : List (String × Entry) :=
  l.entries.filter fun p => !(p.1 == key && p.2.isExpiredAt now)

end Lru

namespace Tier

variable {t u : Tier} {key : String} {now : Instant}

/-- At most what has expired under the key is gone. -/
structure Spares (key : String) (now : Instant) (t u : Tier) : Prop where
  capacity : u.capacity = t.capacity
  entries : u.view.entries = t.view.entries ∨ u.view.entries = t.view.swept key now

theorem Spares.refl (key : String) (now : Instant) (t : Tier) : Spares key now t t := ⟨rfl, .inl rfl⟩

/-- What can still be read is all there. -/
theorem Spares.live (h : Spares key now t u) {later : Instant} (hle : now.nanos ≤ later.nanos) :
    u.view.live later = t.view.live later := by
  unfold Lru.live
  rcases h.entries with heq | heq
  · rw [heq]
  · rw [heq]
    unfold Lru.swept
    rw [List.filter_filter]
    refine List.filter_congr fun p _ => ?_
    cases hnow : p.2.isExpiredAt now with
    | false => simp
    | true => simp [Entry.isExpiredAt_mono hnow hle]

/-- A lookup in vain. -/
theorem Sound.spares_get (h : t.Sound) (hnone : (t.get key now).2 = none) :
    Spares key now t (t.get key now).1 := by
  refine ⟨h.apply_capacity (.get key now), ?_⟩
  have hview := view_get h key now
  have hentries : (t.get key now).1.view.entries = (t.view.get key now).1.entries := by rw [hview]
  have hmiss : (t.view.get key now).2 = none := by rw [hview]; exact hnone
  rw [hentries]
  unfold Lru.get at hmiss ⊢
  cases hf : t.view.find? key with
  | none => exact .inl rfl
  | some e =>
    rw [hf] at hmiss
    cases hx : e.isExpiredAt now with
    | false => simp [hx] at hmiss
    | true =>
      -- a key has one entry, so what goes is this one
      right
      simp only [hx, ↓reduceIte]
      refine List.filter_congr fun p hp => ?_
      by_cases hk : p.1 = key
      · have hheld : t.held? p.1 = some p.2 := h.toLaid.held?_iff.mpr hp
        rw [hk, ← find?_view h.toLaid, hf] at hheld
        cases hheld
        simp [hk, hx]
      · have hne : (p.1 == key) = false := beq_eq_false_iff_ne.mpr hk
        simp [bne, hne]

end Tier

namespace Group

variable {g h h' : Group} {key : String} {now : Instant} {m : Membership} {l : Load} {e : Ending}

/-- The same name, settings and bounds, and at most what has expired under the key is gone. -/
structure Spares (key : String) (now : Instant) (g h : Group) : Prop where
  name : h.name = g.name
  settings : h.settings = g.settings
  tier : ∀ kind, (g.cache.tier kind).Spares key now (h.cache.tier kind)

theorem Spares.refl (key : String) (now : Instant) (g : Group) : Spares key now g g :=
  ⟨rfl, rfl, fun kind => .refl key now (g.cache.tier kind)⟩

/-- What does not touch the tiers spares what has been spared before. -/
theorem Spares.then (hg : g.Spares key now h) (hname : h'.name = h.name) (hsettings : h'.settings = h.settings)
    (hcache : h'.cache = h.cache) : g.Spares key now h' :=
  ⟨hname.trans hg.name, hsettings.trans hg.settings, fun kind => hcache ▸ hg.tier kind⟩

theorem Sound.spares_probe (hg : g.Sound) {kind : TierKind} (hnone : (g.probe kind key now).2 = none) :
    g.Spares key now (g.probe kind key now).1 := by
  refine ⟨rfl, rfl, fun k => ?_⟩
  show (g.cache.tier k).Spares key now ((g.cache.setTier kind ((g.cache.tier kind).get key now).1).tier k)
  rw [tier_setTier]
  by_cases hk : k = kind
  · subst hk
    rw [if_pos rfl]
    refine (hg k).1.spares_get ?_
    exact Option.map_eq_none_iff.mp hnone
  · rw [if_neg hk]
    exact .refl key now _

/-! ## Gets -/

/-- **What a get does while no load is on its way**: it answers with a value, or starts a load and
spares the tiers. -/
theorem Sound.get_cases (hg : g.Sound) (hidle : g.coordinator.sites = []) (m : Membership) (key : String)
    (now : Instant) :
    (∃ v, (g.get m key now).2 = .answer (.ok v) ∧ (g.get m key now).1.coordinator.sites = []) ∨
    (∃ n owner, (g.get m key now).2 = .waiting n (some ⟨n, key, owner⟩) ∧
      (g.get m key now).1.coordinator.sites = [(n, g.name, key)] ∧ g.Spares key now (g.get m key now).1) := by
  let p := g.countGet.probe (home (m.isLocal (m.ownerOf key))) key now
  have hcount : g.countGet.Sound := hg
  rw [get_eq]
  generalize hfound : Option.or _ _ = found
  cases found with
  | some v => exact .inl ⟨v, rfl, hidle⟩
  | none =>
    right
    have hprobed := hcount.spares_probe (Option.or_eq_none_iff.mp hfound).1
    have hsites : p.1.countMiss.coordinator.sites = [] := hidle
    rcases p.1.countMiss.join_cases key (m.ownerOf key) with
      ⟨c, n, -, hsite, -⟩ | ⟨c, n, hjoin, -, -, hadded, -⟩
    · rw [hsites] at hsite
      cases hsite
    · rw [Option.elim_none, hjoin]
      refine ⟨n, m.ownerOf key, rfl, ?_, hprobed.name, hprobed.settings, hprobed.tier⟩
      rw [hadded, hsites]
      rfl

/-- A request of another peer is refused, or goes on like a get. -/
theorem Sound.servePeer_cases (hg : g.Sound) (hidle : g.coordinator.sites = []) (m : Membership)
    (key : String) (now : Instant) :
    (∃ o, (g.servePeer m key now).2 = .answer o ∧ (g.servePeer m key now).1.coordinator.sites = [] ∧
      ((∃ v, o = .ok v) ∨ g.Spares key now (g.servePeer m key now).1)) ∨
    (∃ n owner, (g.servePeer m key now).2 = .waiting n (some ⟨n, key, owner⟩) ∧
      (g.servePeer m key now).1.coordinator.sites = [(n, g.name, key)] ∧
      g.Spares key now (g.servePeer m key now).1) := by
  have haccept : (g.accept m key).1.Sound := hg
  rw [servePeer_eq]
  cases (g.accept m key).2 with
  | none =>
    rcases haccept.get_cases hidle m key now with ⟨v, hv, hsites⟩ | ⟨n, owner, hwait, hsites, hspares⟩
    · exact .inl ⟨.ok v, hv, hsites, .inl ⟨v, rfl⟩⟩
    · exact .inr ⟨n, owner, hwait, hsites, hspares.name, hspares.settings, hspares.tier⟩
  | some e => exact .inl ⟨.error e, rfl, hidle, .inr ((Spares.refl key now g).then rfl rfl rfl)⟩

/-! ## Loads -/

/-- A load of the group from its beginning to its end, with nothing else in between.  It may begin at
any time; what the source or the owner answers, and when, is not up to the node. -/
inductive Loads (m : Membership) (l : Load) (g : Group) : Group → Ending → Prop where
  | ended {t : Instant} {g₁ : Group} {e : Ending} (begin : g.beginLoad m l t = (g₁, .ended e)) :
      Loads m l g (g₁.release l) e
  | asked {t u : Instant} {source : Backfill} {expireAt : Option Instant} {a : Answer} {g₁ g₂ : Group}
      {e : Ending} (begin : g.beginLoad m l t = (g₁, .ask source expireAt))
      (settle : g₁.settleBackfill l expireAt a u = (g₂, e)) : Loads m l g (g₂.release l) e
  | fetched {t u : Instant} {owner : Peer} {expireAt : Option Instant} {x : Ending} {g₁ g₂ : Group}
      {e : Ending} (begin : g.beginLoad m l t = (g₁, .fetch owner expireAt))
      (settle : g₁.settleFetch l expireAt x u = (g₂, e)) : Loads m l g (g₂.release l) e

/-- Every load can come to its end. -/
theorem exists_loads (g : Group) (m : Membership) (l : Load) (t : Instant) : ∃ h e, g.Loads m l h e := by
  rcases hbegin : g.beginLoad m l t with ⟨g₁, first⟩
  cases first with
  | ended e => exact ⟨_, _, .ended hbegin⟩
  | ask source expireAt => exact ⟨_, _, .asked (a := .missing) (u := t) hbegin rfl⟩
  | fetch owner expireAt => exact ⟨_, _, .fetched (x := .panicked) (u := t) hbegin rfl⟩

/-- **Everything that a load can do to its group**: a sequence of acts, at the end of which its flight
is gone; and the tiers are what they were unless it returns a value. -/
theorem Loads.cases (hl : g.Loads m l h e) :
    (∃ as, h = g.acts as) ∧ ∃ g', Aside g g' ∧ h = g'.release l ∧
      ((∃ v, e = .returned (.ok v)) ∨ g'.cache = g.cache) := by
  cases hl with
  | @ended t g₁ _ hbegin =>
    obtain ⟨haside, hcache, -⟩ := g.beginLoad_cases m l t
    have hacts : g₁.release l = g.acts [.beginLoad m l t, .release l] := by
      show _ = (g.beginLoad m l t).1.release l
      rw [hbegin]
    rw [hbegin] at haside hcache
    exact ⟨⟨_, hacts⟩, g₁, haside, rfl, .inr hcache⟩
  | @asked t u source expireAt a g₁ g₂ _ hbegin hsettle =>
    obtain ⟨haside, hcache, -⟩ := g.beginLoad_cases m l t
    have hacts : g₂.release l = g.acts [.beginLoad m l t, .settleBackfill l expireAt a u, .release l] := by
      show _ = ((g.beginLoad m l t).1.settleBackfill l expireAt a u).1.release l
      rw [hbegin, hsettle]
    have hsettled := g₁.settleBackfill_aside l expireAt a u
    have hstored := g₁.settleBackfill_cache l expireAt a u
    rw [hbegin] at haside hcache
    rw [hsettle] at hsettled hstored
    exact ⟨⟨_, hacts⟩, g₂, haside.trans hsettled, rfl, hstored.imp_right fun h => h.trans hcache⟩
  | @fetched t u owner expireAt x g₁ g₂ _ hbegin hsettle =>
    obtain ⟨haside, hcache, -⟩ := g.beginLoad_cases m l t
    have hacts : g₂.release l = g.acts [.beginLoad m l t, .settleFetch l expireAt x u, .release l] := by
      show _ = ((g.beginLoad m l t).1.settleFetch l expireAt x u).1.release l
      rw [hbegin, hsettle]
    have hsettled := g₁.settleFetch_aside l expireAt x u
    have hstored := g₁.settleFetch_cache l expireAt x u
    rw [hbegin] at haside hcache
    rw [hsettle] at hsettled hstored
    exact ⟨⟨_, hacts⟩, g₂, haside.trans hsettled, rfl, hstored.imp_right fun h => h.trans hcache⟩

/-- The only load on its way leaves none. -/
theorem Loads.sites (hl : g.Loads m l h e) (hsites : g.coordinator.sites = [(l.number, g.name, l.key)]) :
    h.coordinator.sites = [] := by
  obtain ⟨-, g', haside, rfl, -⟩ := hl.cases
  show (g'.coordinator.drop g'.name l.key l.number).sites = []
  rw [haside.coordinator, haside.name, Coordinator.drop_sites, hsites]
  simp

/-- A load that fails spares the tiers. -/
theorem Loads.spares (hl : g.Loads m l h e) (hfails : ∀ v, e ≠ .returned (.ok v)) {g₀ : Group}
    (hg : g₀.Spares key now g) : g₀.Spares key now h := by
  obtain ⟨-, g', haside, rfl, ⟨v, hv⟩ | hcache⟩ := hl.cases
  · exact absurd hv (hfails v)
  · exact hg.then haside.name haside.settings hcache

end Group

end PeerCache
