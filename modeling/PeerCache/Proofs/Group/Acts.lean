import Mathlib
import PeerCache.Proofs.Group.Steps

/-!
# What happens to a group between two registrations

Callers, loads and writers act on a group in any order, each with one small step after the other
(`Group.Act`).  Whatever they do, the group keeps its name, its settings and the bounds of its tiers,
and a tier sees at most one operation, which is no resize (`act_tier`).

A get, a request of another peer, and every other function on the group is such a sequence of acts
(`exists_acts_get`, `exists_acts_servePeer`).
-/

namespace PeerCache

namespace Group

/-- One step of a caller, a load or a writer. -/
inductive Act where
  | countGet
  | countHit
  | countMiss
  | accept (m : Membership) (key : String)
  | probe (kind : TierKind) (key : String) (now : Instant)
  | join (key : String) (owner : Peer)
  | beginLoad (m : Membership) (l : Load) (now : Instant)
  | settleBackfill (l : Load) (expireAt : Option Instant) (a : Answer) (now : Instant)
  | settleFetch (l : Load) (expireAt : Option Instant) (e : Ending) (now : Instant)
  | release (l : Load)
  | setWith (key : String) (v : ByteArray) (e : Expiration) (now : Instant)
  | removeLocal (key : String)

def act (g : Group) : Act → Group
  | .countGet => g.countGet
  | .countHit => g.countHit
  | .countMiss => g.countMiss
  | .accept m key => (g.accept m key).1
  | .probe kind key now => (g.probe kind key now).1
  | .join key owner => (g.join key owner).1
  | .beginLoad m l now => (g.beginLoad m l now).1
  | .settleBackfill l expireAt a now => (g.settleBackfill l expireAt a now).1
  | .settleFetch l expireAt e now => (g.settleFetch l expireAt e now).1
  | .release l => g.release l
  | .setWith key v e now => g.setWith key v e now
  | .removeLocal key => (g.removeLocal key).1

def acts (g : Group) (as : List Act) : Group := as.foldl act g

variable {g : Group}

/-! ## What an act can do -/

theorem act_name (g : Group) (a : Act) : (g.act a).name = g.name := by
  cases a with
  | beginLoad m l now => exact (g.beginLoad_cases m l now).1.name
  | settleBackfill l expireAt a now => exact (g.settleBackfill_aside l expireAt a now).name
  | settleFetch l expireAt e now => exact (g.settleFetch_aside l expireAt e now).name
  | _ => rfl

theorem act_settings (g : Group) (a : Act) : (g.act a).settings = g.settings := by
  cases a with
  | beginLoad m l now => exact (g.beginLoad_cases m l now).1.settings
  | settleBackfill l expireAt a now => exact (g.settleBackfill_aside l expireAt a now).settings
  | settleFetch l expireAt e now => exact (g.settleFetch_aside l expireAt e now).settings
  | _ => rfl

theorem tier_setTier (p : TierPair) (k kind : TierKind) (t : Tier) :
    (p.setTier k t).tier kind = if kind = k then t else p.tier kind := by
  cases k <;> cases kind <;> rfl

/-- An operation that leaves the bound alone. -/
def IsPlain : Tier.Op → Prop
  | .resize .. => False
  | _ => True

/-- **Everything that an act can do to a tier**: nothing, or one operation that is no resize. -/
theorem act_tier (g : Group) (a : Act) (kind : TierKind) :
    (g.act a).cache.tier kind = g.cache.tier kind ∨
      ∃ op, IsPlain op ∧ (g.act a).cache.tier kind = ((g.cache.tier kind).apply op).1 := by
  have hset {h : Group} (k : TierKind) (op : Tier.Op) (hop : IsPlain op)
      (hcache : h.cache = g.cache.setTier k ((g.cache.tier k).apply op).1) :
      h.cache.tier kind = g.cache.tier kind ∨
        ∃ op, IsPlain op ∧ h.cache.tier kind = ((g.cache.tier kind).apply op).1 := by
    rw [hcache, tier_setTier]
    by_cases hk : kind = k
    · subst hk
      rw [if_pos rfl]
      exact .inr ⟨op, hop, rfl⟩
    · rw [if_neg hk]
      exact .inl rfl
  cases a with
  | countGet | countHit | countMiss | accept | join | release => exact .inl rfl
  | probe k key now => exact hset k (.get key now) trivial rfl
  | beginLoad m l now =>
    left
    show (g.beginLoad m l now).1.cache.tier kind = g.cache.tier kind
    rw [(g.beginLoad_cases m l now).2.1]
  | settleBackfill l expireAt a now =>
    cases a with
    | value v => exact hset .main (.put l.key v expireAt now) trivial rfl
    | missing | failed | panicked => exact .inl rfl
  | settleFetch l expireAt e now =>
    rcases e with (err | v) | _
    · exact .inl rfl
    · exact hset .hot (.put l.key v expireAt now) trivial rfl
    · exact .inl rfl
  | setWith key v e now =>
    right
    cases kind with
    | main => exact ⟨.put key v (e.resolve g.settings.itemExpiration now) now, trivial, rfl⟩
    | hot => exact ⟨.remove key, trivial, rfl⟩
  | removeLocal key =>
    right
    cases kind with
    | main => exact ⟨.remove key, trivial, rfl⟩
    | hot => exact ⟨.remove key, trivial, rfl⟩

/-- Both tiers are in order and within their bounds. -/
def Sound (g : Group) : Prop := ∀ kind, (g.cache.tier kind).Sound ∧ (g.cache.tier kind).Fits

theorem sound_create (c : GroupConfig) : (create c).Sound := by
  intro kind
  cases kind with
  | main => exact Tier.sound_create .main c.main
  | hot => exact Tier.sound_create .hot c.hot

theorem Sound.act (h : g.Sound) (a : Act) : (g.act a).Sound := by
  intro kind
  rcases g.act_tier a kind with heq | ⟨op, -, heq⟩
  · rw [heq]
    exact h kind
  · rw [heq]
    exact Tier.apply_sound (h kind).1 (h kind).2 op

theorem Sound.act_capacity (h : g.Sound) (a : Act) (kind : TierKind) :
    ((g.act a).cache.tier kind).capacity = (g.cache.tier kind).capacity := by
  rcases g.act_tier a kind with heq | ⟨op, hop, heq⟩
  · rw [heq]
  · rw [heq, (h kind).1.apply_capacity op]
    cases op with
    | resize c now => exact absurd hop id
    | put | get | peek | contains | remove => rfl

theorem acts_append (g : Group) (as bs : List Act) : g.acts (as ++ bs) = (g.acts as).acts bs :=
  List.foldl_append

theorem acts_name (g : Group) (as : List Act) : (g.acts as).name = g.name := by
  induction as generalizing g with
  | nil => rfl
  | cons a as ih => exact (ih (g.act a)).trans (g.act_name a)

/-! ## Functions on groups as acts -/

theorem exists_acts_get (g : Group) (m : Membership) (key : String) (now : Instant) :
    ∃ as, (g.get m key now).1 = g.acts as := by
  let kind := home (m.isLocal (m.ownerOf key))
  rw [get_eq]
  generalize Option.or _ _ = found
  cases found with
  | some v => exact ⟨[.countGet, .probe kind key now, .countHit], rfl⟩
  | none => exact ⟨[.countGet, .probe kind key now, .countMiss, .join key (m.ownerOf key)], rfl⟩

theorem exists_acts_servePeer (g : Group) (m : Membership) (key : String) (now : Instant) :
    ∃ as, (g.servePeer m key now).1 = g.acts as := by
  rw [servePeer_eq]
  cases (g.accept m key).2 with
  | none =>
    obtain ⟨as, has⟩ := (g.act (.accept m key)).exists_acts_get m key now
    exact ⟨.accept m key :: as, has⟩
  | some e => exact ⟨[.accept m key], rfl⟩

end Group

end PeerCache
