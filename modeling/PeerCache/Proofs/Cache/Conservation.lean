import Mathlib
import PeerCache.Proofs.Cache.Ageing
import PeerCache.Proofs.Cache.Eviction
import PeerCache.Proofs.Lists

/-!
# The counters account for every entry

An entry comes in by an accepted put and goes by one of four ways (`Departure`), three of which have a counter:

    l.entries ++ entering op r  ~  m.entries ++ what has gone                 (Lru.Settles.conserved)

where every entry that has gone by this operation is listed once, with its way, and each counter has grown
by the number of those that it is for.  The calls are counted by how they ended (`Outcome`).

Main statement: from the empty tier on, what was put is what is held, evicted, expired, removed, or was
displaced by a later put of its key (`Tier.entries_conserved`).
-/

namespace PeerCache

/-- The ways out of a tier. -/
inductive Departure where
  | evicted
  /-- Expired already when a lookup found it or eviction took it. -/
  | expired
  | removed
  /-- Dropped by a put of its key, accepted or not. -/
  | displaced
  deriving DecidableEq

/-- The ways in which a counted call ends. -/
inductive Tier.Outcome where
  | hit
  | miss
  | stored
  | refused
  | removed
  deriving DecidableEq

/-- The counter of an outcome. -/
def Tier.Outcome.counter : Outcome → Tally → Nat
  | hit, n => n.hits
  | miss, n => n.misses
  | stored, n => n.puts
  | refused, n => n.rejected
  | removed, n => n.removals

namespace Tier

/-! ## Calls and entries -/

/-- The reading of the clock that an operation makes. -/
def clock? : Op → Option Instant
  | .put _ _ _ now | .get _ now | .peek _ now | .contains _ now | .resize _ now => some now
  | .remove _ => none

def isPut : Op → Bool
  | .put .. => true
  | _ => false

def isGet : Op → Bool
  | .get .. => true
  | _ => false

/-- How a call has ended, as its reply shows. -/
def outcome? : Op × Reply → Option Outcome
  | (.get .., .entry (some _)) => some .hit
  | (.get .., .entry none) => some .miss
  | (.put .., .stored true) => some .stored
  | (.put .., .stored false) => some .refused
  | (.remove _, .entry (some _)) => some .removed
  | _ => none

/-- The number of calls that have ended in one way. -/
def ended (o : Outcome) (calls : List (Op × Reply)) : Nat := calls.countP fun call => outcome? call = some o

/-- The entry that an operation brings in. -/
def entering : Op → Reply → List (String × Entry)
  | .put key value expireAt _, .stored true => [(key, ⟨value, expireAt⟩)]
  | _, _ => []

/-- Whether an operation is a put that finds an older entry under its key. -/
def displaces (held? : String → Option Entry) : Op → Bool
  | .put key .. => (held? key).isSome
  | _ => false

/-- The number of puts, accepted or not, that find an older entry under their keys. -/
def displaced (t : Tier) : List Op → Nat
  | [] => 0
  | op :: ops => (displaces t.held? op).toNat + (t.apply op).1.displaced ops

end Tier

namespace Lru

open Tier (clock? outcome? entering displaces)

variable {l m : Lru} {key : String} {now : Instant} {xs : List (String × Entry)} {e : Entry}

/-! ## Departures -/

/-- Entries with the way that each has gone. -/
def departing (f : String × Entry → Departure) (xs : List (String × Entry)) : List (Departure × String × Entry) :=
  xs.map fun p => (f p, p)

/-- Eviction tells entries apart by whether they have expired. -/
def departureAt (now : Instant) (p : String × Entry) : Departure := if p.2.isExpiredAt now then .expired else .evicted

theorem map_snd_departing (f : String × Entry → Departure) (xs : List (String × Entry)) :
    (departing f xs).map Prod.snd = xs := by
  unfold departing
  rw [List.map_map]
  exact List.map_id xs

theorem countP_departing (f : String × Entry → Departure) (xs : List (String × Entry)) (a : Departure) :
    (departing f xs).countP (fun x => x.1 = a) = xs.countP fun p => f p = a := by
  unfold departing
  rw [List.countP_map]
  rfl

theorem countP_departing_const (f a : Departure) (xs : List (String × Entry)) :
    (departing (fun _ => f) xs).countP (fun x => x.1 = a) = if f = a then xs.length else 0 := by
  rw [countP_departing]
  by_cases h : f = a
  · simp [h]
  · simp [h]

theorem mem_departing {f : String × Entry → Departure} {a : Departure} {p : String × Entry}
    (h : (a, p) ∈ departing f xs) : f p = a := by
  obtain ⟨q, -, hq⟩ := List.mem_map.mp h
  cases hq
  rfl

theorem departureAt_eq_expired {p : String × Entry} : departureAt now p = .expired ↔ p.2.isExpiredAt now = true := by
  unfold departureAt
  cases p.2.isExpiredAt now <;> simp

theorem departureAt_eq_evicted {p : String × Entry} : departureAt now p = .evicted ↔ p.2.isExpiredAt now = false := by
  unfold departureAt
  cases p.2.isExpiredAt now <;> simp

theorem departureAt_ne {p : String × Entry} {a : Departure} (h : a = .removed ∨ a = .displaced) :
    departureAt now p ≠ a := by
  unfold departureAt
  rcases h with rfl | rfl <;> cases p.2.isExpiredAt now <;> simp

/-! ## What an operation does to the entries -/

/-- What one operation, with reply `r`, has done: no entry comes or goes but as is told here, each of those
that have `gone` is counted for its way alone, and what counts as expired had expired. -/
structure Settles (l : Lru) (op : Tier.Op) (r : Tier.Reply) (m : Lru) (gone : List (Departure × String × Entry)) :
    Prop where
  conserved : (l.entries ++ entering op r).Perm (m.entries ++ gone.map Prod.snd)
  evicted : m.tally.evictions = l.tally.evictions + gone.countP fun x => x.1 = .evicted
  expired : m.tally.expirations = l.tally.expirations + gone.countP fun x => x.1 = .expired
  removed : m.tally.removals = l.tally.removals + gone.countP fun x => x.1 = .removed
  displaced : gone.countP (fun x => x.1 = .displaced) = (displaces l.find? op).toNat
  late : ∀ p, (.expired, p) ∈ gone → ∃ now, clock? op = some now ∧ p.2.isExpiredAt now = true
  live : ∀ p, (.evicted, p) ∈ gone → ∃ now, clock? op = some now ∧ p.2.isExpiredAt now = false

/-- The entry under a key, if there is one. -/
def found (l : Lru) (key : String) : List (String × Entry) := ((l.find? key).map fun e => (key, e)).toList

theorem found_of_find? (h : l.find? key = some e) : l.found key = [(key, e)] := by
  unfold found
  rw [h]
  rfl

theorem length_found (l : Lru) (key : String) : (l.found key).length = (l.find? key).isSome.toNat := by
  unfold found
  cases l.find? key <;> rfl

theorem filter_of_key (hnodup : (xs.map Prod.fst).Nodup) (key : String) :
    xs.filter (fun p => !(p.1 != key)) = (((xs.find? (·.1 == key)).map (·.2)).map fun e => (key, e)).toList := by
  induction xs with
  | nil => rfl
  | cons p rest ih =>
    obtain ⟨hp, hrest⟩ := List.nodup_cons.mp hnodup
    by_cases hk : p.1 = key
    · have hnone : rest.filter (fun q => !(q.1 != key)) = [] := by
        rw [List.filter_eq_nil_iff]
        intro q hq hqk
        refine hp (List.mem_map.mpr ⟨q, hq, ?_⟩)
        rw [hk]
        simpa using hqk
      rw [List.filter_cons_of_pos (by simp [hk]), hnone, List.find?_cons_of_pos (by simp [hk])]
      subst hk
      rfl
    · rw [List.filter_cons_of_neg (by simp [hk]), List.find?_cons_of_neg (by simp [hk])]
      exact ih hrest

/-- A key stands once, so what its entry leaves is all the others. -/
theorem perm_found (hnodup : (l.entries.map Prod.fst).Nodup) (key : String) :
    l.entries.Perm ((l.forget key).entries ++ l.found key) := by
  have hsplit := (List.filter_append_perm (fun p => p.1 != key) l.entries).symm
  rw [filter_of_key hnodup] at hsplit
  exact hsplit

/-- The entry under the key of an operation goes, and nothing comes in. -/
theorem settles_found {op : Tier.Op} {r : Tier.Reply} {f : Departure} (hnodup : (l.entries.map Prod.fst).Nodup)
    (hm : m.entries = (l.forget key).entries) (hnothing : entering op r = [])
    (hevicted : m.tally.evictions = l.tally.evictions)
    (hexpired : m.tally.expirations = l.tally.expirations + if f = .expired then (l.found key).length else 0)
    (hremoved : m.tally.removals = l.tally.removals + if f = .removed then (l.found key).length else 0)
    (hdisplaced : (if f = .displaced then (l.found key).length else 0) = (displaces l.find? op).toNat)
    (hf : f ≠ .evicted)
    (hlate : f = .expired → ∀ p ∈ l.found key, ∃ now, clock? op = some now ∧ p.2.isExpiredAt now = true) :
    Settles l op r m (departing (fun _ => f) (l.found key)) := by
  refine ⟨?_, ?_, ?_, ?_, ?_, fun p hp => ?_, fun p hp => absurd (mem_departing hp) hf⟩
  · rw [hnothing, List.append_nil, hm, map_snd_departing]
    exact perm_found hnodup key
  · rw [countP_departing_const, if_neg hf]
    exact hevicted
  · rw [countP_departing_const]
    exact hexpired
  · rw [countP_departing_const]
    exact hremoved
  · rw [countP_departing_const]
    exact hdisplaced
  · obtain ⟨q, hq, heq⟩ := List.mem_map.mp hp
    cases heq
    exact hlate (mem_departing hp) p hq

/-- Nothing comes or goes, and nothing is counted for it. -/
theorem settles_nothing {op : Tier.Op} {r : Tier.Reply} (hm : l.entries.Perm m.entries)
    (hnothing : entering op r = []) (hdisplaces : displaces l.find? op = false)
    (htally : m.tally.evictions = l.tally.evictions ∧ m.tally.expirations = l.tally.expirations ∧
      m.tally.removals = l.tally.removals) : Settles l op r m [] := by
  refine ⟨?_, htally.1, htally.2.1, htally.2.2, ?_, nofun, nofun⟩
  · rw [hnothing, List.append_nil]
    exact hm.trans (by rw [List.map_nil, List.append_nil])
  · rw [hdisplaces]
    rfl

/-- What eviction has taken goes by `departureAt`. -/
theorem counts_trims {c : Capacity} {gone : List (String × Entry)} {n : Tally}
    (h : Trims c now xs gone n m) :
    m.tally.evictions = n.evictions + (departing (departureAt now) gone).countP (fun x => x.1 = .evicted) ∧
    m.tally.expirations = n.expirations + (departing (departureAt now) gone).countP (fun x => x.1 = .expired) ∧
    m.tally.removals = n.removals ∧
    ∀ a, a = .removed ∨ a = .displaced → (departing (departureAt now) gone).countP (fun x => x.1 = a) = 0 := by
  rw [h.counted, countP_departing, countP_departing]
  refine ⟨?_, ?_, rfl, fun a ha => ?_⟩
  · simp [Tally.evicted, departureAt_eq_evicted]
  · simp [Tally.evicted, departureAt_eq_expired]
  · rw [countP_departing, List.countP_eq_zero]
    intro p _
    simpa using departureAt_ne ha

theorem settles_put (hnodup : (l.entries.map Prod.fst).Nodup) (key : String) (value : ByteArray)
    (expireAt : Option Instant) (now : Instant) :
    ∃ gone, Settles l (.put key value expireAt now) (l.apply (.put key value expireAt now)).2
      (l.apply (.put key value expireAt now)).1 gone := by
  show ∃ gone, Settles l _ (.stored (l.put key ⟨value, expireAt⟩ now).2) (l.put key ⟨value, expireAt⟩ now).1 gone
  by_cases hlarge : l.capacity.amount < cost l.capacity (key, ⟨value, expireAt⟩)
  · have hput : l.put key ⟨value, expireAt⟩ now = ({ l.forget key with tally := l.tally.reject }, false) := by
      unfold put
      rw [if_pos hlarge]
    rw [hput]
    exact ⟨_, settles_found (f := .displaced) hnodup rfl rfl rfl rfl rfl (l.length_found key) nofun nofun⟩
  · have hreply : (l.put key ⟨value, expireAt⟩ now).2 = true := by
      unfold put
      rw [if_neg hlarge]
    obtain ⟨gone, htrims⟩ := trims_put (Nat.not_lt.mp hlarge) now
    obtain ⟨hevicted, hexpired, hremoved, hnone⟩ := counts_trims htrims
    refine ⟨departing (fun _ => .displaced) (l.found key) ++ departing (departureAt now) gone,
      ?_, ?_, ?_, ?_, ?_, ?_, ?_⟩
    · rw [hreply, List.map_append, map_snd_departing, map_snd_departing]
      -- the new entry stands behind the others, before anything is taken from the front
      have hbefore : (l.entries ++ [(key, (⟨value, expireAt⟩ : Entry))]).Perm
          ((l.use key ⟨value, expireAt⟩).entries ++ l.found key) := by
        refine ((perm_found hnodup key).append_right _).trans ?_
        rw [List.append_assoc]
        refine (List.perm_append_comm.append_left _).trans ?_
        rw [← List.append_assoc]
        exact List.Perm.refl _
      refine hbefore.trans ?_
      rw [htrims.split, List.append_assoc]
      refine List.perm_append_comm.trans ?_
      rw [List.append_assoc]
    · rw [List.countP_append, countP_departing_const, if_neg nofun, Nat.zero_add]
      exact hevicted
    · rw [List.countP_append, countP_departing_const, if_neg nofun, Nat.zero_add]
      exact hexpired
    · rw [List.countP_append, countP_departing_const, if_neg nofun, hnone _ (.inl rfl)]
      exact hremoved
    · rw [List.countP_append, countP_departing_const, if_pos rfl, hnone _ (.inr rfl)]
      exact l.length_found key
    · intro p hp
      rcases List.mem_append.mp hp with hp | hp
      · cases mem_departing hp
      · exact ⟨now, rfl, departureAt_eq_expired.mp (mem_departing hp)⟩
    · intro p hp
      rcases List.mem_append.mp hp with hp | hp
      · cases mem_departing hp
      · exact ⟨now, rfl, departureAt_eq_evicted.mp (mem_departing hp)⟩

theorem settles_get (hnodup : (l.entries.map Prod.fst).Nodup) (key : String) (now : Instant) :
    ∃ gone, Settles l (.get key now) (l.apply (.get key now)).2 (l.apply (.get key now)).1 gone := by
  show ∃ gone, Settles l _ (.entry (l.get key now).2) (l.get key now).1 gone
  have hperm := perm_found hnodup key
  unfold get
  cases hfind : l.find? key with
  | none => exact ⟨[], settles_nothing (List.Perm.refl _) rfl rfl ⟨rfl, rfl, rfl⟩⟩
  | some e =>
    have hfound := found_of_find? hfind
    simp only
    split
    · next he =>
      have hone : (l.found key).length = 1 := by rw [hfound]; rfl
      refine ⟨_, settles_found (f := .expired) hnodup rfl rfl rfl ?_ rfl rfl nofun fun _ p hp => ?_⟩
      · rw [if_pos rfl, hone]
        rfl
      · rw [hfound, List.mem_singleton] at hp
        subst hp
        exact ⟨now, rfl, he⟩
    · rw [hfound] at hperm
      exact ⟨[], settles_nothing hperm rfl rfl ⟨rfl, rfl, rfl⟩⟩

theorem settles_remove (hnodup : (l.entries.map Prod.fst).Nodup) (key : String) :
    ∃ gone, Settles l (.remove key) (l.apply (.remove key)).2 (l.apply (.remove key)).1 gone := by
  show ∃ gone, Settles l _ (.entry (l.remove key).2) (l.remove key).1 gone
  unfold remove
  cases hfind : l.find? key with
  | none => exact ⟨[], settles_nothing (List.Perm.refl _) rfl rfl ⟨rfl, rfl, rfl⟩⟩
  | some e =>
    have hone : (l.found key).length = 1 := by rw [found_of_find? hfind]; rfl
    refine ⟨_, settles_found (f := .removed) hnodup rfl rfl rfl rfl ?_ rfl nofun nofun⟩
    rw [if_pos rfl, hone]
    rfl

theorem settles_resize (l : Lru) (c : Capacity) (now : Instant) :
    ∃ gone, Settles l (.resize c now) (l.apply (.resize c now)).2 (l.apply (.resize c now)).1 gone := by
  show ∃ gone, Settles l _ .resized (l.resize c now) gone
  obtain ⟨gone, htrims⟩ := trims_trim { l with capacity := c } now
  obtain ⟨hevicted, hexpired, hremoved, hnone⟩ := counts_trims htrims
  refine ⟨departing (departureAt now) gone, ?_, hevicted, hexpired, ?_, hnone _ (.inr rfl),
    fun p hp => ⟨now, rfl, departureAt_eq_expired.mp (mem_departing hp)⟩,
    fun p hp => ⟨now, rfl, departureAt_eq_evicted.mp (mem_departing hp)⟩⟩
  · have hsplit : l.entries = gone ++ (l.resize c now).entries := htrims.split
    show (l.entries ++ []).Perm _
    rw [List.append_nil, map_snd_departing]
    exact hsplit ▸ List.perm_append_comm
  · rw [hnone _ (.inl rfl)]
    exact hremoved

/-- **No operation loses an entry** or counts one twice. -/
theorem settles (hnodup : (l.entries.map Prod.fst).Nodup) (op : Tier.Op) :
    ∃ gone, Settles l op (l.apply op).2 (l.apply op).1 gone := by
  cases op with
  | put key value expireAt now => exact settles_put hnodup key value expireAt now
  | get key now => exact settles_get hnodup key now
  | peek key now => exact ⟨[], settles_nothing (List.Perm.refl _) rfl rfl ⟨rfl, rfl, rfl⟩⟩
  | contains key now => exact ⟨[], settles_nothing (List.Perm.refl _) rfl rfl ⟨rfl, rfl, rfl⟩⟩
  | remove key => exact settles_remove hnodup key
  | resize c now => exact settles_resize l c now

/-! ## What an operation counts as -/

theorem counter_evicted (o : Tier.Outcome) (n : Tally) (gone : List (String × Entry)) (now : Instant) :
    o.counter (n.evicted gone now) = o.counter n := by
  cases o <;> rfl

/-- A call adds to the counter of its outcome, and to no other. -/
theorem counter_apply (l : Lru) (op : Tier.Op) (o : Tier.Outcome) :
    o.counter (l.apply op).1.tally =
      o.counter l.tally + (decide (outcome? (op, (l.apply op).2) = some o)).toNat := by
  cases op with
  | put key value expireAt now =>
    show o.counter (l.put key ⟨value, expireAt⟩ now).1.tally =
      _ + (decide (outcome? (_, .stored (l.put key ⟨value, expireAt⟩ now).2) = some o)).toNat
    by_cases hlarge : l.capacity.amount < cost l.capacity (key, ⟨value, expireAt⟩)
    · unfold put
      rw [if_pos hlarge]
      cases o <;> rfl
    · have hreply : (l.put key ⟨value, expireAt⟩ now).2 = true := by
        unfold put
        rw [if_neg hlarge]
      obtain ⟨gone, htrims⟩ := trims_put (Nat.not_lt.mp hlarge) now
      rw [htrims.counted, counter_evicted, hreply]
      cases o <;> rfl
  | get key now =>
    show o.counter (l.get key now).1.tally = _ + (decide (outcome? (_, .entry (l.get key now).2) = some o)).toNat
    unfold get
    cases l.find? key with
    | none => cases o <;> rfl
    | some e =>
      simp only
      split
      · cases o <;> rfl
      · cases o <;> rfl
  | peek key now => cases o <;> rfl
  | contains key now => cases o <;> rfl
  | remove key =>
    show o.counter (l.remove key).1.tally = _ + (decide (outcome? (_, .entry (l.remove key).2) = some o)).toNat
    unfold remove
    cases l.find? key with
    | none => cases o <;> rfl
    | some e => cases o <;> rfl
  | resize c now =>
    obtain ⟨gone, htrims⟩ := trims_trim { l with capacity := c } now
    show o.counter (l.resize c now).tally = _
    unfold resize
    rw [htrims.counted, counter_evicted]
    cases o <;> rfl

end Lru

namespace Tier

variable {t : Tier} {d : Nat}

/-! ## Over a run -/

/-- Every entry that was put is held, or has gone in one of the four ways. -/
def Balanced (t : Tier) (d : Nat) : Prop :=
  t.tally.puts = t.size + t.tally.evictions + t.tally.expirations + t.tally.removals + d

theorem displaces_view (h : t.Sound) (op : Op) : displaces t.view.find? op = displaces t.held? op :=
  congrArg (displaces · op) (funext fun key => find?_view h.toLaid key)

theorem Sound.settles (h : t.Sound) (op : Op) :
    ∃ gone, Lru.Settles t.view op (t.apply op).2 (t.apply op).1.view gone := by
  obtain ⟨gone, hsettles⟩ := Lru.settles h.nodup_view op
  rw [apply_view h op] at hsettles
  exact ⟨gone, hsettles⟩

theorem Sound.counter_apply (h : t.Sound) (op : Op) (o : Outcome) :
    o.counter (t.apply op).1.tally =
      o.counter t.tally + (decide (outcome? (op, (t.apply op).2) = some o)).toNat := by
  have hcounter := t.view.counter_apply op o
  rw [apply_view h op] at hcounter
  exact hcounter

/-- An accepted put brings one entry in. -/
theorem length_entering (op : Op) (r : Reply) :
    (entering op r).length = (decide (outcome? (op, r) = some .stored)).toNat := by
  cases op with
  | put key value expireAt now =>
    cases r with
    | stored b => cases b <;> rfl
    | _ => rfl
  | get key now =>
    cases r with
    | entry e => cases e <;> rfl
    | _ => rfl
  | remove key =>
    cases r with
    | entry e => cases e <;> rfl
    | _ => rfl
  | _ => rfl

/-- Each entry has gone in one way. -/
theorem length_departures (gone : List (Departure × String × Entry)) :
    gone.length = gone.countP (fun x => x.1 = .evicted) + gone.countP (fun x => x.1 = .expired) +
      gone.countP (fun x => x.1 = .removed) + gone.countP (fun x => x.1 = .displaced) := by
  induction gone with
  | nil => rfl
  | cons x gone ih =>
    obtain ⟨f, p⟩ := x
    rw [List.length_cons, ih]
    cases f <;> simp <;> omega

theorem Balanced.apply (h : t.Sound) (hf : t.Fits) (hbalanced : t.Balanced d) (op : Op) :
    (t.apply op).1.Balanced (d + (displaces t.held? op).toNat) := by
  obtain ⟨gone, hsettles⟩ := h.settles op
  have hlength := hsettles.conserved.length_eq
  rw [List.length_append, List.length_append, List.length_map, length_entering, length_departures gone,
    hsettles.displaced, displaces_view h] at hlength
  have hsize : t.view.entries.length = t.size := size_view h.toLaid
  have hsize' : (t.apply op).1.view.entries.length = (t.apply op).1.size :=
    size_view (apply_sound h hf op).1.toLaid
  have hputs := h.counter_apply op .stored
  have hevicted : (t.apply op).1.tally.evictions = t.tally.evictions + _ := hsettles.evicted
  have hexpired : (t.apply op).1.tally.expirations = t.tally.expirations + _ := hsettles.expired
  have hremoved : (t.apply op).1.tally.removals = t.tally.removals + _ := hsettles.removed
  unfold Balanced at hbalanced ⊢
  simp only [Outcome.counter] at hputs
  omega

theorem Balanced.run (h : t.Sound) (hf : t.Fits) (hbalanced : t.Balanced d) (ops : List Op) :
    (t.run ops).1.Balanced (d + t.displaced ops) := by
  induction ops generalizing t d with
  | nil => exact hbalanced
  | cons op ops ih =>
    obtain ⟨hs, hfs⟩ := apply_sound h hf op
    have hrest := ih hs hfs (hbalanced.apply h hf op)
    rw [Nat.add_assoc] at hrest
    exact hrest

/-- Each counter of an outcome has the number of the calls that ended so. -/
theorem Sound.counter_run (h : t.Sound) (hf : t.Fits) (ops : List Op) (o : Outcome) :
    o.counter (t.run ops).1.tally = o.counter t.tally + ended o (ops.zip (t.run ops).2) := by
  induction ops generalizing t with
  | nil => rfl
  | cons op ops ih =>
    obtain ⟨hs, hfs⟩ := apply_sound h hf op
    show o.counter ((t.apply op).1.run ops).1.tally =
      _ + ended o ((op, (t.apply op).2) :: ops.zip ((t.apply op).1.run ops).2)
    unfold ended
    rw [ih hs hfs, h.counter_apply op o, countP_cons_toNat]
    unfold ended
    omega

/-- A put is accepted or refused, and a get is a hit or a miss. -/
theorem outcome_cases (t : Tier) (op : Op) :
    (decide (outcome? (op, (t.apply op).2) = some .stored)).toNat +
        (decide (outcome? (op, (t.apply op).2) = some .refused)).toNat = (isPut op).toNat ∧
      (decide (outcome? (op, (t.apply op).2) = some .hit)).toNat +
        (decide (outcome? (op, (t.apply op).2) = some .miss)).toNat = (isGet op).toNat := by
  cases op with
  | put key value expireAt now =>
    have hreply : (t.apply (.put key value expireAt now)).2 = .stored (t.put key value expireAt now).2 := rfl
    rw [hreply]
    cases (t.put key value expireAt now).2 <;> exact ⟨rfl, rfl⟩
  | get key now =>
    have hreply : (t.apply (.get key now)).2 = .entry (t.get key now).2 := rfl
    rw [hreply]
    cases (t.get key now).2 <;> exact ⟨rfl, rfl⟩
  | remove key =>
    have hreply : (t.apply (.remove key)).2 = .entry (t.remove key).2 := rfl
    rw [hreply]
    cases (t.remove key).2 <;> exact ⟨rfl, rfl⟩
  | _ => exact ⟨rfl, rfl⟩

theorem ended_add (t : Tier) (ops : List Op) :
    ended .stored (ops.zip (t.run ops).2) + ended .refused (ops.zip (t.run ops).2) = ops.countP isPut ∧
      ended .hit (ops.zip (t.run ops).2) + ended .miss (ops.zip (t.run ops).2) = ops.countP isGet := by
  induction ops generalizing t with
  | nil => exact ⟨rfl, rfl⟩
  | cons op ops ih =>
    obtain ⟨hputs, hgets⟩ := ih (t.apply op).1
    obtain ⟨hput, hget⟩ := t.outcome_cases op
    have hcons (o : Outcome) : ended o ((op :: ops).zip (t.run (op :: ops)).2) =
        ended o (ops.zip ((t.apply op).1.run ops).2) + (decide (outcome? (op, (t.apply op).2) = some o)).toNat :=
      countP_cons_toNat _ _ _
    rw [hcons, hcons, hcons, hcons, countP_cons_toNat, countP_cons_toNat]
    omega

/-- **The counters of a tier account for every entry and every call**, after any operations on a new tier.
What was put, by accepted puts, is what the tier holds, what has been evicted, has expired or was removed,
and what puts, accepted or not, have displaced.  Puts are accepted or refused, gets hit or miss, and a removal
is counted if it gives an entry.  The readings say the same, as words.  Whatever is done next, no entry comes
or goes unseen: each one that goes is counted for one way, as expired only if it had expired at the reading
of the clock, and as evicted only if it had not. -/
theorem entries_conserved (kind : TierKind) (c : TierConfig) (ops : List Op) :
    let r := (create kind c).run ops
    let t := r.1
    let d := (create kind c).displaced ops
    let calls := ops.zip r.2
    t.tally.puts = t.size + t.tally.evictions + t.tally.expirations + t.tally.removals + d ∧
    t.tally.puts + t.tally.rejected = ops.countP isPut ∧
    t.tally.hits + t.tally.misses = ops.countP isGet ∧
    t.tally.removals = ended .removed calls ∧
    (∀ o : Outcome, o.counter t.tally = ended o calls) ∧
    t.stats.puts = Tally.word (t.stats.items + t.stats.evictions + t.stats.expirations + t.stats.removals + d) ∧
    ∀ op, ∃ gone, Lru.Settles t.view op (t.apply op).2 (t.apply op).1.view gone := by
  intro r t d calls
  obtain ⟨h0, hf0⟩ := sound_create kind c
  have hbalanced : t.tally.puts = t.size + t.tally.evictions + t.tally.expirations + t.tally.removals + d := by
    have hstart : (create kind c).Balanced 0 := by
      show 0 = (create kind c).size + 0 + 0 + 0 + 0
      rw [← size_view (sound_create kind c).1.toLaid, view_create]
      rfl
    have hrun := hstart.run h0 hf0 ops
    rwa [Nat.zero_add] at hrun
  have hcounter (o : Outcome) : o.counter t.tally = ended o calls := by
    have hrun := h0.counter_run hf0 ops o
    have hzero : o.counter (create kind c).tally = 0 := by cases o <;> rfl
    rwa [hzero, Nat.zero_add] at hrun
  obtain ⟨hputs, hgets⟩ := (create kind c).ended_add ops
  refine ⟨hbalanced, ?_, ?_, hcounter .removed, hcounter, ?_, (run_sound h0 hf0 ops).1.settles⟩
  · rw [← hputs]
    exact congrArg₂ (· + ·) (hcounter .stored) (hcounter .refused)
  · rw [← hgets]
    exact congrArg₂ (· + ·) (hcounter .hit) (hcounter .miss)
  · show t.tally.puts % 0x10000000000000000 =
      (t.size + t.tally.evictions % 0x10000000000000000 + t.tally.expirations % 0x10000000000000000 +
        t.tally.removals % 0x10000000000000000 + d) % 0x10000000000000000
    omega

end Tier

end PeerCache
