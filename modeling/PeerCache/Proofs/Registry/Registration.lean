import Mathlib
import PeerCache.Registry
import PeerCache.Proofs.Group.Acts
import PeerCache.Proofs.Lists

/-!
# Registering groups again

A registry lives through registrations, with configurations of any kind, and through what callers,
loads and writers do to its groups (`Registry.Event`).  At every moment each group is the one of the
last configuration that was accepted under its name (`Group.Follows`).

Main statement: `registration_kept`.  A configuration that is not valid changes nothing.  A valid one
makes a new group, or changes the group of its name where it stands and no other: that group keeps its
flights and counts, and each of its tiers keeps the longest most recent end of its entries that fits
the new bound.
-/

namespace PeerCache

/-! ## Configurations -/

namespace GroupConfig

/-- The bound of a tier. -/
def bound (c : GroupConfig) : TierKind → Capacity
  | .main => c.main.capacity
  | .hot => c.hot.capacity

/-- A configuration with a name and one unit. -/
structure Valid (c : GroupConfig) : Prop where
  name : c.name ≠ ""
  unit : c.main.capacity.unit = c.hot.capacity.unit

theorem sameUnit_iff (a b : Capacity) : a.sameUnit b = true ↔ a.unit = b.unit := by
  cases a <;> cases b <;> simp [Capacity.sameUnit, Capacity.unit]

theorem validate_cases (c : GroupConfig) :
    (c.Valid ∧ c.validate = .ok ()) ∨ (¬ c.Valid ∧ ∃ e, c.validate = .error e) := by
  unfold validate
  by_cases hname : c.name = ""
  · exact .inr ⟨fun h => h.name hname, .nameRequired, by simp [hname]⟩
  · by_cases hunit : c.main.capacity.sameUnit c.hot.capacity = true
    · exact .inl ⟨⟨hname, (sameUnit_iff _ _).mp hunit⟩, by simp [hname, hunit]⟩
    · refine .inr ⟨fun h => hunit ((sameUnit_iff _ _).mpr h.unit), ?_⟩
      simp [hname, hunit]

end GroupConfig

namespace Group

variable {g : Group} {c : GroupConfig}

/-- The group is as a configuration wants it. -/
structure Follows (c : GroupConfig) (g : Group) : Prop where
  name : g.name = c.name
  settings : g.settings = ⟨c.itemExpiration, c.backfill⟩
  capacity : ∀ kind, (g.cache.tier kind).capacity = c.bound kind

theorem follows_create (c : GroupConfig) : (create c).Follows c := by
  refine ⟨rfl, rfl, fun kind => ?_⟩
  cases kind <;> rfl

theorem Follows.act (h : g.Follows c) (hs : g.Sound) (a : Act) : (g.act a).Follows c := by
  refine ⟨(g.act_name a).trans h.name, (g.act_settings a).trans h.settings, fun kind => ?_⟩
  rw [hs.act_capacity a kind]
  exact h.capacity kind

theorem reconfigure_tier (g : Group) (c : GroupConfig) (now : Instant) (kind : TierKind) :
    (g.reconfigure c now).cache.tier kind = (g.cache.tier kind).resize (c.bound kind) now := by
  cases kind <;> rfl

theorem Sound.reconfigure (h : g.Sound) (c : GroupConfig) (now : Instant) :
    (g.reconfigure c now).Sound := by
  intro kind
  rw [reconfigure_tier]
  exact (h kind).1.resize (c.bound kind) now

theorem Sound.follows_reconfigure (h : g.Sound) (hname : g.name = c.name) (now : Instant) :
    (g.reconfigure c now).Follows c := by
  refine ⟨hname, rfl, fun kind => ?_⟩
  rw [reconfigure_tier]
  exact (h kind).1.apply_capacity (.resize (c.bound kind) now)

/-- A tier keeps its most recent entries, as many as fit. -/
theorem Sound.longestFit (h : g.Sound) (c : GroupConfig) (now : Instant) (kind : TierKind) :
    Lru.LongestFit (c.bound kind) (g.cache.tier kind).view.entries
      ((g.reconfigure c now).cache.tier kind).view.entries := by
  rw [reconfigure_tier, ← Tier.view_resize (h kind).1]
  exact (g.cache.tier kind).view.longestFit_resize (c.bound kind) now

end Group

namespace Registry

/-! ## Groups by name -/

variable {r : Registry} {g : Group} {c : GroupConfig} {name : String} {now : Instant} {i j : Nat}

/-- The names of the groups, where they stand. -/
def places (r : Registry) : List String := r.groups.map (·.name)

theorem find?_eq_some (h : r.find? name = some g) : ∃ i : Nat, r.groups[i]? = some g ∧ g.name = name := by
  obtain ⟨i, hi⟩ := List.mem_iff_getElem?.mp (List.mem_of_find?_eq_some h)
  exact ⟨i, hi, by simpa using List.find?_some h⟩

/-- A group found by its name stands at a place of its own. -/
theorem get_eq_ok (h : r.get name = .ok g) : ∃ i : Nat, r.groups[i]? = some g ∧ g.name = name := by
  unfold get at h
  cases hf : r.find? name with
  | none =>
    rw [hf] at h
    cases h
  | some g' =>
    rw [hf] at h
    cases h
    exact find?_eq_some hf

theorem find?_eq_none (h : r.find? name = none) : ∀ g ∈ r.groups, g.name ≠ name := by
  intro g hg
  simpa using List.find?_eq_none.mp h g hg

theorem getElem?_places (hg : r.groups[i]? = some g) : r.places[i]? = some g.name := by
  rw [places, List.getElem?_map, hg]
  rfl

/-- A name stands at one place. -/
theorem place_unique (hn : r.places.Nodup) (hi : r.places[i]? = some name) (hj : r.places[j]? = some name) :
    i = j :=
  (List.getElem?_inj (List.getElem?_eq_some_iff.mp hi).1 hn).mp (hi.trans hj.symm)

theorem modify_eq (hn : r.places.Nodup) (hg : r.groups[i]? = some g) (f : Group → Group) :
    r.modify g.name f = ⟨r.groups.modify i f⟩ := by
  unfold modify
  congr 1
  apply List.ext_getElem?
  intro j
  rw [List.getElem?_map, List.getElem?_modify]
  cases hj : r.groups[j]? with
  | none => rfl
  | some h =>
    by_cases hij : i = j
    · subst hij
      cases eq_of_getElem? hg hj
      simp
    · have hne : h.name ≠ g.name := fun heq =>
        hij (place_unique hn (getElem?_places hg) (heq ▸ getElem?_places hj))
      simp [hne, hij]

theorem update_eq (hn : r.places.Nodup) (hg : r.groups[i]? = some g) {h : Group} (hname : h.name = g.name) :
    r.update h = ⟨r.groups.modify i fun _ => h⟩ := by
  unfold update
  rw [hname]
  exact modify_eq hn hg fun _ => h

/-- What is put in the place of a group goes with the next one. -/
theorem update_update {h k : Group} (hname : h.name = k.name) : (r.update h).update k = r.update k := by
  unfold update modify
  rw [List.map_map]
  congr 1
  refine List.map_congr_left fun a _ => ?_
  by_cases ha : a.name = k.name
  · simp [ha, hname]
  · simp [ha, hname]

/-- It is found by the name until then. -/
theorem get_update {h : Group} (hget : r.get name = .ok g) (hname : h.name = name) :
    (r.update h).get name = .ok h := by
  obtain ⟨i, -, hg⟩ := get_eq_ok hget
  unfold get at hget ⊢
  cases hf : r.find? name with
  | none =>
    rw [hf] at hget
    cases hget
  | some g' =>
    rw [hf] at hget
    cases hget
    have hfind : (r.update h).find? name = some h := by
      unfold find? update modify at *
      rw [List.find?_map]
      have hsame : ((fun a : Group => a.name == name) ∘ fun a => if a.name == h.name then h else a) =
          fun a => a.name == name := by
        funext a
        by_cases ha : a.name = name
        · simp [ha, hname]
        · simp [ha, hname]
      rw [hsame, hf]
      simp [hg, hname]
    rw [hfind]

/-- **Everything that a registration can do**: it is refused, or changes the group of its name, or makes
a new one. -/
theorem add_cases (r : Registry) (c : GroupConfig) (now : Instant) :
    (¬ c.Valid ∧ ∃ e, r.add c now = .error e) ∨
    (c.Valid ∧ ∃ g, r.find? c.name = some g ∧ r.add c now = .ok (r.update (g.reconfigure c now))) ∨
    (c.Valid ∧ r.find? c.name = none ∧ r.add c now = .ok ⟨r.groups ++ [Group.create c]⟩) := by
  unfold add
  rcases c.validate_cases with ⟨hvalid, hok⟩ | ⟨hbad, e, herr⟩
  · rw [hok]
    cases hf : r.find? c.name with
    | some g => exact .inr (.inl ⟨hvalid, g, rfl, rfl⟩)
    | none => exact .inr (.inr ⟨hvalid, rfl, rfl⟩)
  · rw [herr]
    exact .inl ⟨hbad, e, rfl⟩

/-! ## Histories -/

/-- What happens to a registry: a registration, or an act on the group of a name. -/
inductive Event where
  | add (c : GroupConfig) (now : Instant)
  | act (name : String) (a : Group.Act)

/-- A registration that is refused changes nothing. -/
def step (r : Registry) : Event → Registry
  | .add c now =>
    match r.add c now with
    | .ok r => r
    | .error _ => r
  | .act name a => r.modify name (·.act a)

def run (r : Registry) (es : List Event) : Registry := es.foldl step r

/-- The configuration that an event has registered under a name. -/
def accepted? (name : String) : Event → Option GroupConfig
  | .add c _ =>
    match c.validate with
    | .ok _ => if c.name = name then some c else none
    | .error _ => none
  | .act .. => none

/-- The last configuration that was accepted under a name. -/
def lastConfig? (name : String) (es : List Event) : Option GroupConfig :=
  (es.filterMap (accepted? name)).getLast?

theorem lastConfig?_concat (name : String) (es : List Event) (e : Event) :
    lastConfig? name (es ++ [e]) = (accepted? name e).or (lastConfig? name es) := by
  unfold lastConfig?
  rw [List.filterMap_append]
  cases h : accepted? name e with
  | none => simp [h]
  | some c => simp [h]

/-- The groups of a registry are those of its history. -/
structure Kept (es : List Event) (r : Registry) : Prop where
  nodup : r.places.Nodup
  sound : ∀ g ∈ r.groups, g.Sound
  follows : ∀ g ∈ r.groups, ∃ c, lastConfig? g.name es = some c ∧ c.Valid ∧ g.Follows c
  registered : ∀ name c, lastConfig? name es = some c → name ∈ r.places

theorem kept_empty : Kept [] {} := by
  refine ⟨List.nodup_nil, ?_, ?_, ?_⟩
  · rintro g ⟨⟩
  · rintro g ⟨⟩
  · rintro name c ⟨⟩

theorem places_modify {f : Group → Group} (hf : ∀ g, (f g).name = g.name) :
    (r.modify name f).places = r.places := by
  unfold places modify
  rw [List.map_map]
  refine List.map_congr_left fun g _ => ?_
  show (if g.name == name then f g else g).name = g.name
  split
  · exact hf g
  · rfl

theorem mem_groups_modify {f : Group → Group} (h : g ∈ (r.modify name f).groups) :
    g ∈ r.groups ∨ ∃ a ∈ r.groups, a.name = name ∧ g = f a := by
  obtain ⟨a, ha, rfl⟩ := List.mem_map.mp h
  split
  · next hname => exact .inr ⟨a, ha, by simpa using hname, rfl⟩
  · exact .inl ha

variable {es : List Event}

theorem Kept.act (h : Kept es r) (name : String) (a : Group.Act) :
    Kept (es ++ [.act name a]) (r.step (.act name a)) := by
  have hlast (name' : String) : lastConfig? name' (es ++ [.act name a]) = lastConfig? name' es := by
    rw [lastConfig?_concat]
    rfl
  have hplaces : (r.step (.act name a)).places = r.places := places_modify fun g => g.act_name a
  refine ⟨hplaces ▸ h.nodup, fun g hg => ?_, fun g hg => ?_, fun name' c hc => ?_⟩
  · rcases mem_groups_modify hg with hg | ⟨b, hb, -, rfl⟩
    · exact h.sound g hg
    · exact (h.sound b hb).act a
  · rw [hlast]
    rcases mem_groups_modify hg with hg | ⟨b, hb, -, rfl⟩
    · exact h.follows g hg
    · obtain ⟨c, hc, hvalid, hfollows⟩ := h.follows b hb
      exact ⟨c, (b.act_name a).symm ▸ hc, hvalid, hfollows.act (h.sound b hb) a⟩
  · rw [hlast] at hc
    rw [hplaces]
    exact h.registered name' c hc

/-- What an accepted configuration is the last of. -/
theorem lastConfig?_add (hvalid : c.Valid) (name : String) (es : List Event) (now : Instant) :
    lastConfig? name (es ++ [.add c now]) = if c.name = name then some c else lastConfig? name es := by
  rw [lastConfig?_concat]
  rcases c.validate_cases with ⟨-, hok⟩ | ⟨hbad, -⟩
  · simp only [accepted?, hok]
    by_cases hname : c.name = name
    · simp [hname]
    · simp [hname]
  · exact absurd hvalid hbad

/-- What a registration makes of a registry, by its history. -/
theorem Kept.add_cases (h : Kept es r) (c : GroupConfig) (now : Instant) :
    (¬ c.Valid ∧ (∃ e, r.add c now = .error e) ∧ r.step (.add c now) = r) ∨
    (c.Valid ∧ r.add c now = .ok (r.step (.add c now)) ∧
      ((∃ i g, r.groups[i]? = some g ∧ g.name = c.name ∧
          r.step (.add c now) = ⟨r.groups.modify i fun _ => g.reconfigure c now⟩) ∨
        ((∀ g ∈ r.groups, g.name ≠ c.name) ∧ r.step (.add c now) = ⟨r.groups ++ [Group.create c]⟩))) := by
  rcases r.add_cases c now with ⟨hbad, e, herr⟩ | ⟨hvalid, g, hf, hok⟩ | ⟨hvalid, hf, hok⟩
  · exact .inl ⟨hbad, ⟨e, herr⟩, by rw [step, herr]⟩
  · obtain ⟨i, hg, hname⟩ := find?_eq_some hf
    have hstep : r.step (.add c now) = r.update (g.reconfigure c now) := by rw [step, hok]
    refine .inr ⟨hvalid, by rw [hstep, hok], .inl ⟨i, g, hg, hname, ?_⟩⟩
    rw [hstep]
    exact update_eq h.nodup hg rfl
  · have hstep : r.step (.add c now) = ⟨r.groups ++ [Group.create c]⟩ := by rw [step, hok]
    exact .inr ⟨hvalid, by rw [hstep, hok], .inr ⟨find?_eq_none hf, hstep⟩⟩

theorem Kept.refuse (h : Kept es r) (hbad : ¬ c.Valid) (now : Instant) : Kept (es ++ [.add c now]) r := by
  have hlast (name : String) : lastConfig? name (es ++ [.add c now]) = lastConfig? name es := by
    rw [lastConfig?_concat]
    rcases c.validate_cases with ⟨hvalid, -⟩ | ⟨-, e, herr⟩
    · exact absurd hvalid hbad
    · simp only [accepted?, herr]
      rfl
  refine ⟨h.nodup, h.sound, fun g hg => ?_, fun name c' hc => ?_⟩
  · rw [hlast]
    exact h.follows g hg
  · rw [hlast] at hc
    exact h.registered name c' hc

theorem Kept.change (h : Kept es r) (hvalid : c.Valid) (hg : r.groups[i]? = some g) (hname : g.name = c.name)
    (now : Instant) : Kept (es ++ [.add c now]) ⟨r.groups.modify i fun _ => g.reconfigure c now⟩ := by
  have hsound : g.Sound := h.sound g (List.mem_of_getElem? hg)
  have hplaces : (⟨r.groups.modify i fun _ => g.reconfigure c now⟩ : Registry).places = r.places := by
    refine map_modify_of_eq fun a ha => ?_
    cases eq_of_getElem? hg ha
    rfl
  have hmem (a : Group) (ha : a ∈ r.groups.modify i fun _ => g.reconfigure c now) :
      a = g.reconfigure c now ∨ a ∈ r.groups ∧ c.name ≠ a.name := by
    obtain ⟨j, hj⟩ := List.mem_iff_getElem?.mp ha
    obtain ⟨b, hb, rfl⟩ := getElem?_modify_eq_some.mp hj
    by_cases hij : i = j
    · exact .inl (if_pos hij)
    · rw [if_neg hij]
      refine .inr ⟨List.mem_of_getElem? hb, fun heq => hij ?_⟩
      exact place_unique h.nodup (getElem?_places hg) ((hname.trans heq) ▸ getElem?_places hb)
  refine ⟨hplaces ▸ h.nodup, fun a ha => ?_, fun a ha => ?_, fun name c' hc => ?_⟩
  · rcases hmem a ha with rfl | ⟨ha, -⟩
    · exact hsound.reconfigure c now
    · exact h.sound a ha
  · rw [lastConfig?_add hvalid]
    rcases hmem a ha with rfl | ⟨ha, hne⟩
    · exact ⟨c, if_pos hname.symm, hvalid, hsound.follows_reconfigure hname now⟩
    · rw [if_neg hne]
      exact h.follows a ha
  · rw [hplaces]
    rw [lastConfig?_add hvalid] at hc
    by_cases hsame : c.name = name
    · rw [← hsame, ← hname]
      exact List.mem_map_of_mem (List.mem_of_getElem? hg)
    · rw [if_neg hsame] at hc
      exact h.registered name c' hc

theorem Kept.append (h : Kept es r) (hvalid : c.Valid) (hnew : ∀ g ∈ r.groups, g.name ≠ c.name)
    (now : Instant) : Kept (es ++ [.add c now]) ⟨r.groups ++ [Group.create c]⟩ := by
  have hplaces : (⟨r.groups ++ [Group.create c]⟩ : Registry).places = r.places ++ [c.name] :=
    List.map_append
  have hmem (g : Group) (hg : g ∈ r.groups ++ [Group.create c]) : g ∈ r.groups ∨ g = Group.create c :=
    (List.mem_append.mp hg).imp_right List.mem_singleton.mp
  refine ⟨?_, fun g hg => ?_, fun g hg => ?_, fun name c' hc => ?_⟩
  · rw [hplaces, List.nodup_append]
    refine ⟨h.nodup, List.nodup_singleton _, fun a ha b hb => ?_⟩
    obtain ⟨g, hg, rfl⟩ := List.mem_map.mp ha
    rw [List.mem_singleton.mp hb]
    exact hnew g hg
  · rcases hmem g hg with hg | rfl
    · exact h.sound g hg
    · exact Group.sound_create c
  · rw [lastConfig?_add hvalid]
    rcases hmem g hg with hg | rfl
    · rw [if_neg fun heq => hnew g hg heq.symm]
      exact h.follows g hg
    · exact ⟨c, if_pos rfl, hvalid, Group.follows_create c⟩
  · rw [hplaces, List.mem_append]
    rw [lastConfig?_add hvalid] at hc
    by_cases hsame : c.name = name
    · exact .inr (by simp [hsame])
    · rw [if_neg hsame] at hc
      exact .inl (h.registered name c' hc)

theorem Kept.add (h : Kept es r) (c : GroupConfig) (now : Instant) :
    Kept (es ++ [.add c now]) (r.step (.add c now)) := by
  rcases h.add_cases c now with ⟨hbad, -, heq⟩ | ⟨hvalid, -, ⟨i, g, hg, hname, heq⟩ | ⟨hnew, heq⟩⟩
  · rw [heq]
    exact h.refuse hbad now
  · rw [heq]
    exact h.change hvalid hg hname now
  · rw [heq]
    exact h.append hvalid hnew now

theorem kept_run (es : List Event) : Kept es (run {} es) := by
  induction es using List.reverseRecOn with
  | nil => exact kept_empty
  | append_singleton es e ih =>
    have hrun : run {} (es ++ [e]) = (run {} es).step e := by
      unfold run
      rw [List.foldl_append]
      rfl
    rw [hrun]
    cases e with
    | add c now => exact ih.add c now
    | act name a => exact ih.act name a

/-- Several acts on one group, one after the other. -/
theorem run_acts (hn : r.places.Nodup) (hg : r.groups[i]? = some g) (as : List Group.Act) :
    r.run (as.map (.act g.name)) = ⟨r.groups.modify i fun _ => g.acts as⟩ := by
  induction as generalizing r g with
  | nil => exact congrArg Registry.mk (modify_eq_self hg rfl).symm
  | cons a as ih =>
    have hstep : r.step (.act g.name a) = ⟨r.groups.modify i (·.act a)⟩ := modify_eq hn hg (·.act a)
    have hplaces : (r.step (.act g.name a)).places = r.places := places_modify fun g => g.act_name a
    have hacted : (r.step (.act g.name a)).groups[i]? = some (g.act a) := by
      rw [hstep]
      exact getElem?_modify_eq_some.mpr ⟨g, hg, (if_pos rfl).symm⟩
    have hrest := ih (hplaces ▸ hn) hacted
    rw [g.act_name a] at hrest
    show (r.step (.act g.name a)).run (as.map (.act g.name)) = _
    rw [hrest, hstep, List.modify_modify_eq]
    rfl

/-- **Registering again is atomic, and keeps what is warm.**  After any history, every group is as the
last configuration wants it that was accepted under its name.  The next configuration, if it is not
valid, changes nothing.  If it is valid it makes a new group, or the group of its name, where it stands,
becomes as it wants: its flights and counts stay, and of each tier the most recent entries, as many as
fit. -/
theorem registration_kept (es : List Event) :
    let r := run {} es
    r.places.Nodup ∧
    (∀ name, name ∈ r.places ↔ (lastConfig? name es).isSome = true) ∧
    (∀ g ∈ r.groups, ∃ c, lastConfig? g.name es = some c ∧ g.Follows c ∧
      g.cache.main.capacity.unit = g.cache.hot.capacity.unit) ∧
    ∀ (c : GroupConfig) (now : Instant),
      ((c.name = "" ∨ c.main.capacity.unit ≠ c.hot.capacity.unit) →
        (∃ e, r.add c now = .error e) ∧ r.step (.add c now) = r) ∧
      (¬ (c.name = "" ∨ c.main.capacity.unit ≠ c.hot.capacity.unit) →
        r.add c now = .ok (r.step (.add c now)) ∧
        ((∃ i g g', r.groups[i]? = some g ∧ g.name = c.name ∧
            (r.step (.add c now)).groups = r.groups.set i g' ∧
            g'.coordinator = g.coordinator ∧ g'.counters = g.counters ∧ g'.Follows c ∧
            ∀ kind, Lru.LongestFit (c.bound kind) (g.cache.tier kind).view.entries
                (g'.cache.tier kind).view.entries ∧
              (((g.cache.tier kind).view.entries.map (Lru.cost (c.bound kind))).sum ≤ (c.bound kind).amount →
                (g'.cache.tier kind).view.entries = (g.cache.tier kind).view.entries)) ∨
          (c.name ∉ r.places ∧ (r.step (.add c now)).groups = r.groups ++ [Group.create c]))) := by
  intro r
  have hr : Kept es r := kept_run es
  refine ⟨hr.nodup, fun name => ⟨fun hname => ?_, fun hsome => ?_⟩, fun g hg => ?_, fun c now => ?_⟩
  · obtain ⟨g, hg, rfl⟩ := List.mem_map.mp hname
    obtain ⟨c, hc, -⟩ := hr.follows g hg
    rw [hc]
    rfl
  · obtain ⟨c, hc⟩ := Option.isSome_iff_exists.mp hsome
    exact hr.registered name c hc
  · obtain ⟨c, hc, hvalid, hfollows⟩ := hr.follows g hg
    refine ⟨c, hc, hfollows, ?_⟩
    have hmain : g.cache.main.capacity = c.main.capacity := hfollows.capacity .main
    have hhot : g.cache.hot.capacity = c.hot.capacity := hfollows.capacity .hot
    rw [hmain, hhot]
    exact hvalid.unit
  · have hiff : c.Valid ↔ ¬ (c.name = "" ∨ c.main.capacity.unit ≠ c.hot.capacity.unit) :=
      ⟨fun h hor => hor.elim h.name fun hunit => hunit h.unit, fun h =>
        ⟨fun hname => h (.inl hname), of_not_not fun hunit => h (.inr hunit)⟩⟩
    rcases hr.add_cases c now with ⟨hbad, herr, heq⟩ | ⟨hvalid, hok, hcases⟩
    · exact ⟨fun _ => ⟨herr, heq⟩, fun hvalid => absurd (hiff.mpr hvalid) hbad⟩
    · refine ⟨fun hbad => absurd hbad (hiff.mp hvalid), fun _ => ⟨hok, ?_⟩⟩
      rcases hcases with ⟨i, g, hg, hname, heq⟩ | ⟨hnew, heq⟩
      · have hsound : g.Sound := hr.sound g (List.mem_of_getElem? hg)
        refine .inl ⟨i, g, g.reconfigure c now, hg, hname, ?_, rfl, rfl,
          hsound.follows_reconfigure hname now, fun kind => ?_⟩
        · rw [heq]
          exact (List.set_eq_modify ..).symm
        · have hfit := hsound.longestFit c now kind
          exact ⟨hfit, hfit.eq_of_fits⟩
      · refine .inr ⟨fun hm => ?_, by rw [heq]⟩
        obtain ⟨g, hg, hname⟩ := List.mem_map.mp hm
        exact hnew g hg hname

end Registry

end PeerCache
