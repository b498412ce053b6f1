import Mathlib
import PeerCache.Proofs.Cache.Ageing
import PeerCache.Proofs.Registry.Registration

/-!
# What a get does to the entry that it serves

A get has three ways to answer from the tiers.  What it finds in the tier where the key belongs, the main
tier for an owned key and the hot tier for any other, it brings to the recent end of that tier.  The third
way is the second look: into the main tier, for a key that another node owns and that has been set here.
That look leaves the tier as it is, so what it finds keeps its place, however often it is served, and goes
when the place is at the least recent end.

Main statement: `Group.get_refreshes`.
-/

namespace PeerCache

namespace Group

variable {g : Group} {m : Membership} {key : String} {now : Instant} {v : ByteArray}

/-- **How a get answers from the tiers**: with what a lookup finds where the key belongs, or, for a key
that another node owns, with what the main tier shows. -/
theorem get_answer_cases (h : (g.get m key now).2 = .answer (.ok v)) :
    let kind := home (m.isLocal (m.ownerOf key))
    (g.get m key now).1.cache = g.cache.setTier kind ((g.cache.tier kind).get key now).1 ∧
      ((∃ e, ((g.cache.tier kind).get key now).2 = some e ∧ e.value = v) ∨
        (m.isLocal (m.ownerOf key) = false ∧ ((g.cache.tier kind).get key now).2 = none ∧
          ∃ e, g.cache.main.peek key now = some e ∧ e.value = v)) := by
  intro kind
  let p := g.countGet.probe kind key now
  have hget : g.get m key now =
      (p.2.or (if m.isLocal (m.ownerOf key) then none else p.1.glance key now)).elim
        (p.1.countMiss.join key (m.ownerOf key)) fun v => (p.1.countHit, .answer (.ok v)) :=
    g.get_eq m key now
  cases hfound : p.2.or (if m.isLocal (m.ownerOf key) then none else p.1.glance key now) with
  | none =>
    rw [hget, hfound, Option.elim_none] at h
    rcases p.1.countMiss.join_cases key (m.ownerOf key) with ⟨_, _, hjoin, -⟩ | ⟨_, _, hjoin, -⟩
    all_goals
      rw [hjoin] at h
      cases h
  | some w =>
    rw [hget, hfound, Option.elim_some] at h ⊢
    cases h
    refine ⟨rfl, ?_⟩
    rcases Option.or_eq_some_iff.mp hfound with hprobe | ⟨hprobe, hglance⟩
    · exact .inl (Option.map_eq_some_iff.mp hprobe)
    · right
      have hlocal : m.isLocal (m.ownerOf key) = false := by
        by_contra hlocal
        rw [if_pos (eq_true_of_ne_false hlocal)] at hglance
        cases hglance
      have hkind : kind = .hot := congrArg home hlocal
      have hsame : p.1.cache.main = g.cache.main := by
        show (g.cache.setTier kind ((g.cache.tier kind).get key now).1).main = g.cache.main
        rw [hkind]
        rfl
      rw [hlocal, if_neg Bool.false_ne_true, glance, hsame] at hglance
      exact ⟨hlocal, Option.map_eq_none_iff.mp hprobe, Option.map_eq_some_iff.mp hglance⟩

/-- **A get refreshes what it serves, but for the second look.**  At every moment in the life of a registry,
a get that answers from the tiers has found the value where the key belongs, and has made its entry the most
recently used one of that tier: of the entries there it is the last to go under any operations on other
keys.  Or it has found the value in the main tier, for a key that another node owns.  Then the main tier is
what it was, and the entry keeps its place: all entries that have been used since it was outlast it. -/
theorem get_refreshes {es : List Registry.Event} (hg : g ∈ (Registry.run {} es).groups)
    (hserved : (g.get m key now).2 = .answer (.ok v)) :
    let kind := home (m.isLocal (m.ownerOf key))
    let after := (g.get m key now).1.cache
    (∃ e, (g.cache.tier kind).peek key now = some e ∧ e.value = v ∧ (after.tier kind).MostRecent key e) ∨
    (m.isLocal (m.ownerOf key) = false ∧ g.cache.hot.peek key now = none ∧ after.main = g.cache.main ∧
      ∃ e older newer, g.cache.main.peek key now = some e ∧ e.value = v ∧
        after.main.view.entries = older ++ (key, e) :: newer ∧
        ∀ ops, after.main.Elsewhere ops → (after.main.run ops).1.held? key = some e →
          ∀ p ∈ newer, (after.main.run ops).1.held? p.1 = some p.2) := by
  intro kind after
  have hsound : g.Sound := (Registry.kept_run es).sound g hg
  obtain ⟨ht, hf⟩ := hsound kind
  obtain ⟨hcache, ⟨e, hget, hv⟩ | ⟨hlocal, hget, e, hpeek, hv⟩⟩ := get_answer_cases hserved
  · left
    refine ⟨e, (ht.toLaid.get_snd key now).symm.trans hget, hv, ?_⟩
    show ((g.get m key now).1.cache.tier kind).MostRecent key e
    rw [hcache, tier_setTier, if_pos rfl]
    exact ht.mostRecent_get hf hget
  · right
    have hkind : kind = .hot := congrArg home hlocal
    rw [ht.toLaid.get_snd key now, hkind] at hget
    have hmain : after.main = g.cache.main := by
      show (g.get m key now).1.cache.main = g.cache.main
      rw [hcache, show home (m.isLocal (m.ownerOf key)) = .hot from hkind]
      rfl
    obtain ⟨hs, hfits⟩ := hsound .main
    obtain ⟨older, newer, hsplit⟩ := List.append_of_mem (hs.toLaid.held?_iff.mp (Tier.of_peek hpeek).1)
    refine ⟨hlocal, hget, hmain, e, older, newer, hpeek, hv, ?_⟩
    rw [hmain]
    exact ⟨hsplit, fun ops hops hheld => hs.held?_newer hfits hsplit hops hheld⟩

/-- A group with room for two entries in each tier. -/
def roomForTwo : GroupConfig := { name := "g", main := ⟨.items 2, 1⟩, hot := ⟨.items 2, 1⟩ }

/-- The key k has been set, and then l. -/
def twoSets : List Registry.Event :=
  [.add roomForTwo ⟨0⟩, .act "g" (.setWith "k" ⟨#[1]⟩ .never ⟨1⟩), .act "g" (.setWith "l" ⟨#[2]⟩ .never ⟨2⟩)]

def afterSets : Group :=
  (create roomForTwo).acts [.setWith "k" ⟨#[1]⟩ .never ⟨1⟩, .setWith "l" ⟨#[2]⟩ .never ⟨2⟩]

theorem mem_run_twoSets : afterSets ∈ (Registry.run {} twoSets).groups := List.mem_singleton.mpr rfl

/-- A node alone on its ring owns every key. -/
theorem get_refreshes_owned :
    let m : Membership := ⟨⟨"a:1"⟩, ⟨1⟩, {}, Ring.build [⟨"a:1"⟩] 1⟩
    let g := afterSets
    g ∈ (Registry.run {} twoSets).groups ∧ (g.get m "k" ⟨3⟩).2 = .answer (.ok ⟨#[1]⟩) ∧
      ∃ e, e.value = ⟨#[1]⟩ ∧ (g.get m "k" ⟨3⟩).1.cache.main.MostRecent "k" e := by
  intro m g
  have hserved : (g.get m "k" ⟨3⟩).2 = .answer (.ok ⟨#[1]⟩) := by cbv
  refine ⟨mem_run_twoSets, hserved, ?_⟩
  have hlocal : m.isLocal (m.ownerOf "k") = true := by decide +kernel
  rcases get_refreshes mem_run_twoSets hserved with ⟨e, -, hv, hrecent⟩ | ⟨hremote, -⟩
  · rw [hlocal] at hrecent
    exact ⟨e, hv, hrecent⟩
  · cases hlocal.symm.trans hremote

/-- **A value that is served can be the first to go.**  The key k belongs to the other peer and has been set
here before l.  It is served, and then a third key is set: the tier drops k and keeps l. -/
theorem served_goes_first :
    let m : Membership := ⟨⟨"a:1"⟩, ⟨1⟩, {}, Ring.build [⟨"a:1"⟩, ⟨"b:1"⟩] 1⟩
    let g := afterSets
    let t := (g.get m "k" ⟨3⟩).1.cache.main
    let ops : List Tier.Op := [.put "n" ⟨#[3]⟩ none ⟨4⟩]
    g ∈ (Registry.run {} twoSets).groups ∧ m.isLocal (m.ownerOf "k") = false ∧
      (g.get m "k" ⟨3⟩).2 = .answer (.ok ⟨#[1]⟩) ∧ t.Elsewhere ops ∧
      t.held? "k" = some ⟨⟨#[1]⟩, none⟩ ∧ t.held? "l" = some ⟨⟨#[2]⟩, none⟩ ∧
      (t.run ops).1.held? "k" = none ∧ (t.run ops).1.held? "l" = some ⟨⟨#[2]⟩, none⟩ := by
  refine ⟨mem_run_twoSets, by cbv, by cbv, ?_, by cbv, by cbv, by cbv, by cbv⟩
  intro op hop key hkey
  rw [List.mem_singleton.mp hop] at hkey
  cases hkey
  cbv

end Group

end PeerCache
