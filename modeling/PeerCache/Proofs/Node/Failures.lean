import Mathlib
import PeerCache.Proofs.Node.Requests

/-!
# Failed requests change no cached data

A request that is answered with a status from 400 on leaves what can be read at the node as it was:
whatever it has asked for, wherever it has failed, and whatever a load for it has met
(`failure_spares`).  What may be gone is an entry of its own key that had expired.
-/

namespace PeerCache.Server

variable {n n' : Node} {r : Http.Request} {now : Instant} {response : Http.Response}

/-- **Failed requests change no cached data.**  At a node with no other request on its way, one that
fails leaves the groups, their settings, their bounds and all that can still be read in their tiers, in
its order of use; only the group that the request names may have changed otherwise, and of the entries
of its tiers only what had expired under the key of the request may be gone. -/
theorem failure_spares (hn : n.Reachable) (hidle : n.Idle) (h : Serves n r now response n')
    (hfails : 400 ≤ response.status) :
    n'.membership = n.membership ∧ n'.files = n.files ∧ n'.draining = n.draining ∧
    n'.registry.groups.length = n.registry.groups.length ∧
    ∀ (i : Nat) (g : Group), n.registry.groups[i]? = some g →
      ∃ g', n'.registry.groups[i]? = some g' ∧ g'.name = g.name ∧ g'.settings = g.settings ∧
        (g' = g ∨ ∃ key, requested? r = some (g.name, key)) ∧
        ∀ kind, (g'.cache.tier kind).capacity = (g.cache.tier kind).capacity ∧
          (∀ t : Instant, now.nanos ≤ t.nanos →
            (g'.cache.tier kind).view.live t = (g.cache.tier kind).view.live t) ∧
          ((g'.cache.tier kind).view.entries = (g.cache.tier kind).view.entries ∨
            ∃ key, requested? r = some (g.name, key) ∧
              (g'.cache.tier kind).view.entries = (g.cache.tier kind).view.swept key now) := by
  have hnode : n'.membership = n.membership ∧ n'.files = n.files ∧ n'.draining = n.draining ∧
      n'.registry.groups.length = n.registry.groups.length ∧
      ∀ (i : Nat) (g : Group), n.registry.groups[i]? = some g → ∃ g', n'.registry.groups[i]? = some g' ∧
        (g' = g ∨ ∃ key, requested? r = some (g.name, key) ∧ g.Spares key now g') := by
    rcases h.cases hn hidle with rfl | ⟨key, j, a, as, hrequested, ha, rfl, -, hspares⟩
    · exact ⟨rfl, rfl, rfl, rfl, fun i g hg => ⟨g, hg, .inl rfl⟩⟩
    · rw [hn.putGroup_eq ha (a.acts_name as)]
      refine ⟨rfl, rfl, rfl, List.length_modify .., fun i g hg => ?_⟩
      refine ⟨_, getElem?_modify_eq_some.mpr ⟨g, hg, rfl⟩, ?_⟩
      by_cases hij : j = i
      · subst hij
        cases eq_of_getElem? ha hg
        rw [if_pos rfl]
        exact .inr ⟨key, hrequested, hspares hfails⟩
      · exact .inl (if_neg hij)
  obtain ⟨hmembership, hfiles, hdraining, hlength, hgroups⟩ := hnode
  refine ⟨hmembership, hfiles, hdraining, hlength, fun i g hg => ?_⟩
  obtain ⟨g', hg', rfl | ⟨key, hrequested, hspares⟩⟩ := hgroups i g hg
  · exact ⟨g', hg', rfl, rfl, .inl rfl, fun kind => ⟨rfl, fun t _ => rfl, .inl rfl⟩⟩
  · refine ⟨g', hg', hspares.name, hspares.settings, .inr ⟨key, hrequested⟩, fun kind => ?_⟩
    have htier := hspares.tier kind
    exact ⟨htier.capacity, fun t ht => htier.live ht, htier.entries.imp_right fun heq => ⟨key, hrequested, heq⟩⟩

/-- A node alone and without a backfill, with an expired entry and one that stays. -/
def stale : Node where
  membership := ⟨⟨"a:1"⟩, ⟨1⟩, {}, Ring.build [⟨"a:1"⟩] 1⟩
  registry := Registry.run {} [
    .add { name := "g", main := ⟨.items 2, 1⟩, hot := ⟨.items 2, 1⟩ } ⟨0⟩,
    .act "g" (.setWith "k" ⟨#[1]⟩ (.at ⟨5⟩) ⟨1⟩),
    .act "g" (.setWith "l" ⟨#[2]⟩ .never ⟨2⟩)]

theorem failure_spares_stale :
    let r : Http.Request := { method := "GET", target := "/cache/g/k" }
    stale.Reachable ∧ stale.Idle ∧ ∃ response n', Serves stale r ⟨7⟩ response n' ∧ response.status = 500 ∧
      ∀ (i : Nat) (g : Group), stale.registry.groups[i]? = some g → ∃ g', n'.registry.groups[i]? = some g' ∧
        ∀ kind, (g'.cache.tier kind).view.live ⟨7⟩ = (g.cache.tier kind).view.live ⟨7⟩ := by
  intro r
  let n₁ := (handle stale r ⟨7⟩).1
  let l : Load := ⟨0, "k", ⟨"a:1"⟩⟩
  have hidle : stale.Idle := by
    have hall : ∀ g ∈ stale.registry.groups, g.coordinator.sites = [] := by decide +kernel
    exact hall
  have hhandle : handle stale r ⟨7⟩ = (n₁, .wait "g" 0 (some l)) := Prod.ext rfl (by cbv)
  have hgroups : ∀ g ∈ n₁.registry.groups,
      g.settings.backfill.isNone = true ∧ (g.cache.main.peek "k" ⟨8⟩).isNone = true := by decide +kernel
  obtain ⟨g, hg⟩ : ∃ g, n₁.registry.get "g" = .ok g := by
    have hok : (n₁.registry.get "g").isOk = true := by decide +kernel
    cases hget : n₁.registry.get "g" with
    | ok g => exact ⟨g, rfl⟩
    | error e =>
      rw [hget] at hok
      cases hok
  obtain ⟨i, hi, hname⟩ := Registry.get_eq_ok hg
  obtain ⟨hbackfill, hpeek⟩ := hgroups g (List.mem_of_getElem? hi)
  have hbegin : g.beginLoad n₁.membership l ⟨8⟩ = (g, .ended (.returned (.error (.noBackfill "g")))) := by
    have hlocal : n₁.membership.isLocal l.owner = true := by decide +kernel
    unfold Group.beginLoad
    rw [if_pos hlocal, Option.isNone_iff_eq_none.mp hpeek, Option.isNone_iff_eq_none.mp hbackfill, hname]
  have hserves : Serves stale r ⟨7⟩ _ _ := .load hhandle hg (.ended hbegin)
  obtain ⟨-, -, -, -, hkept⟩ := failure_spares ⟨_, rfl⟩ hidle hserves (by decide)
  refine ⟨⟨_, rfl⟩, hidle, _, _, hserves, rfl, fun i g hg => ?_⟩
  obtain ⟨g', hg', -, -, -, htiers⟩ := hkept i g hg
  exact ⟨g', hg', fun kind => (htiers kind).2.1 ⟨7⟩ (le_refl _)⟩

end PeerCache.Server
