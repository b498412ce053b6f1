import Mathlib
import PeerCache.Proofs.Cluster.Removal

/-!
# Where entries come from

`Contents` says which values can be at a node at all.  Here it is said of each tier, and with the
expiry.  What a tier has under a key after a step (`Paced.held?`) is what the step puts there
(`Paced.Puts`), or it was there before, and the step does not touch it (`Paced.Spares`):

    a set                 puts its value into the main tier, and clears the hot tier
    a load that asks      puts its value into the main tier  }  with the expiry that was settled
    a load that fetches   puts its value into the hot tier   }  when it began
    a removal             clears both

Main statement: what a tier holds was put there by the last step that wrote under its key, and that
step can be pointed at (`exists_lastPut`).
-/

namespace PeerCache

namespace Member

/-- A request puts nothing into a tier. -/
theorem Advances.of_held? {m : Member} {key' : String} {now : Instant} {p p' : RequestPhase}
    {g : Group} {P : String → ByteArray → Prop} {kind : TierKind} {key : String} {x : Entry}
    (h : m.Advances key' now p g p') (hm : m.group.Holds P)
    (hx : g.held? kind key = some x) : m.group.held? kind key = some x := by
  cases h with
  | find h => exact hm.of_held?_probe hx
  | lack hl h => exact hm.of_held?_probe hx
  | turn hl h => exact hm.of_held?_probe hx
  | accept | refuse | look | glance | miss | join => exact hx

end Member

namespace Paced

variable {s u : Paced} {e : Event} {i : Nat} {kind : TierKind} {key : String} {x : Entry}

/-- What a tier of a node has under a key, expired or not. -/
def held? (s : Paced) (i : Nat) (kind : TierKind) (key : String) : Option Entry :=
  s.cluster.members[i]?.bind fun m => m.group.held? kind key

/-- What a step puts under a key into a tier of a node. -/
def Puts (s : Paced) (i : Nat) (kind : TierKind) (key : String) (x : Entry) : Event → Prop
  | .plain (.set j k v expiration now) => j = i ∧ k = key ∧ kind = .main ∧
      ∃ m, s.cluster.members[i]? = some m ∧ x = ⟨v, expiration.resolve m.group.settings.itemExpiration now⟩
  | .settle n _ => ∃ t r, s.cluster.loads[n]? = some t ∧ s.reply? n = some r ∧ t.host = i ∧
      t.load.key = key ∧ t.phase.awaits r = true ∧ t.phase.home? = some kind ∧
      r.value? = some x.value ∧ t.phase.expiry? = some x.expireAt
  | _ => False

/-- A step that does not write under a key in a tier of a node. -/
structure Spares (s : Paced) (i : Nat) (kind : TierKind) (key : String) (e : Event) : Prop where
  unset : e.sets i key = false
  unstored : ∀ y, ¬ s.Puts i kind key y e
  unremoved : ¬ s.Removes i key e

/-! ## In one step -/

theorem held?_eq {m : Member} (hm : s.cluster.members[i]? = some m) (kind : TierKind) (key : String) :
    s.held? i kind key = m.group.held? kind key := by
  unfold held?
  rw [hm]
  rfl

theorem exists_of_held? (hx : s.held? i kind key = some x) :
    ∃ m, s.cluster.members[i]? = some m ∧ m.group.held? kind key = some x :=
  Option.bind_eq_some_iff.mp hx

theorem inMain?_eq_held? (s : Paced) (i : Nat) (key : String) : s.inMain? i key = s.held? i .main key := rfl

/-- A node whose group is replaced has what the new group has. -/
theorem held?_of_modify {m : Member} {g : Group} (hm : s.cluster.members[i]? = some m)
    (hu : u.cluster.members = s.cluster.members.modify i fun m => { m with group := g }) :
    u.held? i kind key = g.held? kind key := by
  have hmu : u.cluster.members[i]? = some { m with group := g } := by
    rw [hu]
    exact getElem?_modify_eq_some.mpr ⟨m, hm, (if_pos rfl).symm⟩
  exact held?_eq hmu kind key

/-- **What a tier holds, it held before, or the step has put it there.** -/
theorem Takes.of_held? (h : s.Takes e u) (hs : s.HoldsAt (fun _ _ => True) i)
    (hx : u.held? i kind key = some x) : s.Puts i kind key x e ∨ s.held? i kind key = some x := by
  obtain ⟨m', hm', hheld⟩ := exists_of_held? hx
  cases h.member hm' with
  | same hm => exact .inr ((held?_eq hm kind key).trans hheld)
  | advance hq hi hm hadv =>
    exact .inr ((held?_eq hm kind key).trans (hadv.of_held? (hs _ hm) hheld))
  | start hq hi hm => exact .inr ((held?_eq hm kind key).trans hheld)
  | begin ht hi hm ha hc =>
    rw [held?_eq hm]
    unfold Group.held? at hheld ⊢
    rw [hc] at hheld
    exact .inr hheld
  | release ht hi hm => exact .inr ((held?_eq hm kind key).trans hheld)
  | @settle n now t m r g p ht hi hm hr hset =>
    rw [held?_eq hm]
    cases hset with
    | store ha hk hv hexp =>
      rcases (hs m hm).of_held?_store hheld with ⟨rfl, rfl, rfl⟩ | ⟨-, hbefore⟩
      · exact .inl ⟨t, r, ht, hr, hi, rfl, ha, hk, hv, hexp⟩
      · exact .inr hbefore
    | fail ha hv hg hc he =>
      unfold Group.held? at hheld ⊢
      rw [hc] at hheld
      exact .inr hheld
  | remove hrem hm => exact .inr ((held?_eq hm kind key).trans ((hs _ hm).of_held?_removeLocal hheld).2)
  | set hm =>
    rw [held?_eq hm]
    rcases (hs _ hm).of_held?_setWith hheld with ⟨rfl, rfl, rfl⟩ | ⟨-, hbefore⟩
    · exact .inl ⟨rfl, rfl, rfl, _, hm, rfl⟩
    · exact .inr hbefore
  | setPeers hm =>
    rw [Member.setPeers_group] at hheld
    exact .inr ((held?_eq hm kind key).trans hheld)
  | @register c now m hm =>
    rw [held?_eq hm]
    rcases m.register_cases c now with he | he
    · rw [he] at hheld
      exact .inr hheld
    · rw [he] at hheld
      exact .inr ((hs m hm).of_held?_reconfigure hheld)

/-- A set leaves nothing else under its key in either tier. -/
theorem Takes.puts_of_sets (h : s.Takes e u) (hs : s.HoldsAt (fun _ _ => True) i)
    (hx : u.held? i kind key = some x) (hset : e.sets i key = true) : s.Puts i kind key x e := by
  cases h with
  | @set j k v expiration now m hm =>
    obtain ⟨rfl, rfl⟩ : j = i ∧ k = key := by simpa [Event.sets] using hset
    rw [held?_of_modify hm rfl] at hx
    rcases (hs m hm).of_held?_setWith hx with ⟨rfl, -, rfl⟩ | ⟨hk, -⟩
    · exact ⟨rfl, rfl, rfl, m, hm, rfl⟩
    · exact absurd rfl hk
  | @remove e j k m rs hrem =>
    cases e with
    | plain e => cases e <;> first | exact hrem.elim | cases hset
    | reply | settle => cases hset
  | _ => cases hset

/-- What a load stores replaces what was there. -/
theorem Takes.puts_of_puts (h : s.Takes e u) (hs : s.HoldsAt (fun _ _ => True) i)
    (hx : u.held? i kind key = some x) {y : Entry} (hy : s.Puts i kind key y e) : s.Puts i kind key x e := by
  cases h with
  | set hm =>
    obtain ⟨rfl, rfl, -⟩ := hy
    exact (Takes.set hm).puts_of_sets hs hx (by simp [Event.sets])
  | @settle n now t m r g p ht hm hr hset =>
    obtain ⟨t', r', ht', hr', hi, hk, ha, hkind, hv, hexp⟩ := hy
    obtain rfl := eq_of_getElem? ht ht'
    obtain rfl := Option.some.inj (hr.symm.trans hr')
    subst hi
    rw [held?_of_modify hm rfl] at hx
    cases hset with
    | store _ hkind' hv' hexp' =>
      obtain rfl := Option.some.inj (hkind.symm.trans hkind')
      rcases (hs m hm).of_held?_store hx with ⟨-, -, rfl⟩ | ⟨hne, -⟩
      · exact ⟨_, _, ht, hr, rfl, hk, ha, hkind, hv', hexp'⟩
      · exact absurd ⟨rfl, hk.symm⟩ hne
    | fail _ hv' =>
      rw [hv'] at hv
      cases hv
  | @remove e j k m rs hrem =>
    cases e with
    | plain e => cases e <;> first | exact hrem.elim | exact hy.elim
    | reply | settle => exact hrem.elim
  | _ => exact hy.elim

/-- A removal leaves nothing. -/
theorem Takes.held?_removed (h : s.Takes e u) (hs : s.HoldsAt (fun _ _ => True) i)
    (hrem : s.Removes i key e) : u.held? i kind key = none := by
  rw [Option.eq_none_iff_forall_ne_some]
  intro x hx
  obtain ⟨m, hm, hheld⟩ := exists_of_held? hx
  have hother := (h.removes hs hrem m hm).tier kind
  obtain ⟨y, hy, hk, -⟩ := hother.sound.toLaid.held?_eq.mp hheld
  exact hother.all y hy hk

/-- **What a tier holds after a step**, the step has put there, or it was there before and the step does
not write under its key. -/
theorem Takes.entry_cases (h : s.Takes e u) (hs : s.HoldsAt (fun _ _ => True) i)
    (hx : u.held? i kind key = some x) :
    s.Puts i kind key x e ∨ s.held? i kind key = some x ∧ s.Spares i kind key e := by
  by_cases hput : s.Puts i kind key x e
  · exact .inl hput
  · refine .inr ⟨(h.of_held? hs hx).resolve_left hput, ?_, ?_, ?_⟩
    · exact Bool.eq_false_iff.mpr fun hset => hput (h.puts_of_sets hs hx hset)
    · exact fun y hy => hput (h.puts_of_puts hs hx hy)
    · intro hrem
      rw [h.held?_removed hs hrem] at hx
      cases hx

/-- Where no tier has an entry under a key, the node lacks it. -/
theorem lacks_of_entries (hs : s.HoldsAt (fun _ _ => True) i) (hnone : ∀ kind, s.held? i kind key = none) :
    s.Lacks i key := by
  intro m hm kind x hx hk
  have hheld : s.held? i kind key = some x.entry := by
    rw [held?_eq hm]
    exact ((hs m hm).tier kind).sound.toLaid.held?_eq.mpr ⟨x, hx, hk, rfl⟩
  rw [hnone] at hheld
  cases hheld

/-! ## In a run -/

/-- Of the steps `as`, `f` and `bs` in this order, `f` is the last one that writes under a key in a tier
of a node, and it puts `x` there. -/
structure LastPut (s : Paced) (as : List Event) (f : Event) (bs : List Event) (i : Nat) (kind : TierKind)
    (key : String) (x : Entry) : Prop where
  possible : ((s.run as).step? f).isSome
  puts : (s.run as).Puts i kind key x f
  last : Along step (fun u g => (u.step? g).isSome → u.Spares i kind key g) ((s.run as).step f) bs

theorem holds_start (founders : List Founder) (i : Nat) : (start founders).HoldsAt (fun _ _ => False) i := by
  intro m hm
  obtain ⟨a, -, rfl⟩ := List.mem_map.mp (List.mem_of_getElem? hm)
  exact Group.holds_create _ a.config

/-- **What a tier holds was put there by a step**, the last one that wrote under its key. -/
theorem exists_lastPut (founders : List Founder) (es : List Event)
    (hx : ((start founders).run es).held? i kind key = some x) :
    ∃ as f bs, es = as ++ f :: bs ∧ (start founders).LastPut as f bs i kind key x := by
  induction es using List.reverseRecOn generalizing x with
  | nil =>
    obtain ⟨m, hm, hheld⟩ := exists_of_held? hx
    exact (((holds_start founders i m hm).tier kind).held hheld).elim
  | append_singleton es e ih =>
    rw [run_append] at hx
    have hkept (hbefore : ((start founders).run es).held? i kind key = some x)
        (hspares : (((start founders).run es).step? e).isSome →
          ((start founders).run es).Spares i kind key e) :
        ∃ as f bs, es ++ [e] = as ++ f :: bs ∧ (start founders).LastPut as f bs i kind key x := by
      obtain ⟨as, f, bs, rfl, hlast⟩ := ih hbefore
      refine ⟨as, f, bs ++ [e], by simp, hlast.possible, hlast.puts, along_append.mpr ⟨hlast.last, ?_, trivial⟩⟩
      rw [run_append] at hspares
      exact hspares
    cases hstep : ((start founders).run es).step? e with
    | none =>
      have hsame : ((start founders).run es).run [e] = (start founders).run es := step_of_none hstep
      rw [hsame] at hx
      exact hkept hx (by rw [hstep]; rintro ⟨⟩)
    | some u =>
      have hu : ((start founders).run es).run [e] = u := step_eq hstep
      rw [hu] at hx
      rcases (takes hstep).entry_cases (Reachable.holds ⟨founders, es, rfl⟩ i) hx with hputs | ⟨hbefore, hspares⟩
      · exact ⟨es, e, [], rfl, by rw [hstep]; rfl, hputs, trivial⟩
      · exact hkept hbefore fun _ => hspares

end Paced

end PeerCache
