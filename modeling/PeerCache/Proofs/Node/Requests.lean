import Mathlib
import PeerCache.Proofs.Group.Failures
import PeerCache.Proofs.Registry.Registration
import PeerCache.Proofs.Wire.Naming

/-!
# The life of a request at a node

A request changes at most one group, the one that its path names, by one of five deeds
(`Server.Deed`, `handle_cases`).  If it has to wait for a load, its response comes when the load has
ended.

`Server.Serves n r now response n'` is the whole life of a request at a node that has nothing else to
do meanwhile.  Such a request finds the node idle and leaves it idle, in a state that a sequence of
registrations and acts leads to (`Serves.reachable`, `Serves.idle`); and there is always a response
(`exists_serves`).
-/

namespace PeerCache

namespace Node

variable {n : Node} {g h : Group} {name : String} {i : Nat}

/-- Registrations and acts have led to the groups of the node. -/
def Reachable (n : Node) : Prop := ∃ es, n.registry = Registry.run {} es

/-- No load is on its way. -/
def Idle (n : Node) : Prop := ∀ g ∈ n.registry.groups, g.coordinator.sites = []

theorem Reachable.nodup (hn : n.Reachable) : n.registry.places.Nodup := by
  obtain ⟨es, hes⟩ := hn
  rw [hes]
  exact (Registry.kept_run es).nodup

theorem Reachable.sound (hn : n.Reachable) (hg : g ∈ n.registry.groups) : g.Sound := by
  obtain ⟨es, hes⟩ := hn
  rw [hes] at hg
  exact (Registry.kept_run es).sound g hg

theorem Reachable.putGroup_eq (hn : n.Reachable) (hg : n.registry.groups[i]? = some g) (hname : h.name = g.name) :
    n.putGroup h = { n with registry := ⟨n.registry.groups.modify i fun _ => h⟩ } := by
  unfold putGroup
  rw [Registry.update_eq hn.nodup hg hname]

theorem Reachable.putGroup (hn : n.Reachable) (hg : n.registry.groups[i]? = some g) (as : List Group.Act) :
    (n.putGroup (g.acts as)).Reachable := by
  have hrun := Registry.run_acts hn.nodup hg as
  have hput := hn.putGroup_eq hg (g.acts_name as)
  obtain ⟨es, hes⟩ := hn
  refine ⟨es ++ as.map (.act g.name), ?_⟩
  rw [hput]
  show (⟨n.registry.groups.modify i fun _ => g.acts as⟩ : Registry) = _
  rw [← hrun, hes]
  unfold Registry.run
  rw [List.foldl_append]

theorem Idle.putGroup (hidle : n.Idle) (hn : n.Reachable) (hg : n.registry.groups[i]? = some g)
    (hname : h.name = g.name) (hsites : h.coordinator.sites = []) : (n.putGroup h).Idle := by
  intro a ha
  rw [hn.putGroup_eq hg hname] at ha
  rcases mem_modify ha with ha | ⟨-, -, rfl⟩
  · exact hidle a ha
  · exact hsites

theorem putGroup_putGroup {k : Group} (hname : h.name = k.name) : (n.putGroup h).putGroup k = n.putGroup k := by
  unfold putGroup
  rw [Registry.update_update hname]

end Node

namespace Server

variable {n n' : Node} {r : Http.Request} {now : Instant} {response : Http.Response}

/-! ## What a request does at once -/

/-- What a request with a key does to the group that it names, and how far it comes by that. -/
inductive Deed (m : Membership) (name key : String) (now : Instant) (g : Group) : Group → Reply → Prop where
  | get : Deed m name key now g (g.get m key now).1 (ofBegun name (g.get m key now).2)
  | serve : Deed m name key now g (g.servePeer m key now).1 (ofBegun name (g.servePeer m key now).2)
  | set (v : ByteArray) (e : Expiration) : Deed m name key now g (g.setWith key v e now) (.respond .noContent)
  | drop : Deed m name key now g (g.removeLocal key).1 (.respond .noContent)
  | remove : Deed m name key now g (g.removeLocal key).1 (.tell .noContent name key)

theorem Deed.exists_acts {m : Membership} {name key : String} {g g' : Group} {reply : Reply}
    (h : Deed m name key now g g' reply) : ∃ as, g' = g.acts as := by
  cases h with
  | get => exact g.exists_acts_get m key now
  | serve => exact g.exists_acts_servePeer m key now
  | set v e => exact ⟨[.setWith key v e now], rfl⟩
  | drop | remove => exact ⟨[.removeLocal key], rfl⟩

/-- The group and the key that a request is about. -/
def requested? (r : Http.Request) : Option (String × String) :=
  match pathOf r with
  | .error _ => none
  | .ok path => (Path.split? path Path.peerPrefix).or (Path.split? path Path.clientPrefix)

theorem split?_eq_none {path start : String} (h : path.startsWith start = false) :
    Path.split? path start = none := by
  cases hsplit : Path.split? path start with
  | none => rfl
  | some found =>
    obtain ⟨a, b, rfl, -⟩ := Path.split?_eq_some.mp hsplit
    rw [← Bool.not_eq_true, String.startsWith_string_iff] at h
    refine absurd ?_ h
    simp

theorem peerRoute_cases (n : Node) (method path : String) (now : Instant) :
    (∃ response, peerRoute n method path now = (n, .respond response)) ∨
    ∃ name key g g' reply, Path.split? path Path.peerPrefix = some (name, key) ∧
      n.registry.get name = .ok g ∧ Deed n.membership name key now g g' reply ∧ method ≠ "HEAD" ∧
      peerRoute n method path now = (n.putGroup g', reply) := by
  unfold peerRoute
  cases hsplit : Path.split? path Path.peerPrefix with
  | none => exact .inl ⟨_, rfl⟩
  | some found =>
    obtain ⟨name, key⟩ := found
    dsimp only
    cases hg : n.registry.get name with
    | error e => exact .inl ⟨_, rfl⟩
    | ok g =>
      dsimp only
      by_cases hget : method = "GET"
      · subst hget
        exact .inr ⟨name, key, g, _, _, rfl, hg, .serve, by decide, rfl⟩
      · by_cases hdelete : method = "DELETE"
        · subst hdelete
          exact .inr ⟨name, key, g, _, _, rfl, hg, .drop, by decide, rfl⟩
        · simp only [beq_iff_eq, hget, hdelete, ↓reduceIte]
          exact .inl ⟨_, rfl⟩

theorem clientRoute_cases (n : Node) (r : Http.Request) (path : String) (now : Instant) :
    (∃ response, clientRoute n r path now = (n, .respond response)) ∨
    ∃ name key g g' reply, Path.split? path Path.clientPrefix = some (name, key) ∧
      n.registry.get name = .ok g ∧ Deed n.membership name key now g g' reply ∧ r.method ≠ "HEAD" ∧
      clientRoute n r path now = (n.putGroup g', reply) := by
  unfold clientRoute
  cases hsplit : Path.split? path Path.clientPrefix with
  | none => exact .inl ⟨_, rfl⟩
  | some found =>
    obtain ⟨name, key⟩ := found
    dsimp only
    cases hg : n.registry.get name with
    | error e => exact .inl ⟨_, rfl⟩
    | ok g =>
      dsimp only
      by_cases hget : r.method = "GET"
      · simp only [hget]
        exact .inr ⟨name, key, g, _, _, rfl, hg, .get, by decide, rfl⟩
      · by_cases hput : r.method = "PUT"
        · simp only [hput]
          unfold store
          cases expiryOf r with
          | error text => exact .inl ⟨_, rfl⟩
          | ok e =>
            by_cases hlarge : maxBody < r.body.size
            · simp only [hlarge, ↓reduceIte]
              exact .inl ⟨_, rfl⟩
            · simp only [hlarge, ↓reduceIte]
              exact .inr ⟨name, key, g, _, _, rfl, hg, .set r.body e, by decide, rfl⟩
        · by_cases hdelete : r.method = "DELETE"
          · simp only [hdelete]
            exact .inr ⟨name, key, g, _, _, rfl, hg, .remove, by decide, rfl⟩
          · simp only [beq_iff_eq, hget, hput, hdelete, ↓reduceIte]
            exact .inl ⟨_, rfl⟩

theorem route_cases (n : Node) (r : Http.Request) (path : String) (now : Instant) :
    (∃ response, route n r path now = (n, .respond response)) ∨
    ∃ name key g g' reply,
      (Path.split? path Path.peerPrefix).or (Path.split? path Path.clientPrefix) = some (name, key) ∧
      n.registry.get name = .ok g ∧ Deed n.membership name key now g g' reply ∧ r.method ≠ "HEAD" ∧
      route n r path now = (n.putGroup g', reply) := by
  unfold route
  cases (if r.method == "GET" then fixedRoute? n path else none) with
  | some response => exact .inl ⟨response, rfl⟩
  | none =>
    dsimp only
    cases hpeer : path.startsWith Path.peerPrefix with
    | true =>
      rw [if_pos rfl]
      rcases peerRoute_cases n r.method path now with hquiet | ⟨name, key, g, g', reply, hsplit, hrest⟩
      · exact .inl hquiet
      · exact .inr ⟨name, key, g, g', reply, by rw [hsplit]; rfl, hrest⟩
    | false =>
      rw [if_neg Bool.false_ne_true]
      cases hclient : path.startsWith Path.clientPrefix with
      | true =>
        rw [if_pos rfl]
        rcases clientRoute_cases n r path now with hquiet | ⟨name, key, g, g', reply, hsplit, hrest⟩
        · exact .inl hquiet
        · exact .inr ⟨name, key, g, g', reply, by rw [split?_eq_none hpeer, hsplit]; rfl, hrest⟩
      | false =>
        rw [if_neg Bool.false_ne_true]
        exact .inl ⟨notFound, rfl⟩

/-- **Everything that a request can do at once**: nothing but respond, or one deed to the group that it
names. -/
theorem handle_cases (n : Node) (r : Http.Request) (now : Instant) :
    (∃ response, handle n r now = (n, .respond response)) ∨
    ∃ name key g g' reply, requested? r = some (name, key) ∧ n.registry.get name = .ok g ∧
      Deed n.membership name key now g g' reply ∧ handle n r now = (n.putGroup g', reply) := by
  unfold handle requested?
  cases pathOf r with
  | error status => exact .inl ⟨_, rfl⟩
  | ok path =>
    dsimp only
    rcases route_cases n r path now with
      ⟨response, hroute⟩ | ⟨name, key, g, g', reply, hsplit, hg, hdeed, hhead, hroute⟩
    · rw [hroute]
      exact .inl ⟨_, rfl⟩
    · refine .inr ⟨name, key, g, g', reply, hsplit, hg, hdeed, ?_⟩
      rw [hroute]
      cases reply with
      | respond response => simp [hhead]
      | wait | tell => rfl

/-! ## Until the response -/

/-- A request from its arrival to its response, with nothing else going on at the node meanwhile.  If it
starts a load, the response is what this load comes to. -/
inductive Serves (n : Node) (r : Http.Request) (now : Instant) : Http.Response → Node → Prop where
  | respond {response : Http.Response} {n' : Node} (handled : handle n r now = (n', .respond response)) :
      Serves n r now response n'
  | tell {response : Http.Response} {name key : String} {n' : Node}
      (handled : handle n r now = (n', .tell response name key)) : Serves n r now response n'
  | load {name : String} {k : Nat} {l : Load} {n₁ : Node} {g g' : Group} {e : Ending}
      (handled : handle n r now = (n₁, .wait name k (some l))) (found : n₁.registry.get name = .ok g)
      (loaded : g.Loads n₁.membership l g' e) :
      Serves n r now (ofOutcome (e.outcome name l.key)) (n₁.putGroup g')

theorem status_ofOutcome {o : Outcome} (h : 400 ≤ (ofOutcome o).status) (v : ByteArray) : o ≠ .ok v := by
  rintro rfl
  have hok : (ofOutcome (.ok v)).status = 200 := rfl
  omega

/-- What a deed comes to while no load of the group is on its way: a response at once, or a load, the only
one. -/
theorem Deed.cases {m : Membership} {name key : String} {g g' : Group} {reply : Reply} (hg : g.Sound)
    (hidle : g.coordinator.sites = []) (h : Deed m name key now g g' reply) :
    (∃ response, (reply = .respond response ∨ reply = .tell response name key) ∧
      g'.coordinator.sites = [] ∧ (400 ≤ response.status → g.Spares key now g')) ∨
    (∃ k owner, reply = .wait name k (some ⟨k, key, owner⟩) ∧
      g'.coordinator.sites = [(k, g.name, key)] ∧ g.Spares key now g') := by
  have hstatus : ¬ 400 ≤ Http.Response.noContent.status := by decide
  cases h with
  | get =>
    rcases hg.get_cases hidle m key now with ⟨v, hv, hsites⟩ | ⟨k, owner, hwait, hsites, hspares⟩
    · rw [hv]
      exact .inl ⟨_, .inl rfl, hsites, fun h => absurd rfl (status_ofOutcome h v)⟩
    · rw [hwait]
      exact .inr ⟨k, owner, rfl, hsites, hspares⟩
  | serve =>
    rcases hg.servePeer_cases hidle m key now with ⟨o, ho, hsites, hvalue⟩ | ⟨k, owner, hwait, hsites, hspares⟩
    · rw [ho]
      refine .inl ⟨_, .inl rfl, hsites, fun h => ?_⟩
      rcases hvalue with ⟨v, hv⟩ | hspares
      · exact absurd hv (status_ofOutcome h v)
      · exact hspares
    · rw [hwait]
      exact .inr ⟨k, owner, rfl, hsites, hspares⟩
  | set v e => exact .inl ⟨_, .inl rfl, hidle, fun h => absurd h hstatus⟩
  | drop => exact .inl ⟨_, .inl rfl, hidle, fun h => absurd h hstatus⟩
  | remove => exact .inl ⟨_, .inr rfl, hidle, fun h => absurd h hstatus⟩

/-- **What a request comes to**, at a node where no load is on its way: the node is as it was, or one
group is, the one that the request names, up to a sequence of acts that leaves no load on its way; and if
the request fails, this group has been spared. -/
theorem Serves.cases (hn : n.Reachable) (hidle : n.Idle) (h : Serves n r now response n') :
    n' = n ∨ ∃ (key : String) (i : Nat) (g : Group) (as : List Group.Act),
      requested? r = some (g.name, key) ∧ n.registry.groups[i]? = some g ∧ n' = n.putGroup (g.acts as) ∧
      (g.acts as).coordinator.sites = [] ∧ (400 ≤ response.status → g.Spares key now (g.acts as)) := by
  rcases handle_cases n r now with ⟨response', hquiet⟩ | ⟨name, key, g, g₁, reply, hrequested, hget, hdeed, hhandle⟩
  · left
    cases h with
    | respond handled => exact (congrArg Prod.fst (handled.symm.trans hquiet))
    | tell handled => cases handled.symm.trans hquiet
    | load handled => cases handled.symm.trans hquiet
  · right
    obtain ⟨i, hi, rfl⟩ := Registry.get_eq_ok hget
    have hmem : g ∈ n.registry.groups := List.mem_of_getElem? hi
    obtain ⟨as, rfl⟩ := hdeed.exists_acts
    rcases hdeed.cases (hn.sound hmem) (hidle g hmem) with
      ⟨response', hreply, hsites, hspares⟩ | ⟨k, owner, hreply, hsites, hspares⟩
    · refine ⟨key, i, g, as, hrequested, hi, ?_⟩
      cases h with
      | respond handled =>
        have heq := handled.symm.trans hhandle
        rcases hreply with rfl | rfl
        · cases heq
          exact ⟨rfl, hsites, hspares⟩
        · cases heq
      | tell handled =>
        have heq := handled.symm.trans hhandle
        rcases hreply with rfl | rfl
        · cases heq
        · cases heq
          exact ⟨rfl, hsites, hspares⟩
      | load handled =>
        have heq := handled.symm.trans hhandle
        rcases hreply with rfl | rfl
        · cases heq
        · cases heq
    · subst hreply
      cases h with
      | respond handled => cases handled.symm.trans hhandle
      | tell handled => cases handled.symm.trans hhandle
      | @load name' k' l n₁ g₂ g' e handled found loaded =>
        cases handled.symm.trans hhandle
        have hname := g.acts_name as
        cases found.symm.trans (Registry.get_update hget hname)
        obtain ⟨⟨bs, rfl⟩, -⟩ := loaded.cases
        rw [← Group.acts_append] at loaded ⊢
        refine ⟨key, i, g, as ++ bs, hrequested, hi, ?_, ?_, fun h => ?_⟩
        · refine Node.putGroup_putGroup ?_
          rw [hname, g.acts_name]
        · refine loaded.sites ?_
          rw [hsites, hname]
        · refine loaded.spares (fun v => ?_) hspares
          rintro rfl
          exact status_ofOutcome h v rfl

/-- A request leads from one reachable state to another. -/
theorem Serves.reachable (hn : n.Reachable) (hidle : n.Idle) (h : Serves n r now response n') : n'.Reachable := by
  rcases h.cases hn hidle with rfl | ⟨key, i, g, as, -, hg, rfl, -⟩
  · exact hn
  · exact hn.putGroup hg as

theorem Serves.idle (hn : n.Reachable) (hidle : n.Idle) (h : Serves n r now response n') : n'.Idle := by
  rcases h.cases hn hidle with rfl | ⟨key, i, g, as, -, hg, rfl, hsites, -⟩
  · exact hidle
  · exact hidle.putGroup hn hg (g.acts_name as) hsites

/-- Every request has a response. -/
theorem exists_serves (hn : n.Reachable) (hidle : n.Idle) (r : Http.Request) (now : Instant) :
    ∃ response n', Serves n r now response n' := by
  rcases handle_cases n r now with ⟨response, hquiet⟩ | ⟨name, key, g, g₁, reply, -, hget, hdeed, hhandle⟩
  · exact ⟨response, n, .respond hquiet⟩
  · obtain ⟨i, hi, rfl⟩ := Registry.get_eq_ok hget
    have hmem : g ∈ n.registry.groups := List.mem_of_getElem? hi
    obtain ⟨as, rfl⟩ := hdeed.exists_acts
    rcases hdeed.cases (hn.sound hmem) (hidle g hmem) with ⟨response, rfl | rfl, -⟩ | ⟨k, owner, rfl, -⟩
    · exact ⟨response, _, .respond hhandle⟩
    · exact ⟨response, _, .tell hhandle⟩
    · have hfound := Registry.get_update hget (g.acts_name as)
      obtain ⟨g', e, hloads⟩ := (g.acts as).exists_loads (n.putGroup (g.acts as)).membership ⟨k, key, owner⟩ now
      exact ⟨_, _, .load hhandle hfound hloads⟩

end Server

end PeerCache
