import Mathlib
import PeerCache.Network.Call
import PeerCache.Proofs.Group.OneKey
import PeerCache.Proofs.Ring.Membership
import PeerCache.Proofs.Wire.Naming

/-!
# What a removal sends

A removal through a node opens one exchange for each other peer on the node's ring, and puts one task
into the queue that sends it; nothing else is under way because of it.

    net.remove i group key  =  the group without the key at node i,
                               and a request ⟨.remove, p, group, key⟩ for each p in the node's `others`   (remove_eq)

A node that serves such a request drops the key from the two tiers of its group, and answers; it opens
no exchange, so a removal is not passed on (`serve_removal`, `serve_removal_quiet`).
-/

namespace PeerCache

/-! ## The other peers -/

namespace Membership

variable {m : Membership} {replicas : Nat} {p : Peer}

theorem Built.nodup_others (hm : m.Built replicas) : m.others.Nodup := hm.nodup_peers.filter _

/-- All peers but one are others. -/
theorem Built.length_others (hm : m.Built replicas) : m.others.length + 1 = m.peers.length := by
  have hcount : m.peers.count m.localPeer = 1 := List.count_eq_one_of_mem hm.nodup_peers hm.mem_peers
  have hlocal : (m.peers.filter fun p => m.isLocal p).length = 1 := by
    rw [← hcount, List.count, List.countP_eq_length_filter]
    rfl
  have hsplit := List.length_eq_length_filter_add (l := m.peers) fun p => m.isLocal p
  rw [hlocal] at hsplit
  have hothers : m.others = m.peers.filter fun p => !m.isLocal p := rfl
  rw [hothers]
  omega

end Membership

/-! ## At the group -/

namespace Group

/-- A group without one key: both tiers have lost what they had under it and kept all else in order, and
only the statistics tell the difference otherwise. -/
structure Drops (key : String) (g h : Group) : Prop where
  aside : Aside g h
  counters : h.counters = { g.counters with removes := g.counters.removes + 1 }
  entries : ∀ kind, (h.cache.tier kind).view.entries = (g.cache.tier kind).view.entries.filter (·.1 != key)
  capacity : ∀ kind, (h.cache.tier kind).capacity = (g.cache.tier kind).capacity

theorem removeLocal_tier (g : Group) (key : String) (kind : TierKind) :
    (g.removeLocal key).1.cache.tier kind = ((g.cache.tier kind).remove key).1 := by
  cases kind <;> rfl

theorem Holds.drops {P : String → ByteArray → Prop} {g : Group} (hg : g.Holds P) (key : String) :
    g.Drops key (g.removeLocal key).1 := by
  have hview (kind : TierKind) : ((g.removeLocal key).1.cache.tier kind).view =
      ((g.cache.tier kind).view.remove key).1 := by
    rw [g.removeLocal_tier, Tier.remove_view (hg.tier kind).sound]
  refine ⟨g.removeLocal_aside key, rfl, fun kind => ?_, fun kind => ?_⟩
  · rw [hview, Lru.remove_entries]
  · rw [g.removeLocal_tier]
    exact (hg.tier kind).sound.apply_capacity (.remove key)

end Group

namespace Network

variable {net : Network} {i : Nat} {h : Host} {g : Group} {group key : String} {now : Instant}

/-! ## Telling -/

/-- Requests of one kind to a list of peers: each has an exchange and a task of its own. -/
theorem foldl_openExchange (f : Peer → Message) (e : Errand) (patience : Option Nat) (ps : List Peer)
    (net : Network) :
    ∃ xs : List Exchange,
      ps.foldl (fun net p =>
        let (net, id) := net.openExchange (f p) e patience
        net.post (.send id)) net =
        { net with
          exchanges := net.exchanges ++ xs
          queue := net.queue ++ xs.map fun x => .send x.id
          next := net.next + ps.length } ∧
      xs.map (·.message) = ps.map f ∧ xs.map (·.id) = List.range' net.next ps.length := by
  induction ps generalizing net with
  | nil => exact ⟨[], by simp, rfl, rfl⟩
  | cons p ps ih =>
    obtain ⟨xs, hfold, hmessages, hids⟩ := ih ((net.openExchange (f p) e patience).1.post (.send net.next))
    refine ⟨⟨net.next, f p, e, patience, patience.map (net.clock + ·)⟩ :: xs, ?_, ?_, ?_⟩
    · rw [List.foldl_cons]
      refine hfold.trans ?_
      simp only [openExchange, newNumber, post, List.map_cons, List.append_assoc, List.cons_append,
        List.nil_append, List.length_cons]
      congr 1
      omega
    · rw [List.map_cons, List.map_cons, hmessages]
    · rw [List.map_cons, List.length_cons, List.range'_succ, hids]
      rfl

/-- **A removal tells each other peer once.** -/
theorem remove_eq (hh : net.host? i = some h) (hg : h.node.registry.get group = .ok g) (key : String) :
    ∃ xs : List Exchange,
      net.remove i group key = .ok
        ({ net.setNode i (h.node.putGroup (g.removeLocal key).1) with
            exchanges := net.exchanges ++ xs
            queue := net.queue ++ xs.map fun x => .send x.id
            next := net.next + 1 + xs.length },
          net.next, (g.removeLocal key).2) ∧
      xs.map (·.message) =
        h.node.membership.others.map (fun p => .peer ⟨.remove, p, group, key⟩ h.transport) ∧
      xs.map (·.id) = List.range' (net.next + 1) xs.length := by
  obtain ⟨xs, hfold, hmessages, hids⟩ := foldl_openExchange
    (fun p => .peer ⟨.remove, p, group, key⟩ h.transport) (.notify net.next)
    (some h.node.membership.timeouts.broadcastMillis) h.node.membership.others
    (net.setNode i (h.node.putGroup (g.removeLocal key).1)).newNumber.1
  have hlength : xs.length = h.node.membership.others.length := by
    have hlengths := congrArg List.length hmessages
    rwa [List.length_map, List.length_map] at hlengths
  refine ⟨xs, ?_, hmessages, by rw [hids, hlength]; rfl⟩
  have hnode : net.node? i = some h.node := by
    unfold node?
    rw [hh]
    rfl
  have hhost : (net.setNode i (h.node.putGroup (g.removeLocal key).1)).newNumber.1.host? i =
      some { h with node := h.node.putGroup (g.removeLocal key).1 } :=
    getElem?_modify_eq_some.mpr ⟨h, hh, (if_pos rfl).symm⟩
  have htell : (net.setNode i (h.node.putGroup (g.removeLocal key).1)).newNumber.1.tell i net.next group key =
      { net.setNode i (h.node.putGroup (g.removeLocal key).1) with
        exchanges := net.exchanges ++ xs
        queue := net.queue ++ xs.map fun x => .send x.id
        next := net.next + 1 + xs.length } := by
    unfold tell
    rw [hhost, hlength]
    exact hfold
  unfold remove
  rw [hnode]
  simp only [hg]
  exact congrArg (fun net' => Except.ok (net', net.next, (g.removeLocal key).2)) htell

/-! ## Serving -/

/-- The request of a removal as it arrives. -/
def removalAt (path : String) : Http.Request := { method := "DELETE", target := path }

theorem pathOf_removalAt {q : PeerRequest} {u : Http.Url} (hu : q.url? = some u) :
    Server.pathOf (removalAt u.path) =
      if Http.Target.maxSize < u.path.utf8ByteSize then .error 414 else .ok u.path := by
  have htoken : (!Http.isToken "DELETE" || !([] : List Http.Header).all Http.Header.isSendable) = false := by
    decide
  unfold Server.pathOf removalAt
  simp only [htoken, Bool.false_eq_true, if_false]
  by_cases hlong : Http.Target.maxSize < u.path.utf8ByteSize
  · unfold Http.Target.read
    rw [if_pos hlong, if_pos hlong]
  · rw [PeerRequest.read_path hu (Nat.le_of_not_lt hlong), if_neg hlong]

/-- A removal for a peer is answered at once, and tells nobody. -/
theorem handle_removalAt {q : PeerRequest} {u : Http.Url} (hu : q.url? = some u) (n : Node) (now : Instant) :
    ∃ n' response, Server.handle n (removalAt u.path) now = (n', .respond response) := by
  have hnamed {group key : String} (hpath : u.path = Path.peer group key)
      (hread : Server.pathOf (removalAt u.path) = .ok u.path) :
      ∃ n' response, Server.handle n (removalAt u.path) now = (n', .respond response) := by
    have hperform : Server.handle n (removalAt u.path) now = Server.perform n .remove group key now :=
      Server.handle_peer (hread.trans (congrArg _ hpath)) rfl n now
    rw [hperform]
    unfold Server.perform
    cases n.withGroup group (·.removeLocal key) with
    | mk n' r => cases r <;> exact ⟨_, _, rfl⟩
  have hread := pathOf_removalAt hu
  split at hread
  · unfold Server.handle
    rw [hread]
    exact ⟨_, _, rfl⟩
  · by_cases hdots : Http.Url.IsDots q.group ∨ q.key = ".."
    · obtain ⟨response, hhandle⟩ := Server.handle_keyless hread (PeerRequest.keyless_of_dots hu hdots) n now
      exact ⟨n, response, hhandle⟩
    · obtain ⟨hgroup, hkey⟩ := not_or.mp hdots
      exact hnamed (PeerRequest.path_eq hu hgroup hkey) hread

/-- **A removal is not passed on.**  Whoever it reaches, no exchange is opened; what comes of it is at
most the answer to it. -/
theorem serve_removal_quiet {x : Exchange} {q : PeerRequest} {t : Transport} (hx : x.message = .peer q t)
    (hq : q.verb = .remove) (net : Network) (now : Instant) :
    (net.serve now x).exchanges = net.exchanges ∧
      ∃ as : List Arrival, (net.serve now x).queue = net.queue ++ as.map (.receive x.id) := by
  have hposted (a : Arrival) : (net.post (.receive x.id a)).exchanges = net.exchanges ∧
      ∃ as : List Arrival, (net.post (.receive x.id a)).queue = net.queue ++ as.map (.receive x.id) :=
    ⟨rfl, [a], rfl⟩
  unfold serve
  rw [hx]
  dsimp only
  split
  · exact hposted _
  · next u hu =>
    split
    · next i hi =>
      unfold serveAt
      split
      · exact hposted _
      · next h hh =>
        split
        · exact hposted _
        · obtain ⟨n, response, hhandle⟩ := handle_removalAt hu h.node now
          rw [hq]
          unfold removalAt at hhandle
          simp only [PeerVerb.method, hhandle]
          exact ⟨rfl, [_], rfl⟩
    · split
      · exact hposted _
      · split
        · exact hposted _
        · exact ⟨rfl, [], by simp⟩
        · exact hposted _

/-- **What a removal does where it is served**: the group there loses the key that the path names, and
the sender is told. -/
theorem serve_removal {x : Exchange} {q : PeerRequest} {t : Transport} {u : Http.Url}
    (hx : x.message = .peer q t) (hq : q.verb = .remove) (hu : q.url? = some u)
    (hpath : u.path = Path.peer group key) (hsize : u.path.utf8ByteSize ≤ Http.Target.maxSize)
    (hi : net.listenerAt? u.authority = some i) (hh : net.host? i = some h)
    (hg : h.node.registry.get group = .ok g) (now : Instant) :
    net.serve now x = (net.setNode i (h.node.putGroup (g.removeLocal key).1)).post
      (.receive x.id (.response .noContent)) := by
  have hlistening : h.listening = true := by
    obtain ⟨hlt, hp, -⟩ := List.findIdx?_eq_some_iff_getElem.mp hi
    obtain rfl : net.hosts[i] = h := Option.some.inj ((List.getElem?_eq_getElem hlt).symm.trans hh)
    exact (Bool.and_eq_true_iff.mp hp).1
  have hhandle : Server.handle h.node (removalAt u.path) now =
      (h.node.putGroup (g.removeLocal key).1, .respond .noContent) := by
    have hread := pathOf_removalAt hu
    rw [if_neg (Nat.not_lt.mpr hsize)] at hread
    have hperform : Server.handle h.node (removalAt u.path) now =
        Server.perform h.node .remove group key now :=
      Server.handle_peer (hread.trans (congrArg _ hpath)) rfl h.node now
    rw [hperform]
    simp only [Server.perform, Node.withGroup, hg]
  unfold serve
  rw [hx]
  simp only [hu, hi, hq]
  unfold serveAt
  rw [hh]
  unfold removalAt at hhandle
  simp only [hlistening, Bool.not_true, Bool.false_eq_true, if_false, PeerVerb.method, hhandle]

end Network

/-- A request with a key that is no dot arrives under its own path. -/
theorem PeerRequest.path_of_plain {q : PeerRequest} {u : Http.Url} (hu : q.url? = some u)
    (hgroup : ¬ Http.Url.IsDots q.group) (hkey : ¬ Http.Url.IsDots q.key) :
    u.path = Path.peer q.group q.key := by
  obtain ⟨hdot, hdots⟩ := not_or.mp hkey
  rw [path_eq hu hgroup hdots, if_neg hdot]

end PeerCache
