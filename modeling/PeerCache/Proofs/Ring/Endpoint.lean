import Mathlib
import PeerCache.Proofs.Group.Lookups
import PeerCache.Proofs.Ring.Membership
import PeerCache.Proofs.Text.Numeral

/-!
# Where peers listen

A peer listens at a host and a port number.  Its address is a text, in which the port may have a plus sign and
zeros in front, and peers are told apart by their texts; so one endpoint can stand on a ring as two peers, and a
node can take itself for another.  What is accepted has an endpoint, and two texts have the same one exactly if
they become the same with their ports written plainly:

    parse s = .ok p → p.endpoint? = some e, for some e                          (exists_endpoint_of_parse)
    p.endpoint? = q.endpoint? ↔ p.plain = q.plain, for peers with endpoints     (endpoint?_eq_iff)

Main statement: `endpoints_told_apart`, and `own_address_twice` for a node that finds another spelling of its own
address in a list.
-/

namespace PeerCache

open Numeral (IsRun withoutZeros)

/-- A host and a port number. -/
structure Endpoint where
  host : List Char
  port : Nat
  deriving Repr, DecidableEq

namespace Peer

variable {cs host port : List Char} {s : String} {p q : Peer} {e f : Endpoint} {n : Nat}

/-- A port without the plus sign that may stand in front. -/
def withoutPlus : List Char → List Char
  | '+' :: cs => cs
  | cs => cs

/-- Where a peer listens. -/
def endpoint? (p : Peer) : Option Endpoint :=
  match splitLastColon p.addr.toList with
  | some (host, port) => (readPort? port).map fun n => ⟨host, n⟩
  | none => none

/-- The peer with its port written plainly. -/
def plain (p : Peer) : Peer :=
  match splitLastColon p.addr.toList with
  | some (host, port) => ⟨String.ofList (host ++ ':' :: withoutZeros (withoutPlus port))⟩
  | none => p

/-! ## Addresses and their parts -/

theorem splitLastColon_eq_some_iff :
    splitLastColon cs = some (host, port) ↔ cs = host ++ ':' :: port ∧ ':' ∉ port := by
  unfold splitLastColon
  rw [List.span_eq_takeWhile_dropWhile]
  constructor
  · intro h
    have hsplit := List.takeWhile_append_dropWhile (p := fun c => decide (c ≠ ':')) (l := cs.reverse)
    have hhead := List.head?_dropWhile_not (fun c => decide (c ≠ ':')) cs.reverse
    have htake : ∀ c ∈ cs.reverse.takeWhile fun c => decide (c ≠ ':'), c ≠ ':' := fun c hc =>
      of_decide_eq_true (List.mem_takeWhile_imp (p := fun c => decide (c ≠ ':')) hc)
    revert h hsplit hhead htake
    generalize cs.reverse.takeWhile (fun c => decide (c ≠ ':')) = before
    generalize cs.reverse.dropWhile (fun c => decide (c ≠ ':')) = rest
    intro h hsplit hhead htake
    cases rest with
    | nil => cases h
    | cons c rest =>
      cases h
      simp only [List.head?_cons, decide_eq_false_iff_not, not_not] at hhead
      subst hhead
      refine ⟨?_, fun hmem => htake ':' (List.mem_reverse.mp hmem) rfl⟩
      rw [← List.reverse_reverse cs, ← hsplit, List.reverse_append, List.reverse_cons, List.append_assoc]
      rfl
  · rintro ⟨rfl, hport⟩
    have hall : ∀ c ∈ port.reverse, decide (c ≠ ':') = true := fun c hc =>
      decide_eq_true fun heq => hport (heq ▸ List.mem_reverse.mp hc)
    have hreverse : (host ++ ':' :: port).reverse = port.reverse ++ ':' :: host.reverse := by
      rw [List.reverse_append, List.reverse_cons, List.append_assoc]
      rfl
    rw [hreverse, List.takeWhile_append_of_pos hall, List.dropWhile_append_of_pos hall,
      List.takeWhile_cons_of_neg (by simp), List.dropWhile_cons_of_neg (by simp), List.append_nil]
    simp only [List.reverse_reverse]

theorem readPort?_eq_some_iff :
    readPort? cs = some n ↔
      IsRun (withoutPlus cs) ∧ Numeral.value (withoutPlus cs) = n ∧ 1 ≤ n ∧ n ≤ 65535 := by
  have hword : Numeral.readWord? 65536 cs = Numeral.readDigits? 65536 (withoutPlus cs) := by
    by_cases hplus : ∃ ds, cs = '+' :: ds
    · obtain ⟨ds, rfl⟩ := hplus
      rfl
    · have hnone : ∀ ds, cs = '+' :: ds → False := fun ds heq => hplus ⟨ds, heq⟩
      rw [Numeral.readWord?.eq_2 _ _ hnone, withoutPlus.eq_2 _ hnone]
  unfold readPort?
  rw [Option.filter_eq_some_iff, hword, Numeral.readDigits?_eq_some_iff, decide_eq_true_iff]
  constructor
  · rintro ⟨⟨hrun, hlt, rfl⟩, hpos⟩
    exact ⟨hrun, rfl, hpos, Nat.le_of_lt_succ hlt⟩
  · rintro ⟨hrun, rfl, hpos, hle⟩
    exact ⟨⟨hrun, Nat.lt_succ_of_le hle, rfl⟩, hpos⟩

theorem endpoint?_eq_some_iff :
    p.endpoint? = some e ↔ ∃ port, p.addr.toList = e.host ++ ':' :: port ∧ ':' ∉ port ∧
      IsRun (withoutPlus port) ∧ Numeral.value (withoutPlus port) = e.port ∧ 1 ≤ e.port ∧ e.port ≤ 65535 := by
  unfold endpoint?
  constructor
  · intro h
    cases hsplit : splitLastColon p.addr.toList with
    | none => rw [hsplit] at h; cases h
    | some parts =>
      obtain ⟨host, port⟩ := parts
      rw [hsplit] at h
      obtain ⟨n, hread, rfl⟩ := Option.map_eq_some_iff.mp h
      obtain ⟨haddr, hcolon⟩ := splitLastColon_eq_some_iff.mp hsplit
      exact ⟨port, haddr, hcolon, readPort?_eq_some_iff.mp hread⟩
  · rintro ⟨port, haddr, hcolon, hport⟩
    rw [splitLastColon_eq_some_iff.mpr ⟨haddr, hcolon⟩]
    show (readPort? port).map _ = _
    rw [readPort?_eq_some_iff.mpr hport]
    rfl

/-- The last rule for addresses is that of the port. -/
theorem exists_port_of_fault? (h : fault? cs = none) :
    ∃ host port n, splitLastColon cs = some (host, port) ∧ readPort? port = some n := by
  unfold fault? at h
  split at h
  · cases h
  · cases hsplit : splitLastColon cs with
    | none => rw [hsplit] at h; cases h
    | some parts =>
      obtain ⟨host, port⟩ := parts
      rw [hsplit] at h
      dsimp only at h
      split_ifs at h with _ _ hport
      obtain ⟨n, hn⟩ := Option.ne_none_iff_exists'.mp (mt Option.isNone_iff_eq_none.mpr hport)
      exact ⟨host, port, n, rfl, hn⟩

/-- What is accepted is a host and a port. -/
theorem exists_endpoint_of_parse (h : parse s = .ok p) : ∃ e, p.endpoint? = some e := by
  simp only [parse] at h
  split at h
  · cases h
  · next hfault =>
    cases h
    obtain ⟨host, port, n, hsplit, hn⟩ := exists_port_of_fault? hfault
    refine ⟨⟨host, n⟩, ?_⟩
    unfold endpoint?
    rw [hsplit]
    show (readPort? port).map _ = _
    rw [hn]
    rfl

/-- **Two spellings of one endpoint** differ by a plus sign and zeros in front of the port, and by nothing else. -/
theorem endpoint?_eq_iff (hp : p.endpoint? = some e) (hq : q.endpoint? = some f) :
    p.endpoint? = q.endpoint? ↔ p.plain = q.plain := by
  have hplain {r : Peer} {g : Endpoint} {port : List Char} (haddr : r.addr.toList = g.host ++ ':' :: port)
      (hcolon : ':' ∉ port) : r.plain = ⟨String.ofList (g.host ++ ':' :: withoutZeros (withoutPlus port))⟩ := by
    unfold plain
    rw [splitLastColon_eq_some_iff.mpr ⟨haddr, hcolon⟩]
  have hdigits {ds : List Char} (hrun : IsRun ds) : ':' ∉ withoutZeros ds := fun hmem =>
    absurd (hrun.digits ':' (Numeral.mem_withoutZeros hmem)) (by decide)
  rw [hp, hq]
  obtain ⟨port, haddr, hcolon, hrun, hvalue, -⟩ := endpoint?_eq_some_iff.mp hp
  obtain ⟨port', haddr', hcolon', hrun', hvalue', -⟩ := endpoint?_eq_some_iff.mp hq
  rw [hplain haddr hcolon, hplain haddr' hcolon']
  constructor
  · intro heq
    cases heq
    rw [(Numeral.value_eq_iff hrun.digits hrun'.digits).mp (hvalue.trans hvalue'.symm)]
  · intro heq
    have htext := String.ofList_injective (congrArg Peer.addr heq)
    have hparts := Option.some.inj ((splitLastColon_eq_some_iff.mpr ⟨htext, hdigits hrun'⟩).symm.trans
      (splitLastColon_eq_some_iff.mpr ⟨rfl, hdigits hrun⟩))
    obtain ⟨hhost, hport⟩ := Prod.mk.inj hparts
    have hnumber : e.port = f.port := by
      rw [← hvalue, ← hvalue', (Numeral.value_eq_iff hrun.digits hrun'.digits).mpr hport.symm]
    cases e
    cases f
    cases hhost
    cases hnumber
    rfl

end Peer

/-- The load that a get starts is for the owner that the get has found. -/
theorem Group.owner_of_get {g : Group} {m : Membership} {key : String} {now : Instant} {n : Nat} {l : Load}
    (h : (g.get m key now).2 = .waiting n (some l)) : l.owner = m.ownerOf key := by
  obtain ⟨p, -, ⟨v, hanswer, -⟩ | ⟨hjoin, -⟩⟩ := g.get_cases m key now
  · rw [hanswer] at h
    cases h
  · rw [hjoin] at h
    rcases p.countMiss.join_cases key (m.ownerOf key) with ⟨c, k, hwait, -⟩ | ⟨c, k, hstart, -⟩
    · rw [hwait] at h
      cases h
    · rw [hstart] at h
      cases h
      rfl

namespace Membership

variable {m m₀ m' : Membership} {addr key : String} {addrs : List String} {config : RingConfig} {timeouts : Timeouts}
  {ps : List Peer} {p q : Peer} {e : Endpoint} {g g' : Group} {l : Load} {n : Nat} {now t : Instant}
  {expireAt : Option Instant}

/-! ## The peers of a node -/

theorem owner_cases (h : m.Consistent) (key : String) :
    m.ownerOf key = m.localPeer ∨ m.ownerOf key ∈ m.others := by
  by_cases hlocal : m.ownerOf key = m.localPeer
  · exact .inl hlocal
  · exact .inr (mem_others.mpr ⟨(h.owner key).2, hlocal⟩)

/-- A load fetches from another peer of the ring on which its get found the owner, whatever the ring is by then. -/
theorem mem_others_of_fetch (h : m.Consistent) (hget : (g.get m key now).2 = .waiting n (some l))
    (hlocal : m'.localPeer = m.localPeer) (hfetch : (g'.beginLoad m' l t).2 = .fetch p expireAt) :
    p ∈ m.others := by
  obtain ⟨-, -, ⟨e, -, -, hstep⟩ | ⟨-, -, hstep⟩ | ⟨b, -, -, hstep⟩ | ⟨hremote, hstep⟩⟩ := g'.beginLoad_cases m' l t
  · cases hstep.symm.trans hfetch
  · cases hstep.symm.trans hfetch
  · cases hstep.symm.trans hfetch
  · cases hstep.symm.trans hfetch
    rw [Group.owner_of_get hget] at hremote ⊢
    refine (owner_cases h key).resolve_left fun heq => ?_
    rw [isLocal, heq, hlocal] at hremote
    simp at hremote

/-- The node itself keeps its address, whatever lists it is given. -/
theorem localPeer_offers (m : Membership) (lists : List (List String)) :
    (lists.foldl offer m).localPeer = m.localPeer ∧ (lists.foldl offer m).ringConfig = m.ringConfig := by
  induction lists generalizing m with
  | nil => exact ⟨rfl, rfl⟩
  | cons addrs lists ih =>
    obtain ⟨hlocal, hconfig, -⟩ := m.offer_settings addrs
    rw [List.foldl_cons, ← hlocal, ← hconfig]
    exact ih (m.offer addrs)

/-- What is on the ring of a node that took a list over. -/
theorem setPeers_ok (hset : m.setPeers addrs = .ok m') (hpos : 0 < m.ringConfig.virtualReplicas) :
    m'.localPeer = m.localPeer ∧ m'.ringConfig = m.ringConfig ∧ m'.Consistent ∧
      ∃ ps, List.Forall₂ (fun a p => Peer.parse a = .ok p) addrs ps ∧ ∀ p, p ∈ m'.peers ↔ p ∈ m'.localPeer :: ps := by
  rcases m.setPeers_cases addrs with ⟨ps, hps, hok⟩ | ⟨_, _, _, _, -, -, -, herr⟩
  · cases hok.symm.trans hset
    have hbuilt : Built m.ringConfig.virtualReplicas
        { m with ring := Ring.build (m.withLocal ps) m.ringConfig.virtualReplicas } :=
      ⟨rfl, m.withLocal ps, m.mem_withLocal ps, rfl⟩
    refine ⟨rfl, rfl, hbuilt.consistent hpos, ps, hps, fun p => ?_⟩
    show p ∈ Ring.members (m.withLocal ps) ↔ _
    rw [Ring.mem_members, mem_withLocal_iff, List.mem_cons, or_comm]
  · cases herr.symm.trans hset

theorem exists_endpoint_of_accepted (h : List.Forall₂ (fun a p => Peer.parse a = .ok p) addrs ps) :
    ∀ p ∈ ps, ∃ e, p.endpoint? = some e := by
  induction h with
  | nil => exact nofun
  | cons ha _ ih => exact List.forall_mem_cons.mpr ⟨Peer.exists_endpoint_of_parse ha, ih⟩

/-! ## Told apart -/

section

-- the peers are those of a list and the node, and their plain spellings tell where they listen
variable (hpeers : ∀ p, p ∈ m.peers ↔ p ∈ m.localPeer :: ps)
  (hplain : ∀ p ∈ m.localPeer :: ps, ∀ q ∈ m.localPeer :: ps, p.endpoint? = q.endpoint? ↔ p.plain = q.plain)

include hpeers hplain

theorem others_elsewhere_iff :
    (∀ p ∈ m.others, p.endpoint? ≠ m.localPeer.endpoint?) ↔
      ∀ p ∈ ps, p.plain = m.localPeer.plain → p = m.localPeer := by
  constructor
  · intro helse p hp heq
    by_contra hother
    have hmem := List.mem_cons_of_mem m.localPeer hp
    exact helse p (mem_others.mpr ⟨(hpeers p).mpr hmem, hother⟩)
      ((hplain p hmem _ List.mem_cons_self).mpr heq)
  · intro htold p hp heq
    obtain ⟨hmem, hother⟩ := mem_others.mp hp
    replace hmem := (hpeers p).mp hmem
    have hlist := (List.mem_cons.mp hmem).resolve_left hother
    exact hother (htold p hlist ((hplain p hmem _ List.mem_cons_self).mp heq))

theorem nodup_endpoints_iff (hnodup : m.peers.Nodup) :
    (m.peers.map Peer.endpoint?).Nodup ↔
      ∀ p ∈ m.localPeer :: ps, ∀ q ∈ m.localPeer :: ps, p.plain = q.plain → p = q := by
  rw [List.nodup_map_iff_inj_on hnodup]
  constructor
  · intro hinj p hp q hq heq
    exact hinj p ((hpeers p).mpr hp) q ((hpeers q).mpr hq) ((hplain p hp q hq).mpr heq)
  · intro htold p hp q hq heq
    replace hp := (hpeers p).mp hp
    replace hq := (hpeers q).mp hq
    exact htold p hp q hq ((hplain p hp q hq).mp heq)

end

/-- **Peers are told apart by their addresses, and endpoints only as far as these tell them apart.**  Take any
node, any lists that it was given and one that it accepts.  Its peers are those of the list and itself, each has
an endpoint, the same as another if they are the same with their ports written plainly, and each has its points on
the ring; a node fetches from other peers than itself and tells other peers than itself of removals.  These listen
elsewhere exactly if no address of the list is another spelling of its own; and the peers listen at different
places exactly if the list and its own address have no two spellings of one.  So it is if all ports are written
plainly. -/
theorem endpoints_told_apart (h : create addr config timeouts = .ok m₀) (lists : List (List String))
    (hset : (lists.foldl offer m₀).setPeers addrs = .ok m) :
    ∃ ps, List.Forall₂ (fun a p => Peer.parse a = .ok p) addrs ps ∧ Peer.parse addr = .ok m.localPeer ∧
      (∀ p, p ∈ m.peers ↔ p ∈ m.localPeer :: ps) ∧
      (∀ p ∈ m.peers, (∃ e, p.endpoint? = some e) ∧
        m.ring.points.countP (fun a => a.peer = p) = config.virtualReplicas) ∧
      (∀ p ∈ m.peers, ∀ q ∈ m.peers, p.endpoint? = q.endpoint? ↔ p.plain = q.plain) ∧
      (∀ key, m.ownerOf key = m.localPeer ∨ m.ownerOf key ∈ m.others) ∧
      (∀ (g g' : Group) (m' : Membership) (key : String) (now t : Instant) (n : Nat) (l : Load) (p : Peer)
        (expireAt : Option Instant), (g.get m key now).2 = .waiting n (some l) → m'.localPeer = m.localPeer →
        (g'.beginLoad m' l t).2 = .fetch p expireAt → p ∈ m.others) ∧
      ((∀ p ∈ m.others, p.endpoint? ≠ m.localPeer.endpoint?) ↔
        ∀ p ∈ ps, p.plain = m.localPeer.plain → p = m.localPeer) ∧
      ((m.peers.map Peer.endpoint?).Nodup ↔
        ∀ p ∈ m.localPeer :: ps, ∀ q ∈ m.localPeer :: ps, p.plain = q.plain → p = q) ∧
      ((∀ p ∈ m.localPeer :: ps, p.plain = p) →
        (∀ p ∈ m.others, p.endpoint? ≠ m.localPeer.endpoint?) ∧ (m.peers.map Peer.endpoint?).Nodup) := by
  obtain ⟨hsame, hconfig⟩ := localPeer_offers m₀ lists
  obtain ⟨hpos, hstart⟩ := replicas_of_create h
  rw [hstart] at hconfig
  obtain ⟨hlocal, hreplicas, hm, ps, hps, hpeers⟩ := setPeers_ok hset (hconfig ▸ hpos)
  rw [hconfig] at hreplicas
  have hparse : Peer.parse addr = .ok m.localPeer := by
    obtain ⟨-, p, hp, rfl⟩ := create_eq_ok h
    rw [hlocal, hsame]
    exact hp
  have hendpoint : ∀ p ∈ m.localPeer :: ps, ∃ e, p.endpoint? = some e :=
    List.forall_mem_cons.mpr ⟨Peer.exists_endpoint_of_parse hparse, exists_endpoint_of_accepted hps⟩
  -- two peers of the ring listen at one place if their plain spellings are one
  have hplain : ∀ p ∈ m.localPeer :: ps, ∀ q ∈ m.localPeer :: ps, p.endpoint? = q.endpoint? ↔ p.plain = q.plain := by
    intro p hp q hq
    obtain ⟨e, he⟩ := hendpoint p hp
    obtain ⟨f, hf⟩ := hendpoint q hq
    exact Peer.endpoint?_eq_iff he hf
  have hothers := others_elsewhere_iff hpeers hplain
  have hnodup := nodup_endpoints_iff hpeers hplain hm.nodup
  refine ⟨ps, hps, hparse, hpeers, fun p hp => ⟨hendpoint p ((hpeers p).mp hp), ?_⟩,
    fun p hp q hq => hplain p ((hpeers p).mp hp) q ((hpeers q).mp hq), owner_cases hm,
    fun g g' m' key now t n l p expireAt => mem_others_of_fetch hm, hothers, hnodup, fun hall => ?_⟩
  · rw [hm.points_of p hp, hreplicas]
  · rw [hothers, hnodup]
    refine ⟨fun p hp heq => ?_, fun p hp q hq heq => ?_⟩
    · rw [← hall p (List.mem_cons_of_mem _ hp), heq, hall _ List.mem_cons_self]
    · rw [← hall p hp, heq, hall q hq]

theorem endpoints_told_apart_two :
    let m₀ : Membership := ⟨⟨"a:1"⟩, ⟨40⟩, {}, Ring.build [⟨"a:1"⟩] 40⟩
    let m : Membership := { m₀ with ring := Ring.build [⟨"b:1"⟩, ⟨"a:1"⟩] 40 }
    create "a:1" ⟨40⟩ {} = .ok m₀ ∧ m₀.setPeers [" b:1"] = .ok m ∧
      (∀ p ∈ m.others, p.endpoint? ≠ m.localPeer.endpoint?) ∧ (m.peers.map Peer.endpoint?).Nodup := by
  intro m₀ m
  have hown : Peer.parse "a:1" = .ok ⟨"a:1"⟩ := by cbv
  have hother : Peer.parse " b:1" = .ok ⟨"b:1"⟩ := by cbv
  have hm₀ : create "a:1" ⟨40⟩ {} = .ok m₀ := by
    unfold create
    rw [hown]
    rfl
  have hset : m₀.setPeers [" b:1"] = .ok m := by
    unfold setPeers
    rw [List.mapM_cons, hother]
    rfl
  obtain ⟨ps, hps, -, -, -, -, -, -, -, -, hplain⟩ := endpoints_told_apart hm₀ [] hset
  obtain rfl : ps = [⟨"b:1"⟩] := by
    cases hps with
    | cons hp hnone =>
      cases hnone
      cases hp.symm.trans hother
      rfl
  have hown' : Peer.plain ⟨"a:1"⟩ = ⟨"a:1"⟩ := by cbv
  have hother' : Peer.plain ⟨"b:1"⟩ = ⟨"b:1"⟩ := by cbv
  exact ⟨hm₀, hset, hplain (by simp [m, m₀, hown', hother'])⟩

/-- **A node that finds itself in a list in another spelling** has itself on its ring twice, takes one of the two
for the remote owner of a key and tells it of removals. -/
theorem own_address_twice :
    let own : Peer := ⟨"a:1"⟩
    let twin : Peer := ⟨"a:01"⟩
    let m₀ : Membership := ⟨own, ⟨40⟩, {}, Ring.build [own] 40⟩
    let m : Membership := { m₀ with ring := Ring.build [twin, own] 40 }
    create "a:1" ⟨40⟩ {} = .ok m₀ ∧ m₀.setPeers ["a:01"] = .ok m ∧
      own.endpoint? = some ⟨['a'], 1⟩ ∧ twin.endpoint? = some ⟨['a'], 1⟩ ∧
      own ∈ m.peers ∧ twin ∈ m.others ∧ m.ownerOf "1" = twin ∧ m.isLocal (m.ownerOf "1") = false := by
  have hown : Peer.parse "a:1" = .ok ⟨"a:1"⟩ := by cbv
  have htwin : Peer.parse "a:01" = .ok ⟨"a:01"⟩ := by cbv
  have hplace : Peer.endpoint? ⟨"a:1"⟩ = some ⟨['a'], 1⟩ := by cbv
  have hsame : Peer.endpoint? ⟨"a:01"⟩ = some ⟨['a'], 1⟩ := by cbv
  have hlookup : (Ring.build [⟨"a:01"⟩, ⟨"a:1"⟩] 40).lookup "1" = some ⟨"a:01"⟩ := by cbv
  have hne : (⟨"a:01"⟩ : Peer) ≠ ⟨"a:1"⟩ := by decide
  intro own twin m₀ m
  have hm₀ : create "a:1" ⟨40⟩ {} = .ok m₀ := by
    unfold create
    rw [hown]
    rfl
  have hset : m₀.setPeers ["a:01"] = .ok m := by
    unfold setPeers
    rw [List.mapM_cons, htwin]
    rfl
  have hpeers : ∀ p, p ∈ m.peers ↔ p ∈ [twin, own] := fun p => Ring.mem_members [twin, own]
  have howner : m.ownerOf "1" = twin := by
    rw [ownerOf, hlookup]
    rfl
  have hother : twin ∈ m.others := by
    rw [mem_others, hpeers]
    exact ⟨List.mem_cons_self, hne⟩
  refine ⟨hm₀, hset, hplace, hsame, ?_, hother, howner, ?_⟩
  · rw [hpeers]
    exact List.mem_cons_of_mem twin List.mem_cons_self
  · rw [howner]
    exact beq_eq_false_iff_ne.mpr hne

end Membership

end PeerCache
