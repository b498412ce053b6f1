import Mathlib
import PeerCache.Proofs.Ring.Endpoint
import PeerCache.Proofs.Wire.Errors

/-!
# How addresses are written

An address is a host, a colon and a port number, and the last colon is the one that counts (`Peer.Spells`).  A text
makes a peer exactly if it is an address between blanks, and the peer keeps what stands between the blanks.  So the
address of a peer makes the same peer again (`Peer.ReadsBack`).  All peers of a node are made of texts, those of its
ring, those that it fetches from and tells of removals, and the owners in its refusals; each of them can be read by
another node.

Main statement: `addresses_read_back`.
-/

namespace PeerCache

open Numeral (IsRun lowFirst)

/-! ## Between the blanks -/

namespace Text

variable {cs : List Char} {s : String}

theorem dropBlank_eq_self (h : ∀ c ∈ cs.head?, isBlank c = false) : dropBlank cs = cs := by
  cases cs with
  | nil => rfl
  | cons c cs => exact List.dropWhile_cons_of_neg (by rw [h c rfl]; exact Bool.false_ne_true)

/-- What is trimmed off is blank. -/
theorem exists_trimChars (cs : List Char) : ∃ front back, cs = front ++ trimChars cs ++ back ∧
    ∀ c ∈ front ++ back, isBlank c = true := by
  have hblank {l : List Char} {c : Char} (hc : c ∈ l.takeWhile isBlank) : isBlank c = true :=
    List.mem_takeWhile_imp hc
  refine ⟨cs.takeWhile isBlank, ((dropBlank cs).reverse.takeWhile isBlank).reverse, ?_, fun c hc => ?_⟩
  · have hback := List.takeWhile_append_dropWhile (p := isBlank) (l := (dropBlank cs).reverse)
    have hrest := congrArg List.reverse hback
    rw [List.reverse_append, List.reverse_reverse] at hrest
    rw [List.append_assoc]
    change cs = cs.takeWhile isBlank ++ ((dropBlank (dropBlank cs).reverse).reverse ++ _)
    rw [dropBlank, hrest]
    exact List.takeWhile_append_dropWhile.symm
  · rcases List.mem_append.mp hc with hc | hc
    · exact hblank hc
    · exact hblank (List.mem_reverse.mp hc)

theorem trim_trim (s : String) : trim (trim s) = trim s := by
  obtain ⟨hhead, hlast⟩ := trimChars_ends s.toList
  unfold trim
  rw [String.toList_ofList]
  generalize trimChars s.toList = t at hhead hlast
  rw [trimChars, dropBlank_eq_self hhead, dropBlank_eq_self (by rwa [List.head?_reverse]), List.reverse_reverse]

end Text

namespace Peer

variable {cs host port : List Char} {s : String} {p : Peer} {n : Nat}

/-! ## The grammar -/

/-- How an address is written: a host, a colon and a port number. -/
structure Spells (cs host port : List Char) (n : Nat) : Prop where
  parts : cs = host ++ ':' :: port
  /-- The colon is the last one. -/
  last : ':' ∉ port
  slash : '/' ∉ cs
  host_ne : host ≠ [] ∧ host ≠ ['[', ']']
  bracketed : ':' ∈ host → host.head? = some '[' ∧ host.getLast? = some ']'
  number : ∃ digits, (port = digits ∨ port = '+' :: digits) ∧ IsRun digits ∧ n = Nat.ofDigits 10 (lowFirst digits)
  range : 1 ≤ n ∧ n ≤ 65535

theorem isBracketed_iff : isBracketed host = true ↔ host.head? = some '[' ∧ host.getLast? = some ']' := by
  unfold isBracketed
  rw [Bool.and_eq_true, beq_iff_eq, beq_iff_eq]

/-- The plus sign of a port is no digit, so what follows it can be told. -/
theorem exists_digits_iff : (∃ digits, (port = digits ∨ port = '+' :: digits) ∧ IsRun digits ∧
    n = Nat.ofDigits 10 (lowFirst digits)) ↔ IsRun (withoutPlus port) ∧ Numeral.value (withoutPlus port) = n := by
  constructor
  · rintro ⟨digits, hport, hrun, rfl⟩
    have hdigits : withoutPlus port = digits := by
      rcases hport with rfl | rfl
      · refine withoutPlus.eq_2 _ fun cs heq => ?_
        exact absurd (hrun.digits '+' (heq ▸ List.mem_cons_self)) (by decide)
      · rfl
    rw [hdigits]
    exact ⟨hrun, Numeral.value_eq_ofDigits digits⟩
  · rintro ⟨hrun, rfl⟩
    refine ⟨withoutPlus port, ?_, hrun, Numeral.value_eq_ofDigits _⟩
    by_cases hplus : ∃ digits, port = '+' :: digits
    · obtain ⟨digits, rfl⟩ := hplus
      exact .inr rfl
    · exact .inl (withoutPlus.eq_2 _ fun digits heq => hplus ⟨digits, heq⟩).symm

theorem readPort?_isSome_iff : (readPort? port).isNone = false ↔
    ∃ n, (∃ digits, (port = digits ∨ port = '+' :: digits) ∧ IsRun digits ∧
      n = Nat.ofDigits 10 (lowFirst digits)) ∧ 1 ≤ n ∧ n ≤ 65535 := by
  rw [Option.isNone_eq_false_iff, Option.isSome_iff_exists]
  simp only [readPort?_eq_some_iff, exists_digits_iff, and_assoc]

/-- **An address breaks no rule exactly if it is written as one.** -/
theorem fault?_eq_none_iff : fault? cs = none ↔ ∃ host port n, Spells cs host port n := by
  unfold fault?
  constructor
  · intro h
    split at h
    · cases h
    · next hslash =>
      cases hsplit : splitLastColon cs with
      | none => rw [hsplit] at h; cases h
      | some parts =>
        obtain ⟨host, port⟩ := parts
        rw [hsplit] at h
        dsimp only at h
        split_ifs at h with hmissing hplain hport
        obtain ⟨hcs, hlast⟩ := splitLastColon_eq_some_iff.mp hsplit
        rw [Bool.or_eq_true, List.isEmpty_iff, beq_iff_eq, not_or] at hmissing
        rw [Bool.and_eq_true, List.contains_iff_mem, Bool.not_eq_true', not_and, Bool.not_eq_false] at hplain
        obtain ⟨n, hnumber, hrange⟩ := readPort?_isSome_iff.mp (Bool.eq_false_iff.mpr hport)
        exact ⟨host, port, n, hcs, hlast, fun hmem => hslash (List.contains_iff_mem.mpr hmem), hmissing,
          fun hcolon => isBracketed_iff.mp (hplain hcolon), hnumber, hrange⟩
  · rintro ⟨host, port, n, h⟩
    have hslash : ¬cs.contains '/' = true := fun hmem => h.slash (List.contains_iff_mem.mp hmem)
    have hmissing : ¬(host.isEmpty || host == ['[', ']']) = true := by
      rw [Bool.or_eq_true, List.isEmpty_iff, beq_iff_eq, not_or]
      exact h.host_ne
    have hplain : ¬(host.contains ':' && !isBracketed host) = true := by
      rw [Bool.and_eq_true, List.contains_iff_mem, Bool.not_eq_true', not_and, Bool.not_eq_false]
      exact fun hcolon => isBracketed_iff.mpr (h.bracketed hcolon)
    have hport : ¬(readPort? port).isNone = true :=
      Bool.eq_false_iff.mp (readPort?_isSome_iff.mpr ⟨n, h.number, h.range⟩)
    rw [if_neg hslash, splitLastColon_eq_some_iff.mpr ⟨h.parts, h.last⟩]
    dsimp only
    rw [if_neg hmissing, if_neg hplain, if_neg hport]

/-! ## Reading back -/

/-- The peer's address makes this peer. -/
def ReadsBack (p : Peer) : Prop := parse p.addr = .ok p

theorem parse_eq_ok_iff : parse s = .ok p ↔
    p = ⟨Text.trim s⟩ ∧ ∃ host port n, Spells (Text.trim s).toList host port n := by
  rw [← fault?_eq_none_iff]
  unfold parse
  dsimp only
  cases fault? (Text.trim s).toList with
  | some reason => exact ⟨nofun, nofun⟩
  | none => simp only [Except.ok.injEq, and_true, eq_comm]

/-- What is accepted reads back: there is nothing left to trim. -/
theorem readsBack_of_parse (h : parse s = .ok p) : p.ReadsBack := by
  obtain ⟨rfl, hspells⟩ := parse_eq_ok_iff.mp h
  refine parse_eq_ok_iff.mpr ?_
  rw [Text.trim_trim]
  exact ⟨rfl, hspells⟩

end Peer

/-- The one error that a request of another peer is answered with at once. -/
theorem Group.error_of_servePeer {g : Group} {m : Membership} {key : String} {now : Instant} {e : Error}
    (h : (g.servePeer m key now).2 = .answer (.error e)) : e = .notOwned g.name key (m.ownerOf key).addr := by
  rw [servePeer_eq] at h
  cases haccept : (g.accept m key).2 with
  | some refused =>
    rw [haccept] at h
    cases h
    exact accept_eq_some haccept
  | none =>
    rw [haccept] at h
    obtain ⟨p, -, ⟨v, hfound, -⟩ | ⟨hjoin, -⟩⟩ := (g.accept m key).1.get_cases m key now
    · cases (congrArg Prod.snd hfound).symm.trans h
    · replace hjoin := (congrArg Prod.snd hjoin).symm.trans h
      cases hjoin

namespace Membership

open Peer (ReadsBack Spells)

variable {m m₀ m' : Membership} {addr key : String} {config : RingConfig} {timeouts : Timeouts} {g g' : Group}
  {l : Load} {n : Nat} {now t : Instant} {p : Peer} {expireAt : Option Instant}

/-! ## The peers of a node -/

theorem readsBack_of_accepted {addrs : List String} {ps : List Peer}
    (h : List.Forall₂ (fun a p => Peer.parse a = .ok p) addrs ps) : ∀ p ∈ ps, p.ReadsBack := by
  induction h with
  | nil => exact nofun
  | cons ha _ ih => exact List.forall_mem_cons.mpr ⟨Peer.readsBack_of_parse ha, ih⟩

theorem readsBack_offer (hlocal : m.localPeer.ReadsBack) (hpeers : ∀ p ∈ m.peers, p.ReadsBack)
    (addrs : List String) : ∀ p ∈ (m.offer addrs).peers, p.ReadsBack := by
  unfold offer
  rcases m.setPeers_cases addrs with ⟨ps, hps, hset⟩ | ⟨_, _, _, _, -, -, -, hset⟩
  · rw [hset]
    intro p hp
    rcases m.mem_withLocal_iff.mp ((Ring.mem_members _).mp hp) with hp | rfl
    · exact readsBack_of_accepted hps p hp
    · exact hlocal
  · rw [hset]
    exact hpeers

/-- Whatever lists a node is given, its peers can be read by others. -/
theorem readsBack_peers (h : create addr config timeouts = .ok m₀) (lists : List (List String)) :
    (lists.foldl offer m₀).Consistent ∧ ∀ p ∈ (lists.foldl offer m₀).peers, p.ReadsBack := by
  have hm : (lists.foldl offer m₀).Built config.virtualReplicas ∧ (lists.foldl offer m₀).localPeer.ReadsBack ∧
      ∀ p ∈ (lists.foldl offer m₀).peers, p.ReadsBack := by
    refine List.foldlRecOn lists offer (motive := fun m => m.Built config.virtualReplicas ∧
      m.localPeer.ReadsBack ∧ ∀ p ∈ m.peers, p.ReadsBack) ?_ ?_
    · obtain ⟨-, p, hp, rfl⟩ := create_eq_ok h
      have hback := Peer.readsBack_of_parse hp
      refine ⟨built_create h, hback, fun q hq => ?_⟩
      rw [List.mem_singleton.mp ((Ring.mem_members [p]).mp hq)]
      exact hback
    · rintro m ⟨hbuilt, hlocal, hpeers⟩ addrs -
      refine ⟨hbuilt.offer addrs, ?_, readsBack_offer hlocal hpeers addrs⟩
      rw [(m.offer_settings addrs).1]
      exact hlocal
  exact ⟨hm.1.consistent (replicas_of_create h).1, hm.2.2⟩

/-- A load fetches from the owner that its get has found, whatever the ring is by then. -/
theorem eq_owner_of_fetch (hget : (g.get m key now).2 = .waiting n (some l))
    (hfetch : (g'.beginLoad m' l t).2 = .fetch p expireAt) : p = m.ownerOf key := by
  rw [← Group.owner_of_get hget]
  obtain ⟨-, -, ⟨e, -, -, hstep⟩ | ⟨-, -, hstep⟩ | ⟨b, -, -, hstep⟩ | ⟨-, hstep⟩⟩ := g'.beginLoad_cases m' l t
  all_goals cases hstep.symm.trans hfetch
  rfl

/-- The owner in a refusal is read by the node that has asked as the peer it is, if its text comes through. -/
theorem readsBack_of_header (hback : p.ReadsBack) {group text : String}
    (h : ((Server.ofError (.notOwned group key p.addr)).header? "x-groupcache-owner").bind Http.Header.text? =
      some text) : Peer.parse text = .ok p := by
  have htrim : Text.trim p.addr = p.addr := (Peer.addr_of_parse hback).symm
  rw [← htrim, Server.owner_crosses, htrim] at h
  split at h
  · cases h
    exact hback
  · cases h

/-- **Addresses are exactly host and port, and read back.**  A text makes a peer exactly if what stands between its
blanks is a host, a colon and a port number, and this is the peer's address then, which makes the same peer again;
otherwise the error has the text between the blanks.  So for a node, whatever lists of addresses it was given: the
peers of its ring, the owners of keys, the peers that are told of removals and those that loads fetch from, even on
a later ring, all read back, and so does the owner in a refusal, on the node that is refused. -/
theorem addresses_read_back :
    (∀ s : String,
      let t := Text.trim s
      (∃ front back, s.toList = front ++ t.toList ++ back ∧ (∀ c ∈ front ++ back, Text.isBlank c = true) ∧
        (∀ c ∈ t.toList.head?, Text.isBlank c = false) ∧ ∀ c ∈ t.toList.getLast?, Text.isBlank c = false) ∧
      ((∃ p, Peer.parse s = .ok p) ↔ ∃ host port n, Spells t.toList host port n) ∧
      (∀ p, Peer.parse s = .ok p → p.addr = t ∧ Peer.parse p.addr = .ok p) ∧
      ((¬∃ host port n, Spells t.toList host port n) → ∃ reason, Peer.parse s = .error (.invalidPeer t reason))) ∧
    ∀ (addr : String) (config : RingConfig) (timeouts : Timeouts) (m₀ : Membership) (lists : List (List String)),
      create addr config timeouts = .ok m₀ →
      let m := lists.foldl offer m₀
      (∀ p ∈ m.peers, Peer.parse p.addr = .ok p) ∧ (∀ p ∈ m.others, Peer.parse p.addr = .ok p) ∧
      (∀ key, Peer.parse (m.ownerOf key).addr = .ok (m.ownerOf key)) ∧
      (∀ (g g' : Group) (m' : Membership) (key : String) (now t : Instant) (n : Nat) (l : Load) (p : Peer)
        (expireAt : Option Instant), (g.get m key now).2 = .waiting n (some l) →
        (g'.beginLoad m' l t).2 = .fetch p expireAt → Peer.parse p.addr = .ok p) ∧
      ∀ (g : Group) (key : String) (now : Instant) (e : Error), (g.servePeer m key now).2 = .answer (.error e) →
        e = .notOwned g.name key (m.ownerOf key).addr ∧
        ∀ text, ((Server.ofError e).header? "x-groupcache-owner").bind Http.Header.text? = some text →
          Peer.parse text = .ok (m.ownerOf key) := by
  refine ⟨fun s => ⟨?_, ?_, fun p hp => ⟨Peer.addr_of_parse hp, Peer.readsBack_of_parse hp⟩, fun hnot => ?_⟩,
    fun addr config timeouts m₀ lists hcreate => ?_⟩
  · obtain ⟨front, back, hsplit, hblank⟩ := Text.exists_trimChars s.toList
    rw [Text.trim, String.toList_ofList]
    exact ⟨front, back, hsplit, hblank, Text.trimChars_ends s.toList⟩
  · simp only [Peer.parse_eq_ok_iff, exists_and_right, exists_eq, true_and]
  · cases hparse : Peer.parse s with
    | ok p => exact absurd (Peer.parse_eq_ok_iff.mp hparse).2 hnot
    | error e =>
      obtain ⟨reason, rfl⟩ := error_of_parse hparse
      exact ⟨reason, rfl⟩
  · obtain ⟨hm, hpeers⟩ := readsBack_peers hcreate lists
    have howner (key : String) : ReadsBack ((lists.foldl offer m₀).ownerOf key) := hpeers _ (hm.owner key).2
    refine ⟨hpeers, fun p hp => hpeers p (mem_others.mp hp).1, howner, ?_, fun g key now e hserve => ?_⟩
    · intro g g' m' key now t n l p expireAt hget hfetch
      rw [eq_owner_of_fetch hget hfetch]
      exact howner key
    · obtain rfl := Group.error_of_servePeer hserve
      exact ⟨rfl, fun text => readsBack_of_header (howner key)⟩

example : Peer.parse " [::1]:+080\n" = .ok ⟨"[::1]:+080"⟩ := by cbv

end Membership

end PeerCache
