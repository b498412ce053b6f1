import Mathlib
import PeerCache.Node.Server
import PeerCache.Proofs.Wire.Percent

/-!
# What a request names

A request of one node to another has the path of a key.  On its way this path is put in normal form,
which takes out the segments `.` and `..`; percent coding leaves dots as they are, so a group or a key
that consists of one or two of them is lost (`Http.Url.resolve_three`,
`Http.Url.resolve_three_of_dots`).  All other groups and keys arrive (`Path.split?_ofKey`), whatever
their characters, and the node does with the key what it is asked to (`Server.handle_peer`).

    /_groupcache/g/k        g and k
    /_groupcache/g/.        g and the empty key
    all others with dots    no key (Server.Keyless)

Main statement: `PeerRequest.names_key`.  A peer with a proper address can be asked for any key
(`PeerRequest.exists_url`), and a server reads the path as it is sent (`PeerRequest.read_path`).
-/

namespace PeerCache

/-! ## Segments -/

namespace Http.Url

/-- A segment that stands for a place in the path, and is taken out of it. -/
def IsDots (s : String) : Prop := s = "." ∨ s = ".."

instance (s : String) : Decidable (IsDots s) := inferInstanceAs (Decidable (_ ∨ _))

variable {s : String} {segs : List String}

theorem segments_intercalate (h : ∀ s ∈ segs, '/' ∉ s.toList) (hne : segs ≠ []) :
    segments ("/".intercalate segs) = segs := by
  have hlists : ∀ cs ∈ segs.map String.toList, '/' ∉ cs := by
    intro cs hcs
    obtain ⟨s, hs, rfl⟩ := List.mem_map.mp hcs
    exact h s hs
  rw [segments, String.toList_intercalate]
  rw [show "/".toList = ['/'] from rfl, List.splitOn_intercalate '/' hlists (by simpa using hne), List.map_map]
  simp

theorem follow_cons (h : ¬ IsDots s) (done rest : List String) :
    follow done (s :: rest) = follow (s :: done) rest := by
  unfold IsDots at h
  push Not at h
  rw [follow]
  · exact h.2
  · exact h.1

theorem follow_last (done : List String) (s : String) :
    follow done [s] = if s = "." then "" :: done else if s = ".." then "" :: done.drop 1 else s :: done := by
  by_cases hdot : s = "."
  · subst hdot
    rfl
  by_cases hdots : s = ".."
  · subst hdots
    rfl
  rw [if_neg hdot, if_neg hdots, follow_cons (not_or.mpr ⟨hdot, hdots⟩), follow]

variable {a b : String}

/-- Three segments stay three as long as only the last one is a dot. -/
theorem resolve_three (hs : ¬ IsDots s) (ha : ¬ IsDots a) (hb : b ≠ "..") :
    resolve [s, a, b] = [s, a, if b = "." then "" else b] := by
  rw [resolve, follow_cons hs, follow_cons ha, follow_last]
  by_cases hdot : b = "."
  · rw [if_pos hdot, if_pos hdot]
    rfl
  · rw [if_neg hdot, if_neg hb, if_neg hdot]
    rfl

/-- Otherwise the second one is lost, and perhaps the first one. -/
theorem resolve_three_of_dots (hs : ¬ IsDots s) (h : IsDots a ∨ b = "..") :
    ∃ x, (x = "" ∨ x = b) ∧ (resolve [s, a, b] = [x] ∨ resolve [s, a, b] = [s, x]) := by
  have hlast (done : List String) : ∃ x, (x = "" ∨ x = b) ∧ (follow done [b] = x :: done ∨
      follow done [b] = x :: done.drop 1) := by
    rw [follow_last]
    split
    · exact ⟨"", .inl rfl, .inl rfl⟩
    · split
      · exact ⟨"", .inl rfl, .inr rfl⟩
      · exact ⟨b, .inr rfl, .inl rfl⟩
  by_cases ha : IsDots a
  · rcases ha with rfl | rfl
    · obtain ⟨x, hx, hfollow⟩ := hlast [s]
      refine ⟨x, hx, ?_⟩
      rw [resolve, follow_cons hs, follow, if_neg (by simp)]
      rcases hfollow with he | he
      · exact .inr (by rw [he]; rfl)
      · exact .inl (by rw [he]; rfl)
    · obtain ⟨x, hx, hfollow⟩ := hlast []
      refine ⟨x, hx, .inl ?_⟩
      rw [resolve, follow_cons hs, follow, if_neg (by simp)]
      rcases hfollow with he | he
      · exact (by rw [List.drop_one, List.tail_cons, he]; rfl)
      · exact (by rw [List.drop_one, List.tail_cons, he]; rfl)
  · obtain rfl := h.resolve_left ha
    refine ⟨"", .inl rfl, .inr ?_⟩
    rw [resolve, follow_cons hs, follow_cons ha, follow_last]
    rfl

end Http.Url

namespace Path

theorem afterStart?_eq_some {start cs rest : List Char} :
    afterStart? start cs = some rest ↔ cs = start ++ rest := by
  induction start generalizing cs with
  | nil => rw [afterStart?, Option.some.injEq, List.nil_append]
  | cons a start ih =>
    cases cs with
    | nil => simp [afterStart?]
    | cons c cs =>
      rw [afterStart?]
      split
      · next h => rw [ih, h, List.cons_append, List.cons.injEq, and_iff_right rfl]
      · next h => simp [Ne.symm h]

theorem span_slash {a b : List Char} (h : '/' ∉ a) :
    (a ++ '/' :: b).span (· ≠ '/') = (a, '/' :: b) := by
  have hall : ∀ c ∈ a, decide (c ≠ '/') = true := fun c hc => decide_eq_true fun hslash => h (hslash ▸ hc)
  rw [List.span_eq_takeWhile_dropWhile, List.takeWhile_append_of_pos hall, List.dropWhile_append_of_pos hall]
  simp

theorem of_span_slash {cs a b : List Char} {c : Char} (h : cs.span (· ≠ '/') = (a, c :: b)) :
    cs = a ++ '/' :: b ∧ '/' ∉ a := by
  rw [List.span_eq_takeWhile_dropWhile, Prod.mk.injEq] at h
  obtain ⟨rfl, hrest⟩ := h
  have hslash : c = '/' := by
    have hhead := List.head?_dropWhile_not (fun c => decide (c ≠ '/')) cs
    rw [hrest] at hhead
    simpa using hhead
  subst hslash
  refine ⟨by rw [← hrest, List.takeWhile_append_dropWhile], fun hmem => ?_⟩
  have hnot := List.mem_takeWhile_imp hmem
  simp at hnot

/-- A path is read as two segments, both in percent coding. -/
theorem split?_eq_some {path start group key : String} :
    split? path start = some (group, key) ↔
      ∃ a b : String, path = start ++ a ++ "/" ++ b ∧ '/' ∉ a.toList ∧ '/' ∉ b.toList ∧
        Percent.decodeText? a = some group ∧ Percent.decodeText? b = some key := by
  constructor
  · intro h
    obtain ⟨rest, hrest, h⟩ := Option.bind_eq_some_iff.mp h
    split at h
    · next a c b hspan =>
      obtain ⟨rfl, ha⟩ := of_span_slash hspan
      split at h
      · cases h
      · next hb =>
        obtain ⟨g, hg, h⟩ := Option.bind_eq_some_iff.mp h
        obtain ⟨k, hk, h⟩ := Option.bind_eq_some_iff.mp h
        cases h
        refine ⟨String.ofList a, String.ofList b, ?_, ?_, ?_, hg, hk⟩
        · rw [← String.toList_inj, afterStart?_eq_some.mp hrest]
          simp
        · rwa [String.toList_ofList]
        · rwa [String.toList_ofList, ← List.contains_iff_mem]
    · cases h
  · rintro ⟨a, b, rfl, ha, hb, hg, hk⟩
    have hrest : afterStart? start.toList (start ++ a ++ "/" ++ b).toList = some (a.toList ++ '/' :: b.toList) :=
      afterStart?_eq_some.mpr (by simp)
    rw [split?, hrest, Option.bind_eq_bind, Option.bind_some, span_slash ha]
    simp only [List.contains_iff_mem, hb, ↓reduceIte, String.ofList_toList, hg, hk]
    rfl

/-- **A path is read as the group and the key that it was made of.** -/
theorem split?_ofKey (start group key : String) : split? (ofKey start group key) start = some (group, key) :=
  split?_eq_some.mpr ⟨Percent.encodeText group, Percent.encodeText key, rfl,
    Percent.slash_notMem_encodeText group, Percent.slash_notMem_encodeText key,
    Percent.decodeText?_encodeText group, Percent.decodeText?_encodeText key⟩

theorem peer_eq_intercalate (group key : String) : peer group key =
    "/".intercalate ["", "_groupcache", Percent.encodeText group, Percent.encodeText key] := by
  rw [← String.toList_inj, String.toList_intercalate]
  simp [peer, ofKey, peerPrefix, List.intercalate]

theorem startsWith_peer (group key : String) : (peer group key).startsWith peerPrefix = true :=
  String.startsWith_string_iff.mpr
    ⟨(Percent.encodeText group ++ "/" ++ Percent.encodeText key).toList, by simp [peer, ofKey]⟩

/-- The path of a key in normal form. -/
theorem normalPath_peer (group key : String) : Http.Url.normalPath (peer group key) =
    "/" ++ "/".intercalate (Http.Url.resolve
      ["_groupcache", Percent.encodeText group, Percent.encodeText key]) := by
  have hsegments : ∀ s ∈ ["", "_groupcache", Percent.encodeText group, Percent.encodeText key],
      '/' ∉ s.toList := by
    simp only [List.forall_mem_cons]
    exact ⟨by decide, by decide, Percent.slash_notMem_encodeText group,
      Percent.slash_notMem_encodeText key, nofun⟩
  rw [Http.Url.normalPath, peer_eq_intercalate, Http.Url.segments_intercalate hsegments (List.cons_ne_nil _ _),
    List.drop_one, List.tail_cons]

theorem encodeText_dot {s : String} : Percent.encodeText s = "." ↔ s = "." :=
  ⟨fun h => Percent.encodeText_injective (h.trans (by decide)), fun h => by rw [h]; decide⟩

theorem encodeText_dotDot {s : String} : Percent.encodeText s = ".." ↔ s = ".." :=
  ⟨fun h => Percent.encodeText_injective (h.trans (by decide)), fun h => by rw [h]; decide⟩

end Path

namespace Http.Target

/-- A character that stands in a path as it is, and does not end it. -/
def isPlain (c : Char) : Bool := isPathChar c && (c ≠ '?' && c ≠ '#')

/-- A target that is a path of plain characters is read as it is. -/
theorem read_eq {path : String} {cs : List Char} (hpath : path.toList = '/' :: cs)
    (hplain : path.toList.all isPlain = true) (hsize : path.utf8ByteSize ≤ maxSize) : read path = .ok path := by
  rw [List.all_eq_true] at hplain
  have hkeep : ∀ c ∈ path.toList, (c ≠ '?' && c ≠ '#') = true := fun c hc =>
    (Bool.and_eq_true_iff.mp (hplain c hc)).2
  have hchars : path.toList.all isPathChar = true := List.all_eq_true.mpr fun c hc =>
    (Bool.and_eq_true_iff.mp (hplain c hc)).1
  have hread : pathOf path.toList = .ok path.toList := by
    unfold pathOf
    rw [List.span_eq_takeWhile_dropWhile, List.takeWhile_eq_self_iff.mpr hkeep, List.dropWhile_eq_nil_iff.mpr hkeep]
    simp [hchars]
  rw [read, if_neg (Nat.not_lt.mpr hsize)]
  rw [hpath] at hread ⊢
  simp only [hread, Except.map]
  rw [← hpath, String.ofList_toList]

theorem isPlain_charOfByte : ∀ b : UInt8, b = 37 ∨ Percent.isUnreserved b = true →
    isPlain (Char.ofNat b.toNat) = true :=
  Text.forall_byte (by decide +kernel)

theorem isPlain_encodeText (s : String) : (Percent.encodeText s).toList.all isPlain = true := by
  refine List.all_eq_true.mpr fun c hc => ?_
  obtain ⟨b, rfl, hb⟩ := Percent.mem_encodeText hc
  exact isPlain_charOfByte b hb

end Http.Target

namespace Server

variable {n : Node} {r : Http.Request} {path : String}

/-! ## Dispatch -/

/-- What a node does for another one with a key. -/
def perform (n : Node) (verb : PeerVerb) (group key : String) (now : Instant) : Node × Reply :=
  match verb with
  | .fetch =>
    let (n, b) := n.servePeer group key now
    (n, ofBegun group b)
  | .remove =>
    match n.withGroup group (·.removeLocal key) with
    | (n, .ok _) => (n, .respond .noContent)
    | (n, .error e) => (n, .respond (ofError e))

theorem fixedRoute?_of_startsWith (h : path.startsWith Path.peerPrefix = true) (n : Node) :
    fixedRoute? n path = none := by
  unfold fixedRoute?
  split
  case h_6 => rfl
  all_goals exact absurd h (by decide +kernel)

theorem route_of_startsWith (h : path.startsWith Path.peerPrefix = true) (n : Node) (r : Http.Request)
    (now : Instant) : route n r path now = peerRoute n r.method path now := by
  unfold route
  rw [fixedRoute?_of_startsWith h, ite_self, if_pos h]

theorem peerRoute_peer (n : Node) (verb : PeerVerb) (group key : String) (now : Instant) :
    peerRoute n verb.method (Path.peer group key) now = perform n verb group key now := by
  have hsplit : Path.split? (Path.peer group key) Path.peerPrefix = some (group, key) := Path.split?_ofKey _ _ _
  unfold peerRoute perform Node.servePeer Node.begin Node.withGroup
  rw [hsplit]
  cases verb with
  | fetch =>
    dsimp only
    cases n.registry.get group with
    | error e => rfl
    | ok g => exact if_pos rfl
  | remove =>
    dsimp only
    cases n.registry.get group with
    | error e => rfl
    | ok g => exact (if_neg (by decide)).trans (if_pos rfl)

/-- A path without a key: one segment, below the fixed beginning of the peer protocol or not. -/
def Keyless (path : String) : Prop :=
  ∃ s : String, path = "/" ++ Percent.encodeText s ∨ path = "/_groupcache/" ++ Percent.encodeText s

theorem Keyless.split?_eq_none (h : Keyless path) : Path.split? path Path.peerPrefix = none := by
  obtain ⟨s, hpath⟩ := h
  cases hsplit : Path.split? path Path.peerPrefix with
  | none => rfl
  | some found =>
    obtain ⟨a, b, heq, -⟩ := Path.split?_eq_some.mp hsplit
    refine absurd ?_ (Percent.slash_notMem_encodeText s)
    rcases hpath with rfl | rfl
    all_goals
      rw [← String.toList_inj] at heq
      simp [Path.peerPrefix] at heq
      simp [heq]

theorem Keyless.not_client (h : Keyless path) : path.startsWith Path.clientPrefix = false := by
  obtain ⟨s, hpath⟩ := h
  rw [← Bool.not_eq_true, String.startsWith_string_iff]
  rintro ⟨rest, heq⟩
  rcases hpath with rfl | rfl
  · simp [Path.clientPrefix] at heq
    have hslash := Percent.slash_notMem_encodeText s
    simp [← heq] at hslash
  · simp [Path.clientPrefix] at heq

/-- Without a key a request touches nothing. -/
theorem route_keyless (h : Keyless path) (n : Node) (r : Http.Request) (now : Instant) :
    ∃ response, route n r path now = (n, .respond response) := by
  unfold route
  split
  · exact ⟨_, rfl⟩
  · split
    · unfold peerRoute
      rw [h.split?_eq_none]
      exact ⟨_, rfl⟩
    · rw [h.not_client, if_neg Bool.false_ne_true]
      exact ⟨_, rfl⟩

theorem handle_keyless (hpath : pathOf r = .ok path) (h : Keyless path) (n : Node) (now : Instant) :
    ∃ response, handle n r now = (n, .respond response) := by
  obtain ⟨response, hroute⟩ := route_keyless h n r now
  unfold handle
  rw [hpath]
  dsimp only
  rw [hroute]
  exact ⟨_, rfl⟩

/-- A request with the path of a key is about this key. -/
theorem handle_peer {verb : PeerVerb} {group key : String} (hpath : pathOf r = .ok (Path.peer group key))
    (hmethod : r.method = verb.method) (n : Node) (now : Instant) :
    handle n r now = perform n verb group key now := by
  have hhead : (r.method == "HEAD") = false := by
    rw [hmethod]
    cases verb <;> rfl
  unfold handle
  rw [hpath]
  simp only [hhead, Bool.false_eq_true, ↓reduceIte]
  rw [route_of_startsWith (Path.startsWith_peer group key), hmethod, peerRoute_peer]
  rcases perform n verb group key now with ⟨n', response | load | tell⟩ <;> rfl

end Server

namespace PeerRequest

open Http.Url (IsDots)

variable {q : PeerRequest} {u : Http.Url}

/-! ## Requests -/

/-- A peer with a proper host and a port in digits can be asked for any key. -/
theorem exists_url {host port : String} {number : Nat} (haddr : q.peer.addr = host ++ ":" ++ port)
    (hhost : ∀ c ∈ host.toList, Http.Url.isHostFault c = false)
    (hport : Numeral.readDigits? 65536 port.toList = some number) : ∃ u, q.url? = some u := by
  have hdigits : ∀ c ∈ port.toList.reverse, decide (c ≠ ':') = true := by
    intro c hc
    have hdigit : c.isDigit = true := Numeral.isDigit_of_readDigits? hport (List.mem_reverse.mp hc)
    exact decide_eq_true fun hcolon => absurd (hcolon ▸ hdigit) (by decide)
  have hchars : q.peer.addr.toList.reverse = port.toList.reverse ++ ':' :: host.toList.reverse := by
    rw [haddr]
    simp
  have htake : q.peer.addr.toList.reverse.takeWhile (· ≠ ':') = port.toList.reverse := by
    rw [hchars, List.takeWhile_append_of_pos hdigits]
    simp
  have hdrop : q.peer.addr.toList.reverse.dropWhile (· ≠ ':') = ':' :: host.toList.reverse := by
    rw [hchars, List.dropWhile_append_of_pos hdigits]
    simp
  have hnone : host.toList.any Http.Url.isHostFault = false := List.any_eq_false.mpr fun c hc => by
    rw [hhost c hc]
    exact Bool.false_ne_true
  unfold url? Http.Url.ofAddress? Http.Url.authority?
  simp only [htake, hdrop, List.drop_one, List.tail_cons, List.reverse_reverse, hnone, hport]
  exact ⟨_, rfl⟩

theorem path_of_url? (h : q.url? = some u) : u.path = Http.Url.normalPath (Path.peer q.group q.key) := by
  obtain ⟨authority, -, h⟩ := Option.bind_eq_some_iff.mp h
  cases h
  rfl

/-- The path that a request arrives with, as long as its group is not taken for a place in the path:
that of its key, or of the empty key instead of a dot. -/
theorem path_eq (h : q.url? = some u) (hgroup : ¬ IsDots q.group) (hkey : q.key ≠ "..") :
    u.path = Path.peer q.group (if q.key = "." then "" else q.key) := by
  have hencoded : ¬ IsDots (Percent.encodeText q.group) := fun h =>
    hgroup (h.imp Path.encodeText_dot.mp Path.encodeText_dotDot.mp)
  rw [path_of_url? h, Path.normalPath_peer, Http.Url.resolve_three (by decide) hencoded
    (mt Path.encodeText_dotDot.mp hkey), Path.peer_eq_intercalate]
  have hlast : Percent.encodeText (if q.key = "." then "" else q.key) =
      if Percent.encodeText q.key = "." then "" else Percent.encodeText q.key := by
    by_cases hdot : q.key = "."
    · rw [if_pos hdot, if_pos (Path.encodeText_dot.mpr hdot)]
      decide
    · rw [if_neg hdot, if_neg (mt Path.encodeText_dot.mp hdot)]
  rw [hlast, ← String.toList_inj]
  simp

theorem keyless_of_dots (h : q.url? = some u) (hdots : IsDots q.group ∨ q.key = "..") :
    Server.Keyless u.path := by
  have hencoded : IsDots (Percent.encodeText q.group) ∨ Percent.encodeText q.key = ".." :=
    hdots.imp (Or.imp Path.encodeText_dot.mpr Path.encodeText_dotDot.mpr) Path.encodeText_dotDot.mpr
  rw [path_of_url? h, Path.normalPath_peer]
  obtain ⟨x, hx, hresolve⟩ := Http.Url.resolve_three_of_dots (by decide : ¬ IsDots "_groupcache") hencoded
  obtain ⟨s, rfl⟩ : ∃ s, x = Percent.encodeText s := by
    rcases hx with rfl | rfl
    · exact ⟨"", by decide⟩
    · exact ⟨q.key, rfl⟩
  refine ⟨s, ?_⟩
  rcases hresolve with he | he
  · left
    rw [he]
    rfl
  · right
    rw [he, ← String.toList_inj]
    simp

/-- A server reads the path of a request as it is, unless it is too long. -/
theorem read_path (h : q.url? = some u) (hsize : u.path.utf8ByteSize ≤ Http.Target.maxSize) :
    Http.Target.read u.path = .ok u.path := by
  by_cases hdots : IsDots q.group ∨ q.key = ".."
  · obtain ⟨s, hpath⟩ := keyless_of_dots h hdots
    have hplain := Http.Target.isPlain_encodeText s
    rcases hpath with he | he
    · exact Http.Target.read_eq (by rw [he]; exact String.toList_append)
        (by rw [he, String.toList_append, List.all_append, hplain]; decide) hsize
    · exact Http.Target.read_eq (by rw [he]; exact String.toList_append)
        (by rw [he, String.toList_append, List.all_append, hplain]; decide) hsize
  · obtain ⟨hgroup, hkey⟩ := not_or.mp hdots
    have he := path_eq h hgroup hkey
    rw [Path.peer, Path.ofKey] at he
    refine Http.Target.read_eq (by rw [he]; simp [Path.peerPrefix]; rfl) ?_ hsize
    rw [he]
    simp only [String.toList_append, List.all_append, Http.Target.isPlain_encodeText, Bool.and_true]
    decide

/-- **A request names its key.**  The path that a request of a peer arrives with is read as its group
and its key, unless one of them is a dot or two, and the node does with that key what it is asked to.
The empty key takes the place of a key that is a dot, and otherwise the request names none and touches
nothing. -/
theorem names_key (q : PeerRequest) (u : Http.Url) (h : q.url? = some u) :
    (Path.split? u.path Path.peerPrefix = some (q.group, q.key) ↔ ¬ IsDots q.group ∧ ¬ IsDots q.key) ∧
    ∀ (n : Node) (r : Http.Request) (now : Instant), Server.pathOf r = .ok u.path →
      r.method = q.verb.method →
      (¬ IsDots q.group → ¬ IsDots q.key →
        Server.handle n r now = Server.perform n q.verb q.group q.key now) ∧
      (¬ IsDots q.group → q.key = "." →
        Server.handle n r now = Server.perform n q.verb q.group "" now) ∧
      (IsDots q.group ∨ q.key = ".." → ∃ response, Server.handle n r now = (n, .respond response)) := by
  have hpath (hgroup : ¬ IsDots q.group) (hkey : ¬ IsDots q.key) : u.path = Path.peer q.group q.key := by
    obtain ⟨hdot, hdots⟩ := not_or.mp hkey
    rw [path_eq h hgroup hdots, if_neg hdot]
  refine ⟨⟨fun hsplit => ?_, fun ⟨hgroup, hkey⟩ => ?_⟩, fun n r now hread hmethod => ⟨?_, ?_, ?_⟩⟩
  · have hkept : ¬ (IsDots q.group ∨ q.key = "..") := by
      intro hdots
      rw [(keyless_of_dots h hdots).split?_eq_none] at hsplit
      cases hsplit
    obtain ⟨hgroup, hdots⟩ := not_or.mp hkept
    refine ⟨hgroup, not_or.mpr ⟨fun hdot => ?_, hdots⟩⟩
    have hempty : some (q.group, "") = some (q.group, q.key) := by
      rw [← hsplit, path_eq h hgroup hdots, if_pos hdot]
      exact (Path.split?_ofKey _ _ _).symm
    have hkey : "" = q.key := congrArg Prod.snd (Option.some.inj hempty)
    exact absurd (hkey.trans hdot) (by decide)
  · rw [hpath hgroup hkey]
    exact Path.split?_ofKey _ _ _
  · intro hgroup hkey
    exact Server.handle_peer (hread.trans (congrArg _ (hpath hgroup hkey))) hmethod n now
  · intro hgroup hdot
    have hempty : u.path = Path.peer q.group "" := by
      rw [path_eq h hgroup (by rw [hdot]; decide), if_pos hdot]
    exact Server.handle_peer (hread.trans (congrArg _ hempty)) hmethod n now
  · exact fun hdots => Server.handle_keyless hread (keyless_of_dots h hdots) n now

/-- A node with one empty group. -/
def oneGroup : Node :=
  { membership := ⟨⟨"127.0.0.1:9000"⟩, ⟨40⟩, {}, Ring.build [⟨"127.0.0.1:9000"⟩] 40⟩,
    registry := ⟨[Group.create { name := "users", main := ⟨.items 10, 1⟩, hot := ⟨.items 10, 1⟩ }]⟩ }

theorem names_key_with_slash :
    let q : PeerRequest := ⟨.fetch, ⟨"127.0.0.1:9000"⟩, "users", "a/../b?"⟩
    let u : Http.Url := ⟨"127.0.0.1:9000", "/_groupcache/users/a%2F..%2Fb%3F"⟩
    let r : Http.Request := { method := "GET", target := u.path }
    q.url? = some u ∧ ¬ IsDots q.group ∧ ¬ IsDots q.key ∧ Server.pathOf r = .ok u.path ∧
      r.method = q.verb.method ∧ Path.split? u.path Path.peerPrefix = some ("users", "a/../b?") ∧
      Server.handle oneGroup r ⟨0⟩ = Server.perform oneGroup .fetch "users" "a/../b?" ⟨0⟩ := by
  intro q u r
  have hurl : q.url? = some u := by cbv
  have hgroup : ¬ IsDots q.group := by decide
  have hkey : ¬ IsDots q.key := by decide
  have hread : Server.pathOf r = .ok u.path := by cbv
  obtain ⟨hsplit, hhandle⟩ := names_key q u hurl
  exact ⟨hurl, hgroup, hkey, hread, rfl, hsplit.mpr ⟨hgroup, hkey⟩,
    (hhandle oneGroup r ⟨0⟩ hread rfl).1 hgroup hkey⟩

/-- **A dot names another key.**  The request for the key that is a dot arrives as one for the empty
key, which the node then answers with. -/
theorem dot_names_empty_key :
    let q : PeerRequest := ⟨.fetch, ⟨"127.0.0.1:9000"⟩, "users", "."⟩
    let u : Http.Url := ⟨"127.0.0.1:9000", "/_groupcache/users/"⟩
    let r : Http.Request := { method := "GET", target := u.path }
    q.url? = some u ∧ Server.pathOf r = .ok u.path ∧
      Path.split? u.path Path.peerPrefix = some ("users", "") ∧
      Server.handle oneGroup r ⟨0⟩ = Server.perform oneGroup .fetch "users" "" ⟨0⟩ := by
  intro q u r
  have hurl : q.url? = some u := by cbv
  have hread : Server.pathOf r = .ok u.path := by cbv
  have hpath : u.path = Path.peer "users" "" := by decide
  refine ⟨hurl, hread, ?_, Server.handle_peer (hread.trans (congrArg _ hpath)) rfl oneGroup ⟨0⟩⟩
  rw [hpath]
  exact Path.split?_ofKey _ _ _

end PeerRequest

end PeerCache
