import Mathlib
import PeerCache.Proofs.Node.Requests
import PeerCache.Proofs.Wire.Errors

/-!
# Failures of the peer protocol

A response below `/_groupcache/` that reports an error names its code in a header, and has the status of
that code (`Http.Response.IsCoded`).  Two failures are not errors in this sense, and name nothing:

    400   the path does not name a group and a key           (Server.NoKey)
    405   the group is there, and the method is another one   (Server.NoMethod)

An unknown group comes before the method, so it has a code whatever the method is.  What a client asks
for names a key, and has one of the two methods; so it meets neither, as long as no dots get lost on the
way.

Main statement: `Server.failures_coded`.
-/

namespace PeerCache

/-! ## Codes of responses -/

namespace Http.Response

/-- The error code that a response names. -/
def code? (r : Response) : Option ErrorCode :=
  ((r.header? "x-groupcache-error").bind Header.text?).bind ErrorCode.parse?

/-- The response names a code, and has the status of this code. -/
def IsCoded (r : Response) : Prop := ∃ c, r.code? = some c ∧ r.status = c.status

def isSuccess (r : Response) : Bool := Status.isSuccess r.status

variable {r : Response}

theorem header?_ofText (status : Nat) (text : String) :
    (ofText status text).header? "x-groupcache-error" = none := by
  unfold header? firstHeader? ofText ofContent
  simp only [List.find?_cons, Header.isNamed_contentType _ (show "x-groupcache-error" ≠ "content-type" by decide),
    List.find?_nil]

theorem code?_of_header? (h : r.header? "x-groupcache-error" = none) : r.code? = none := by
  unfold code?
  rw [h]
  rfl

end Http.Response

namespace PeerRequest

variable {q : PeerRequest} {r : Http.Response}

/-- A code never reads like an unexpected status. -/
theorem toError_ne_failure (q : PeerRequest) (c : ErrorCode) (owner : Option String) (message status : String) :
    c.toError q.peer.addr q.group q.key owner message ≠ q.failure ("unexpected status " ++ status) := by
  cases c with
  | internal =>
    intro h
    have htext := congrArg String.toList (Error.transport.inj h).2
    simp at htext
  | itemNotFound | cacheNotFound | notOwned | noBackfill | backfill => nofun

/-- The client falls back to the status if there is no code. -/
theorem reportedError_eq_failure (q : PeerRequest) (r : Http.Response) :
    q.reportedError r = q.failure ("unexpected status " ++ Http.Status.text r.status) ↔ r.code? = none := by
  unfold reportedError Http.Response.code?
  dsimp only
  cases ((r.header? "x-groupcache-error").bind Http.Header.text?).bind ErrorCode.parse? with
  | none => simp
  | some c => exact ⟨fun h => absurd h (q.toError_ne_failure c _ _ _), nofun⟩

end PeerRequest

namespace Server

variable {n : Node} {r : Http.Request} {path : String} {now : Instant} {response : Http.Response}

theorem isCoded_ofError (e : Error) : (ofError e).IsCoded := by
  refine ⟨ErrorCode.ofError e, ?_, rfl⟩
  unfold Http.Response.code?
  rw [header?_code]
  exact text?_code (ErrorCode.ofError e)

/-- An outcome is a value, or an error with its code. -/
theorem ofOutcome_success_or_coded (o : Outcome) : (ofOutcome o).isSuccess = true ∨ (ofOutcome o).IsCoded := by
  cases o with
  | ok v => exact .inl rfl
  | error e => exact .inr (isCoded_ofError e)

/-! ## Failures without a code -/

/-- The path does not name a group and a key. -/
def NoKey (path : String) : Prop := Path.split? path Path.peerPrefix = none

/-- The path names a key of a group that is there, and the method does not belong to the protocol. -/
def NoMethod (n : Node) (method path : String) : Prop :=
  ∃ name key g, Path.split? path Path.peerPrefix = some (name, key) ∧ n.registry.get name = .ok g ∧
    ∀ verb : PeerVerb, method ≠ verb.method

theorem not_noMethod {method : String} (verb : PeerVerb) (h : method = verb.method) : ¬ NoMethod n method path :=
  fun ⟨_, _, _, _, _, hmethod⟩ => hmethod verb h

theorem NoMethod.not_noKey {method : String} (h : NoMethod n method path) : ¬ NoKey path := by
  obtain ⟨name, key, g, hsplit, -⟩ := h
  intro hnone
  cases hsplit.symm.trans hnone

/-- What a response says of the request: nothing but the status of the two failures without a code, and
otherwise the code of an error. -/
structure Reports (n : Node) (method path : String) (response : Http.Response) : Prop where
  noKey : NoKey path → response.status = 400 ∧ response.header? "x-groupcache-error" = none
  noMethod : NoMethod n method path → response.status = 405 ∧ response.header? "x-groupcache-error" = none
  coded : ¬ NoKey path → ¬ NoMethod n method path → response.isSuccess = true ∨ response.IsCoded

namespace Reports

variable {method : String}

theorem of_noKey (h : NoKey path) (n : Node) (method text : String) : Reports n method path (.ofText 400 text) :=
  ⟨fun _ => ⟨rfl, Http.Response.header?_ofText 400 text⟩, fun hmethod => absurd h hmethod.not_noKey,
    fun hkey => absurd h hkey⟩

theorem of_noMethod (h : NoMethod n method path) (text : String) : Reports n method path (.ofText 405 text) :=
  ⟨fun hkey => absurd hkey h.not_noKey, fun _ => ⟨rfl, Http.Response.header?_ofText 405 text⟩,
    fun _ hmethod => absurd h hmethod⟩

theorem of_coded (hkey : ¬ NoKey path) (hmethod : ¬ NoMethod n method path)
    (h : response.isSuccess = true ∨ response.IsCoded) : Reports n method path response :=
  ⟨fun h => absurd h hkey, fun h => absurd h hmethod, fun _ _ => h⟩

theorem headOnly (h : Reports n method path response) : Reports n method path response.headOnly :=
  ⟨h.noKey, h.noMethod, h.coded⟩

end Reports

/-! ## Every response -/

/-- The responses that a request can have, whatever else goes on at the node: what the node says at once,
or any outcome of the load that the request waits for. -/
inductive Responds (n : Node) (r : Http.Request) (now : Instant) : Http.Response → Prop where
  | respond {response : Http.Response} {n' : Node} (handled : handle n r now = (n', .respond response)) :
      Responds n r now response
  | tell {response : Http.Response} {name key : String} {n' : Node}
      (handled : handle n r now = (n', .tell response name key)) : Responds n r now response
  | wait {name : String} {k : Nat} {started : Option Load} {n' : Node}
      (handled : handle n r now = (n', .wait name k started)) (o : Outcome) : Responds n r now (ofOutcome o)

/-- The peer protocol responds, or waits for a load. -/
theorem peerRoute_reports (n : Node) (method path : String) (now : Instant) :
    (∃ response, (peerRoute n method path now).2 = .respond response ∧ Reports n method path response) ∨
    (∃ name k started, (peerRoute n method path now).2 = .wait name k started) ∧ ¬ NoKey path ∧
      ¬ NoMethod n method path := by
  unfold peerRoute
  cases hsplit : Path.split? path Path.peerPrefix with
  | none => exact .inl ⟨_, rfl, .of_noKey hsplit n method _⟩
  | some found =>
    obtain ⟨name, key⟩ := found
    have hkey : ¬ NoKey path := fun hnone => by cases hsplit.symm.trans hnone
    dsimp only
    cases hg : n.registry.get name with
    | error e =>
      have hmethod : ¬ NoMethod n method path := by
        rintro ⟨name', key', g, hfound, hget, -⟩
        cases hsplit.symm.trans hfound
        cases hg.symm.trans hget
      exact .inl ⟨_, rfl, .of_coded hkey hmethod (.inr (isCoded_ofError e))⟩
    | ok g =>
      dsimp only
      by_cases hget : method = "GET"
      · rw [if_pos (beq_iff_eq.mpr hget)]
        have hmethod : ¬ NoMethod n method path := not_noMethod .fetch hget
        dsimp only
        cases (g.servePeer n.membership key now).2 with
        | answer o => exact .inl ⟨_, rfl, .of_coded hkey hmethod (ofOutcome_success_or_coded o)⟩
        | waiting k started => exact .inr ⟨⟨_, _, _, rfl⟩, hkey, hmethod⟩
      · rw [if_neg (mt beq_iff_eq.mp hget)]
        by_cases hdelete : method = "DELETE"
        · rw [if_pos (beq_iff_eq.mpr hdelete)]
          exact .inl ⟨_, rfl, .of_coded hkey (not_noMethod .remove hdelete) (.inl rfl)⟩
        · rw [if_neg (mt beq_iff_eq.mp hdelete)]
          have hmethod : ∀ verb : PeerVerb, method ≠ verb.method := fun verb => by
            cases verb with
            | fetch => exact hget
            | remove => exact hdelete
          exact .inl ⟨_, rfl, .of_noMethod ⟨name, key, g, hsplit, hg, hmethod⟩ _⟩

/-- A request below `/_groupcache/` gets what its route says; for HEAD the body is left out. -/
theorem handle_peerRoute {n' : Node} {reply : Reply} (hpath : pathOf r = .ok path)
    (hpeer : path.startsWith Path.peerPrefix = true) (hroute : peerRoute n r.method path now = (n', reply)) :
    handle n r now = (n', reply) ∨
      ∃ response, reply = .respond response ∧ handle n r now = (n', .respond response.headOnly) := by
  unfold handle
  rw [hpath]
  dsimp only
  rw [route_of_startsWith hpeer, hroute]
  cases reply with
  | respond response =>
    dsimp only
    split
    · exact .inr ⟨response, rfl, rfl⟩
    · exact .inl rfl
  | wait | tell => exact .inl rfl

/-- What the responses below `/_groupcache/` say of their requests. -/
theorem Responds.reports (hpath : pathOf r = .ok path) (hpeer : path.startsWith Path.peerPrefix = true)
    (h : Responds n r now response) : Reports n r.method path response := by
  obtain ⟨n', reply, hroute⟩ : ∃ n' reply, peerRoute n r.method path now = (n', reply) := ⟨_, _, rfl⟩
  have hreports := peerRoute_reports n r.method path now
  have hhandle := handle_peerRoute hpath hpeer hroute
  rw [hroute] at hreports
  rcases hreports with ⟨said, rfl, hsaid⟩ | ⟨⟨name, k, started, rfl⟩, hkey, hmethod⟩
  · obtain ⟨sent, hsent, hhandle⟩ : ∃ sent, Reports n r.method path sent ∧ handle n r now = (n', .respond sent) := by
      rcases hhandle with hhandle | ⟨said', hsame, hhandle⟩
      · exact ⟨said, hsaid, hhandle⟩
      · cases hsame
        exact ⟨said.headOnly, hsaid.headOnly, hhandle⟩
    cases h with
    | respond handled =>
      cases handled.symm.trans hhandle
      exact hsent
    | tell handled | wait handled => cases handled.symm.trans hhandle
  · replace hhandle : handle n r now = (n', .wait name k started) := hhandle.resolve_right nofun
    cases h with
    | respond handled | tell handled => cases handled.symm.trans hhandle
    | wait handled o => exact .of_coded hkey hmethod (ofOutcome_success_or_coded o)

/-- A client asks for a key with a method of the protocol; so its failures have codes. -/
theorem Reports.coded_of_request {q : PeerRequest} {u : Http.Url} (h : Reports n q.verb.method u.path response)
    (hurl : q.url? = some u) (hgroup : ¬ Http.Url.IsDots q.group) (hkey : q.key ≠ "..") :
    response.isSuccess = true ∨ response.IsCoded := by
  refine h.coded ?_ (not_noMethod q.verb rfl)
  intro hnone
  rw [NoKey, PeerRequest.path_eq hurl hgroup hkey] at hnone
  cases (Path.split?_ofKey _ _ _).symm.trans hnone

/-- **The failures of the peer protocol have codes, except for two.**  Every response to a request below
`/_groupcache/`, with any method and at a node in any state, is a success, or names an error code that can
be read and has the status of this code, or is the 400 of a path without a group and a key or the 405 of
another method for a group that is there.  These two name no code.  A client that gets a failure falls
back to its status just for these two; and it does not get them for a key that it asks for, unless the
group is one of the segments `.` and `..`, or the key is `..`. -/
theorem failures_coded (hpath : pathOf r = .ok path) (hpeer : path.startsWith Path.peerPrefix = true)
    (h : Responds n r now response) :
    Reports n r.method path response ∧
    (response.isSuccess = false → (response.IsCoded ↔ ¬ NoKey path ∧ ¬ NoMethod n r.method path)) ∧
    (response.isSuccess = false → ∀ q : PeerRequest,
      q.reportedError response = q.failure ("unexpected status " ++ Http.Status.text response.status) ↔
        NoKey path ∨ NoMethod n r.method path) ∧
    ∀ (q : PeerRequest) (u : Http.Url), q.url? = some u → u.path = path → r.method = q.verb.method →
      ¬ Http.Url.IsDots q.group → q.key ≠ ".." → response.isSuccess = true ∨ response.IsCoded := by
  have hreports := h.reports hpath hpeer
  have huncoded (hfault : NoKey path ∨ NoMethod n r.method path) : response.code? = none := by
    rcases hfault with hkey | hmethod
    · exact Http.Response.code?_of_header? (hreports.noKey hkey).2
    · exact Http.Response.code?_of_header? (hreports.noMethod hmethod).2
  have hcoded (hfails : response.isSuccess = false) (hfault : ¬ (NoKey path ∨ NoMethod n r.method path)) :
      response.IsCoded := by
    obtain ⟨hkey, hmethod⟩ := not_or.mp hfault
    exact (hreports.coded hkey hmethod).resolve_left (by rw [hfails]; exact Bool.false_ne_true)
  refine ⟨hreports, fun hfails => ⟨fun ⟨c, hcode, _⟩ => ?_, fun hfault => ?_⟩, fun hfails q => ?_, ?_⟩
  · rw [← not_or]
    intro hfault
    cases hcode.symm.trans (huncoded hfault)
  · exact hcoded hfails (not_or.mpr hfault)
  · rw [q.reportedError_eq_failure]
    refine ⟨fun hnone => ?_, huncoded⟩
    by_contra hfault
    obtain ⟨c, hcode, -⟩ := hcoded hfails hfault
    cases hcode.symm.trans hnone
  · rintro q u hurl rfl hmethod hgroup hkey
    rw [hmethod] at hreports
    exact hreports.coded_of_request hurl hgroup hkey

/-- A node with one empty group, alone on its ring. -/
def oneGroup : Node :=
  { membership := ⟨⟨"a:1"⟩, ⟨1⟩, {}, Ring.build [⟨"a:1"⟩] 1⟩,
    registry := ⟨[Group.create { name := "g", main := ⟨.items 1, 1⟩, hot := ⟨.items 1, 1⟩ }]⟩ }

theorem failures_coded_unknown_group :
    let r : Http.Request := { method := "PUT", target := "/_groupcache/h/k" }
    let response := ofError (.cacheNotFound "h")
    pathOf r = .ok r.target ∧ r.target.startsWith Path.peerPrefix = true ∧ Responds oneGroup r ⟨0⟩ response ∧
      response.isSuccess = false ∧ response.IsCoded := by
  intro r response
  have hpath : pathOf r = .ok r.target := by cbv
  have hpeer : r.target.startsWith Path.peerPrefix = true := by decide +kernel
  have hsplit : Path.split? r.target Path.peerPrefix = some ("h", "k") := by cbv
  have hget : oneGroup.registry.get "h" = .error (.cacheNotFound "h") := by rfl
  have hhandle : handle oneGroup r ⟨0⟩ = (oneGroup, .respond response) := by
    unfold handle
    rw [hpath]
    dsimp only
    rw [route_of_startsWith hpeer]
    unfold peerRoute
    rw [hsplit]
    dsimp only
    rw [hget]
    rfl
  have hresponds : Responds oneGroup r ⟨0⟩ response := .respond hhandle
  refine ⟨hpath, hpeer, hresponds, rfl, ((failures_coded hpath hpeer hresponds).2.1 rfl).mpr ⟨?_, ?_⟩⟩
  · intro hnone
    cases hsplit.symm.trans hnone
  · rintro ⟨name, key, g, hfound, hg, -⟩
    cases hsplit.symm.trans hfound
    cases hget.symm.trans hg

/-- **A failure without a code.**  A POST for a key of a group that is there is told nothing but its
status. -/
theorem other_method_uncoded :
    let r : Http.Request := { method := "POST", target := "/_groupcache/g/k" }
    pathOf r = .ok r.target ∧ r.target.startsWith Path.peerPrefix = true ∧
      Responds oneGroup r ⟨0⟩ methodNotAllowed ∧ methodNotAllowed.isSuccess = false ∧
      ¬ methodNotAllowed.IsCoded ∧
      ∀ q : PeerRequest, q.reportedError methodNotAllowed =
        q.failure "unexpected status 405 Method Not Allowed" := by
  intro r
  have hcode : methodNotAllowed.code? = none :=
    Http.Response.code?_of_header? (Http.Response.header?_ofText 405 "method not allowed")
  have hhandle : handle oneGroup r ⟨0⟩ = (oneGroup, .respond methodNotAllowed) := by cbv
  refine ⟨by cbv, by decide +kernel, .respond hhandle, rfl, ?_, fun q => ?_⟩
  · rintro ⟨c, hc, -⟩
    cases hcode.symm.trans hc
  · exact (q.reportedError_eq_failure methodNotAllowed).mpr hcode

end Server

end PeerCache
