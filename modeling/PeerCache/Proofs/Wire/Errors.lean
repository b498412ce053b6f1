import Mathlib
import PeerCache.Node.Server
import PeerCache.Proofs.Group.Steps

/-!
# Errors across the wire

The response of an error carries its code in a header and its wording as the body; a refusal has the
address of the owner in a second header.  The node that has asked makes an error of these again, for
the key that it has asked for (`PeerRequest.rebuilt`).

Headers are narrower than addresses: the owner comes through only if all of its address is visible
ASCII (`Server.owner_crosses`), and is unknown otherwise.

Main statement: `PeerRequest.error_crosses`.  That errors are about the keys that were asked for is
shown of whole runs elsewhere; `PeerRequest.fetchOutcome_concerns` says so of what a fetch brings.
-/

namespace PeerCache

/-! ## Texts in headers -/

namespace Text

/-- A text of ASCII bytes is the one that they spell. -/
theorem ofBytes_bytes {s : String} (h : ∀ b ∈ bytes s, b < 128) :
    String.ofList ((bytes s).map fun b => Char.ofNat b.toNat) = s := by
  have hsame := congrArg ofBytes? (bytes_ofBytes h)
  rw [ofBytes?_bytes, ofBytes?_bytes] at hsame
  exact Option.some.inj hsame

/-- Neither the first nor the last character of a trimmed text is a blank. -/
theorem trimChars_ends (cs : List Char) :
    (∀ c ∈ (trimChars cs).head?, isBlank c = false) ∧ ∀ c ∈ (trimChars cs).getLast?, isBlank c = false := by
  have hhead (l : List Char) (c : Char) (hc : c ∈ (dropBlank l).head?) : isBlank c = false := by
    have hnot := List.head?_dropWhile_not isBlank l
    unfold dropBlank at hc
    rw [Option.mem_def.mp hc] at hnot
    exact hnot
  refine ⟨fun c hc => ?_, fun c hc => ?_⟩
  · have hprefix : trimChars cs <+: dropBlank cs := by
      rw [← List.reverse_suffix, trimChars, List.reverse_reverse]
      exact List.dropWhile_suffix isBlank
    obtain ⟨rest, hrest⟩ := hprefix
    refine hhead cs c ?_
    rw [← hrest, List.head?_append, Option.mem_def.mp hc]
    rfl
  · rw [trimChars, List.getLast?_reverse] at hc
    exact hhead _ c hc

end Text

namespace Http

variable {bs : List UInt8}

theorem of_isVisible : ∀ b : UInt8, isVisible b = true → b < 128 ∧ isSendableByte b = true :=
  Text.forall_byte (by decide +kernel)

theorem of_isPadding : ∀ b : UInt8, isPadding b = true →
    isVisible b = true ∧ Text.isBlank (Char.ofNat b.toNat) = true :=
  Text.forall_byte (by decide +kernel)

theorem mem_unpadded {b : UInt8} (h : b ∈ bs) (hb : isPadding b = false) : b ∈ unpadded bs := by
  have hkeep {l : List UInt8} (hl : b ∈ l) : b ∈ l.dropWhile isPadding := by
    rw [← List.takeWhile_append_dropWhile (p := isPadding) (l := l)] at hl
    rcases List.mem_append.mp hl with hl | hl
    · exact absurd (List.mem_takeWhile_imp hl) (by rw [hb]; exact Bool.false_ne_true)
    · exact hl
  exact List.mem_reverse.mpr (hkeep (List.mem_reverse.mpr (hkeep h)))

theorem unpadded_eq_self (hhead : ∀ b ∈ bs.head?, isPadding b = false)
    (hlast : ∀ b ∈ bs.getLast?, isPadding b = false) : unpadded bs = bs := by
  have hkeep {l : List UInt8} (hl : ∀ b ∈ l.head?, isPadding b = false) : l.dropWhile isPadding = l := by
    cases l with
    | nil => rfl
    | cons b l => rw [List.dropWhile_cons_of_neg (by rw [hl b rfl]; exact Bool.false_ne_true)]
  rw [unpadded, hkeep hhead, hkeep (by rwa [List.head?_reverse]), List.reverse_reverse]

/-- A trimmed text of visible characters needs no padding to be taken off. -/
theorem unpadded_bytes_trim (s : String) (h : (Text.bytes (Text.trim s)).all isVisible = true) :
    unpadded (Text.bytes (Text.trim s)) = Text.bytes (Text.trim s) := by
  have hchars : (Text.bytes (Text.trim s)).map (fun b => Char.ofNat b.toNat) = Text.trimChars s.toList := by
    have hspell := Text.ofBytes_bytes fun b hb => (of_isVisible b (List.all_eq_true.mp h b hb)).1
    rw [← String.toList_inj, String.toList_ofList] at hspell
    rw [hspell, Text.trim, String.toList_ofList]
  obtain ⟨hhead, hlast⟩ := Text.trimChars_ends s.toList
  rw [← hchars] at hhead hlast
  refine unpadded_eq_self (fun b hb => ?_) fun b hb => ?_
  · by_contra hpad
    have hblank := (of_isPadding b (eq_true_of_ne_false hpad)).2
    rw [hhead _ (by rw [List.head?_map, Option.mem_def.mp hb]; rfl)] at hblank
    cases hblank
  · by_contra hpad
    have hblank := (of_isPadding b (eq_true_of_ne_false hpad)).2
    rw [hlast _ (by rw [List.getLast?_map, Option.mem_def.mp hb]; rfl)] at hblank
    cases hblank

theorem Header.data_ofText (name s : String) : (ofText name s).value.data.toList = Text.bytes s := by
  rw [ofText, String.toUTF8_eq_toByteArray]
  rfl

theorem Header.isNamed_contentType (v : String) {name : String} (h : name ≠ "content-type") :
    (ofText "content-type" v).isNamed name = false := by
  have hlower : "content-type".toLower = "content-type" := by cbv
  show ("content-type".toLower == name) = false
  rw [hlower]
  exact beq_false_of_ne h.symm

/-- A trimmed text comes through a header if all of it is visible, and otherwise not at all. -/
theorem Header.text?_trim (name s : String) : (ofText name (Text.trim s)).text? =
    if (Text.bytes (Text.trim s)).all isVisible then some (Text.trim s) else none := by
  unfold text?
  rw [data_ofText]
  by_cases h : (Text.bytes (Text.trim s)).all isVisible = true
  · have hascii : ∀ b ∈ Text.bytes (Text.trim s), b < 128 := fun b hb =>
      (of_isVisible b (List.all_eq_true.mp h b hb)).1
    simp only [unpadded_bytes_trim s h, h, ↓reduceIte, Text.ofBytes_bytes hascii]
  · have hnot : ¬ (unpadded (Text.bytes (Text.trim s))).all isVisible = true := by
      refine fun hall => h (List.all_eq_true.mpr fun b hb => ?_)
      by_contra hb'
      have hpad : isPadding b = false := by
        by_contra hpad
        exact hb' (of_isPadding b (eq_true_of_ne_false hpad)).1
      exact hb' (List.all_eq_true.mp hall b (mem_unpadded hb hpad))
    rw [if_neg hnot, if_neg h]

end Http

namespace Server

open Http (Header isVisible)

/-! ## The response of an error -/

/-- The code of an error is its first header of that name. -/
theorem header?_code (e : Error) : (ofError e).header? "x-groupcache-error" =
    some (.ofText "x-groupcache-error" (ErrorCode.ofError e).text) := by
  have hcontent (v : String) : (Header.ofText "content-type" v).isNamed "x-groupcache-error" = false :=
    Header.isNamed_contentType v (by decide)
  have hcode (v : String) : (Header.ofText "x-groupcache-error" v).isNamed "x-groupcache-error" = true := by
    show ("x-groupcache-error".toLower == "x-groupcache-error") = true
    cbv
  unfold ofError Http.Response.header? Http.firstHeader? Http.Response.ofText Http.Response.ofContent
  simp only [List.cons_append, List.nil_append, List.find?_cons, hcontent, hcode]

theorem text?_code (c : ErrorCode) :
    ((Header.ofText "x-groupcache-error" c.text).text?).bind ErrorCode.parse? = some c := by
  cases c <;> decide +kernel

/-- The header that names the owner of a key is left out if its text cannot be sent. -/
theorem header?_owner (group key owner : String) :
    (ofError (.notOwned group key owner)).header? "x-groupcache-owner" =
      if (Header.ofText "x-groupcache-owner" owner).isSendable then some (.ofText "x-groupcache-owner" owner)
      else none := by
  have hcontent (v : String) : (Header.ofText "content-type" v).isNamed "x-groupcache-owner" = false :=
    Header.isNamed_contentType v (by decide)
  have hcode (v : String) : (Header.ofText "x-groupcache-error" v).isNamed "x-groupcache-owner" = false := by
    show ("x-groupcache-error".toLower == "x-groupcache-owner") = false
    cbv
  have howner (v : String) : (Header.ofText "x-groupcache-owner" v).isNamed "x-groupcache-owner" = true := by
    show ("x-groupcache-owner".toLower == "x-groupcache-owner") = true
    cbv
  unfold ofError Http.Response.header? Http.firstHeader? Http.Response.ofText Http.Response.ofContent
  simp only [List.cons_append, List.nil_append, List.find?_cons, hcontent, hcode, List.filter_cons, List.filter_nil]
  split
  · rw [List.find?_cons, howner]
  · rfl

/-- Whether an owner's address comes through: all of it has to be visible. -/
theorem owner_crosses (group key s : String) :
    ((ofError (.notOwned group key (Text.trim s))).header? "x-groupcache-owner").bind Header.text? =
      if (Text.bytes (Text.trim s)).all isVisible then some (Text.trim s) else none := by
  rw [header?_owner]
  by_cases hsend : (Header.ofText "x-groupcache-owner" (Text.trim s)).isSendable = true
  · rw [if_pos hsend, Option.bind_some, Header.text?_trim]
  · rw [if_neg hsend, Option.bind_none, if_neg]
    refine fun hall => hsend ?_
    have hvalue : (Header.ofText "x-groupcache-owner" (Text.trim s)).value.data.all Http.isSendableByte = true := by
      rw [← Array.all_toList, Header.data_ofText]
      exact List.all_eq_true.mpr fun b hb => (Http.of_isVisible b (List.all_eq_true.mp hall b hb)).2
    unfold Header.isSendable
    rw [hvalue, Bool.and_true]
    show Http.isToken "x-groupcache-owner" = true
    cbv

/-- The body of an error's response is its wording. -/
theorem content_ofError (e : Error) : (ofError e).isWhole = true ∧ Utf8.lossy (ofError e).content = e.message := by
  have hstatus : Http.Status.isBodiless (ofError e).status = false := by
    show Http.Status.isBodiless (ErrorCode.ofError e).status = false
    cases ErrorCode.ofError e <;> rfl
  refine ⟨rfl, ?_⟩
  rw [Http.Response.content, hstatus, if_neg Bool.false_ne_true]
  show Utf8.lossy e.message.toUTF8 = e.message
  rw [Utf8.lossy, String.toUTF8_eq_toByteArray, String.fromUTF8?, dif_pos e.message.isValidUTF8]
  rfl

end Server

/-! ## Errors and their keys -/

/-- The error is about this key, as far as it names one. -/
def Error.Concerns (group key : String) : Error → Prop
  | .itemNotFound g k | .backfill g k _ | .notOwned g k _ => g = group ∧ k = key
  | .cacheNotFound g | .noBackfill g => g = group
  | _ => True

namespace PeerRequest

/-- All errors that a fetch ends with are about its key. -/
theorem fetchOutcome_concerns (q : PeerRequest) (a : Arrival) {e : Error} (h : q.fetchOutcome a = .error e) :
    e.Concerns q.group q.key := by
  have hcode (c : ErrorCode) (owner : Option String) (message : String) :
      (c.toError q.peer.addr q.group q.key owner message).Concerns q.group q.key := by
    cases c with
    | itemNotFound | notOwned | backfill => exact ⟨rfl, rfl⟩
    | cacheNotFound | noBackfill => exact rfl
    | internal => trivial
  unfold fetchOutcome at h
  split at h
  · cases h
    unfold brokenOff
    split <;> trivial
  · split at h
    · cases h
      unfold reportedError
      dsimp only
      split
      · exact hcode _ _ _
      · trivial
    · split at h <;> cases h
      trivial

/-- What the node that has asked makes of an error at the peer. -/
def rebuilt (q : PeerRequest) (e : Error) : Error :=
  match e with
  | .itemNotFound .. | .cacheNotFound _ | .noBackfill _ => e
  | .notOwned group key owner =>
    if (Text.bytes owner).all Http.isVisible then e else .notOwned group key "unknown"
  | .backfill group key _ => .backfill group key ("on " ++ q.peer.addr ++ ": " ++ e.message)
  | e => .transport q.peer.addr ("internal error: " ++ e.message)

theorem reportedError_ofError (q : PeerRequest) (e : Error) : q.reportedError (Server.ofError e) =
    (ErrorCode.ofError e).toError q.peer.addr q.group q.key
      (((Server.ofError e).header? "x-groupcache-owner").bind Http.Header.text?) e.message := by
  obtain ⟨hwhole, hcontent⟩ := Server.content_ofError e
  unfold reportedError
  simp only [Server.header?_code, Option.bind_some, Server.text?_code, hwhole, ↓reduceIte, hcontent]

theorem fetchOutcome_ofError (q : PeerRequest) (e : Error) :
    q.fetchOutcome (.response (Server.ofError e)) = .error (q.reportedError (Server.ofError e)) := by
  have hstatus : Http.Status.isInterim (Server.ofError e).status = false ∧
      ((Server.ofError e).status != 200) = true := by
    show Http.Status.isInterim (ErrorCode.ofError e).status = false ∧
      ((ErrorCode.ofError e).status != 200) = true
    cases ErrorCode.ofError e <;> exact ⟨rfl, rfl⟩
  unfold fetchOutcome answer?
  simp only [hstatus.1, hstatus.2, Bool.false_eq_true, ↓reduceIte]

/-- **Errors cross the wire.**  If a peer answers a fetch with an error about its key, the node that has
asked reports this error again, and tells a failure of the peer's source and any other failure as one
of the peer.  The owner in a refusal, which is a peer's address, has to be visible ASCII.  Whether the
value was not found is the same before and after. -/
theorem error_crosses (q : PeerRequest) (e : Error) (he : e.Concerns q.group q.key)
    (howner : ∀ group key owner, e = .notOwned group key owner →
      ∃ s p, Peer.parse s = .ok p ∧ owner = p.addr) :
    q.fetchOutcome (.response (Server.ofError e)) = .error (q.rebuilt e) ∧
      (q.rebuilt e).isNotFound = e.isNotFound := by
  rw [fetchOutcome_ofError, reportedError_ofError]
  cases e with
  | itemNotFound g k =>
    obtain ⟨rfl, rfl⟩ := he
    exact ⟨rfl, rfl⟩
  | cacheNotFound g =>
    obtain rfl := he
    exact ⟨rfl, rfl⟩
  | noBackfill g =>
    obtain rfl := he
    exact ⟨rfl, rfl⟩
  | backfill g k source =>
    obtain ⟨rfl, rfl⟩ := he
    exact ⟨rfl, rfl⟩
  | notOwned g k owner =>
    obtain ⟨rfl, rfl⟩ := he
    obtain ⟨s, p, hp, rfl⟩ := howner _ _ _ rfl
    rw [Peer.addr_of_parse hp, Server.owner_crosses]
    unfold rebuilt
    dsimp only
    split <;> exact ⟨rfl, rfl⟩
  | nameRequired | invalidPeer | config | transport | timeout | loadAborted | inputOutput | internal =>
    exact ⟨rfl, rfl⟩

theorem refusal_crosses :
    let q : PeerRequest := ⟨.fetch, ⟨"127.0.0.1:9000"⟩, "users", "b"⟩
    let e : Error := .notOwned "users" "b" "127.0.0.1:9001"
    e.Concerns q.group q.key ∧ Peer.parse " 127.0.0.1:9001" = .ok ⟨"127.0.0.1:9001"⟩ ∧ q.rebuilt e = e ∧
      q.fetchOutcome (.response (Server.ofError e)) = .error e := by
  intro q e
  have hparse : Peer.parse " 127.0.0.1:9001" = .ok ⟨"127.0.0.1:9001"⟩ := by cbv
  have hsame : q.rebuilt e = e := by decide
  obtain ⟨hcross, -⟩ := error_crosses q e ⟨rfl, rfl⟩ fun _ _ _ he =>
    ⟨_, _, hparse, (Error.notOwned.inj he).2.2.symm⟩
  exact ⟨⟨rfl, rfl⟩, hparse, hsame, hcross.trans (congrArg _ hsame)⟩

/-- **An owner can be lost.**  An address that is not visible ASCII makes a peer, but does not come
through the header of a refusal. -/
theorem owner_lost :
    let q : PeerRequest := ⟨.fetch, ⟨"127.0.0.1:9000"⟩, "users", "b"⟩
    let e : Error := .notOwned "users" "b" "hést:9001"
    e.Concerns q.group q.key ∧ Peer.parse "hést:9001" = .ok ⟨"hést:9001"⟩ ∧
      q.fetchOutcome (.response (Server.ofError e)) = .error (.notOwned "users" "b" "unknown") ∧
      Error.notOwned "users" "b" "unknown" ≠ e := by
  intro q e
  have htrim : Text.trim "hést:9001" = "hést:9001" := by decide
  have howner := Server.owner_crosses "users" "b" "hést:9001"
  rw [htrim, if_neg (by decide)] at howner
  refine ⟨⟨rfl, rfl⟩, by cbv, ?_, by decide⟩
  rw [fetchOutcome_ofError, reportedError_ofError, howner]
  rfl

end PeerRequest

end PeerCache
