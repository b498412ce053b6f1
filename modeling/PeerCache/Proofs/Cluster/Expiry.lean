import Mathlib
import PeerCache.Proofs.Cluster.Provenance
import PeerCache.Proofs.Time.Deadline

/-!
# Expiry in a cluster

An expiry stays with the entry that was set; what a node answers is a value alone.  So a value that is
only ever set to expire at `t` is nowhere in a main tier without that expiry, and from then on no main
tier serves it (`Paced.Dated`).  A copy of it in a hot tier, though, has been given the default lifetime of
the group when the load began that fetched it (`Paced.Copied`), and is served until then, also after `t`.

Nothing new comes of this: once no load of the key is in flight, at `t` or later, no load brings the value
any more and no hot tier gets it (`Paced.Spent`).  Before, it is otherwise: a get joins a load that has
found the value in time (`copy_outlives_expiry`).

Main statement: `expires_or_copied`.
-/

namespace PeerCache

/-- The clock that a step reads. -/
def Paced.Event.clock? : Paced.Event → Option Instant
  | .plain (.advance _ now) | .plain (.work _ now) | .plain (.respond _ now) | .plain (.endFetch _ _ now)
  | .plain (.set _ _ _ _ now) | .plain (.register _ _ now) | .settle _ now => some now
  | _ => none

namespace Paced

variable {s u : Paced} {e : Event} {key : String} {v : ByteArray} {t : Instant} {ttl : Option Duration}
  {founders : List Founder} {es : List Event}

/-! ## The condition -/

/-- The request that a load has made at another node is answered with a value. -/
def answeredWith (s : Paced) (a : LoadTask) (v : ByteArray) : Bool :=
  match a.phase with
  | .fetching _ _ (some r) => s.cluster.requests[r]?.any fun q =>
    match q.phase with
    | .answered (.ok w) => w = v
    | _ => false
  | _ => false

theorem exists_of_answeredWith {a : LoadTask} (h : s.answeredWith a v = true) :
    ∃ (p : Peer) (x : Option Instant) (r : Nat) (q : Request), a.phase = .fetching p x (some r) ∧
      s.cluster.requests[r]? = some q ∧ q.phase = .answered (.ok v) := by
  unfold answeredWith at h
  split at h
  · next p x r hp =>
    obtain ⟨q, hq, h⟩ := (Option.any_eq_true _ _).mp h
    split at h
    · next w hw =>
      obtain rfl := of_decide_eq_true h
      exact ⟨p, x, r, q, hp, hq, hw⟩
    · cases h
  · cases h

/-- A step that brings a value under a key into the cluster only as a set that expires at `t`: no source
says it, and to a load that fetches only another node does, which has it itself.  Rings and the default
lifetime stay. -/
def Fleeting (key : String) (v : ByteArray) (t : Instant) (ttl : Option Duration) (s : Paced) : Event → Prop
  | .plain (.set _ k w x _) => k = key → w = v → x = .at t
  | .plain (.register _ c _) => c.itemExpiration = ttl
  | .plain (.setPeers ..) => False
  | .reply n (.backfill (.value w)) => w = v → ∀ a ∈ s.cluster.loads[n]?, a.load.key ≠ key
  | .reply n (.fetch (.returned (.ok w))) =>
    w = v → ∀ a ∈ s.cluster.loads[n]?, a.load.key = key → s.answeredWith a v = true
  | _ => True

instance (key : String) (v : ByteArray) (t : Instant) (ttl : Option Duration) (s : Paced) :
    (e : Event) → Decidable (Fleeting key v t ttl s e)
  | .plain (.set _ k w x _) => inferInstanceAs (Decidable (k = key → w = v → x = .at t))
  | .plain (.register _ c _) => inferInstanceAs (Decidable (c.itemExpiration = ttl))
  | .plain (.setPeers ..) => inferInstanceAs (Decidable False)
  | .reply n (.backfill (.value w)) =>
    inferInstanceAs (Decidable (w = v → ∀ a ∈ s.cluster.loads[n]?, a.load.key ≠ key))
  | .reply n (.fetch (.returned (.ok w))) => inferInstanceAs (Decidable
      (w = v → ∀ a ∈ s.cluster.loads[n]?, a.load.key = key → s.answeredWith a v = true))
  | .reply _ (.backfill .missing) | .reply _ (.backfill (.failed _)) | .reply _ (.backfill .panicked)
  | .reply _ (.fetch (.returned (.error _))) | .reply _ (.fetch .panicked)
  | .plain (.get ..) | .plain (.serve ..) | .plain (.advance ..) | .plain (.hear ..) | .plain (.abandon ..)
  | .plain (.work ..) | .plain (.deliver ..) | .plain (.respond ..) | .plain (.endFetch ..)
  | .plain (.remove ..) | .plain (.removeLocal ..) | .plain (.deliverRemoval ..) | .plain (.loseRemoval ..)
  | .settle .. => inferInstanceAs (Decidable True)

theorem Fleeting.setPeers (h : s.Fleeting key v t ttl e) (i : Nat) (addrs : List String) :
    e ≠ .plain (.setPeers i addrs) := by
  rintro rfl
  exact h

/-! ## Up to then -/

/-- The value is in a main tier only with its own expiry, and no source has said it to a load. -/
structure Dated (key : String) (v : ByteArray) (t : Instant) (ttl : Option Duration) (s : Paced) : Prop where
  lifetime : ∀ (i : Nat) (m : Member), s.cluster.members[i]? = some m →
    m.group.settings.itemExpiration = ttl
  source : ∀ (n : Nat) (a : LoadTask), s.cluster.loads[n]? = some a → a.load.key = key →
    s.reply? n ≠ some (.backfill (.value v))
  main : ∀ (i : Nat) (x : Entry), s.held? i .main key = some x → x.value = v → x.expireAt = some t

namespace Dated

theorem lifetime_after (hs : s.Dated key v t ttl) (hp : s.Fleeting key v t ttl e) (h : s.Takes e u)
    {i : Nat} {m : Member} (hm : u.cluster.members[i]? = some m) : m.group.settings.itemExpiration = ttl := by
  obtain ⟨a, ha, hsame | ⟨c, now, rfl, hc⟩⟩ := (h.member hm).settings
  · rw [hsame]
    exact hs.lifetime i a ha
  · exact hc.trans hp

theorem source_after (hs : s.Dated key v t ttl) (hp : s.Fleeting key v t ttl e) (hw : s.Wired)
    (h : s.Takes e u) {n : Nat} {a : LoadTask} (ha : u.cluster.loads[n]? = some a) (hk : a.load.key = key) :
    u.reply? n ≠ some (.backfill (.value v)) := by
  intro hr
  rcases h.reply_cases hr with hr | rfl
  · obtain ⟨a₀, ha₀⟩ := hw.load_of_reply hr
    exact hs.source n a₀ ha₀ ((h.load_eq ha₀ ha).2 ▸ hk) hr
  · cases h with
    | reply ha₀ => exact hp rfl a ha hk
    | remove hrem => exact hrem.elim

/-- A load of the key that stores the value has fetched it. -/
theorem fetched (hs : s.Dated key v t ttl) {n : Nat} {a : LoadTask} {r : LoadReply} {kind : TierKind}
    (ha : s.cluster.loads[n]? = some a) (hk : a.load.key = key) (hr : s.reply? n = some r)
    (hawaits : a.phase.awaits r = true) (hkind : a.phase.home? = some kind) (hv : r.value? = some v) :
    kind = .hot ∧ r = .fetch (.returned (.ok v)) := by
  rcases LoadPhase.stored_cases hawaits hkind hv with ⟨-, -, rfl⟩ | ⟨hhot, -, rfl⟩
  · exact absurd hr (hs.source n a ha hk)
  · exact ⟨hhot, rfl⟩

theorem main_after (hs : s.Dated key v t ttl) (hp : s.Fleeting key v t ttl e) (h : s.Takes e u) {i : Nat}
    (hholds : s.HoldsAt (fun _ _ => True) i) {x : Entry} (hx : u.held? i .main key = some x)
    (hv : x.value = v) : x.expireAt = some t := by
  rcases h.of_held? hholds hx with hputs | hx
  · cases e with
    | reply => exact hputs.elim
    | settle n now =>
      obtain ⟨a, r, ha, hr, -, hk, hawaits, hkind, hvalue, -⟩ := hputs
      rw [hv] at hvalue
      cases (hs.fetched ha hk hr hawaits hkind hvalue).1
    | plain e =>
      cases e with
      | set j k w expiration now =>
        obtain ⟨-, rfl, -, m, -, rfl⟩ := hputs
        rw [hp rfl hv]
        rfl
      | _ => exact hputs.elim
  · exact hs.main i x hx hv

theorem step (hs : s.Dated key v t ttl) (hp : s.Fleeting key v t ttl e) (hreach : s.Reachable)
    (h : s.Takes e u) : u.Dated key v t ttl where
  lifetime _ _ := hs.lifetime_after hp h
  source _ _ := hs.source_after hp hreach.wired h
  main i _ := hs.main_after hp h (hreach.holds i)

end Dated

theorem dated_run (hconfig : ∀ a ∈ founders, a.config.itemExpiration = ttl)
    (h : Along step (Fleeting key v t ttl) (start founders) es) :
    ((start founders).run es).Dated key v t ttl := by
  refine (keeps (I := fun s => s.Reachable ∧ s.Dated key v t ttl)
    (fun hs hp ht => ⟨hs.1.step _, hs.2.step hp hs.1 ht⟩) ⟨⟨founders, [], rfl⟩, ?_⟩ h).2
  constructor
  case lifetime =>
    intro i m hm
    obtain ⟨a, ha, rfl⟩ := List.mem_map.mp (List.mem_of_getElem? hm)
    exact hconfig a ha
  case source => rintro n a ⟨⟩
  case main =>
    intro i x hx
    obtain ⟨m, hm, hheld⟩ := exists_of_held? hx
    exact (((holds_start founders i m hm).tier .main).held hheld).elim

/-! ## Copies -/

/-- After the steps `as` a hot tier has the copy that a load of the key has left there: the load was queued
when a step began it, with the clock at `began`; what it fetched is the value of the copy; and since it
stored the copy nothing has been written in its place. -/
structure Copied (founders : List Founder) (as : List Event) (i : Nat) (key : String) (x : Entry) (n : Nat)
    (began : Instant) : Prop where
  begins : ∃ (bs cs : List Event) (a : LoadTask), as = bs ++ .plain (.work n began) :: cs ∧
    ((start founders).run bs).cluster.loads[n]? = some a ∧ a.phase = .queued ∧ a.host = i ∧ a.load.key = key
  stores : ∃ (bs cs : List Event) (now : Instant), as = bs ++ .settle n now :: cs ∧
    ((start founders).run bs).reply? n = some (.fetch (.returned (.ok x.value))) ∧
    (start founders).LastPut bs (.settle n now) cs i .hot key x

/-- The expiry that a load will store with was settled in the step that began it. -/
theorem exists_begun {n : Nat} {a : LoadTask} {x : Option Instant}
    (ha : ((start founders).run es).cluster.loads[n]? = some a) (hx : a.phase.expiry? = some x) :
    ∃ (bs cs : List Event) (began : Instant) (b : LoadTask) (m : Member),
      es = bs ++ .plain (.work n began) :: cs ∧ ((start founders).run bs).cluster.loads[n]? = some b ∧
      b.phase = .queued ∧ b.host = a.host ∧ b.load = a.load ∧
      ((start founders).run bs).cluster.members[b.host]? = some m ∧ x = m.group.defaultExpiry began := by
  -- At first the load does not have this expiry, at last it has, so some step gives it.
  rcases turn (s := start founders) (I := fun s => ∀ b, s.cluster.loads[n]? = some b → b.host = a.host →
    b.load = a.load → b.phase.expiry? ≠ some x) (by rintro b ⟨⟩) es with
    hnever | ⟨bs, e, cs, rfl, hbefore, ht, hafter⟩
  · exact absurd hx (hnever a ha rfl rfl)
  · simp only [not_forall, not_not] at hafter
    obtain ⟨b, hb', hhost, hload, hexp⟩ := hafter
    cases ht.load hb' with
    | same hb => exact absurd hexp (hbefore b hb hhost hload)
    | start | release => cases hexp
    | @deliver j b owner y hb hp => exact absurd (by rw [hp]; exact hexp) (hbefore b hb hhost hload)
    | settle hb hm hr hset =>
      cases hset with
      | store | fail => cases hexp
    | @begin now b m p hb hm hp hbegins =>
      refine ⟨bs, cs, now, b, m, rfl, hb, hp, hhost, hload, hm, ?_⟩
      cases hbegins with
      | present | sourceless => cases hexp
      | ask | fetch => exact (Option.some.inj hexp).symm

/-- A hot tier has the value only from a load that fetched it, with the default expiry of its beginning. -/
theorem exists_copied (hconfig : ∀ a ∈ founders, a.config.itemExpiration = ttl)
    (h : Along step (Fleeting key v t ttl) (start founders) es) {i : Nat} {x : Entry}
    (hx : ((start founders).run es).held? i .hot key = some x) (hv : x.value = v) :
    ∃ (n : Nat) (began : Instant), Copied founders es i key x n began ∧
      x.expireAt = Expiration.default.resolve ttl began := by
  subst hv
  obtain ⟨as, f, bs, rfl, hlast⟩ := exists_lastPut founders es hx
  have has := (along_append.mp h).1
  have hputs := hlast.puts
  cases f with
  | reply => exact hputs.elim
  | plain f =>
    cases f with
    | set => cases hputs.2.2.1
    | _ => exact hputs.elim
  | settle n now =>
    obtain ⟨a, r, ha, hr, hi, hk, hawaits, hkind, hvalue, hexp⟩ := hputs
    obtain ⟨-, rfl⟩ := (dated_run hconfig has).fetched ha hk hr hawaits hkind hvalue
    obtain ⟨cs, ds, began, b, m, rfl, hb, hqueued, hhost, hload, hm, hexpire⟩ := exists_begun ha hexp
    have hlifetime := (dated_run hconfig (along_append.mp has).1).lifetime b.host m hm
    refine ⟨n, began, ⟨⟨cs, ds ++ .settle n now :: bs, b, by simp, hb, hqueued, hhost.trans hi, ?_⟩,
      ⟨_, bs, now, rfl, hr, hlast⟩⟩, ?_⟩
    · rw [hload]
      exact hk
    · rw [hexpire, Group.defaultExpiry, hlifetime]

/-! ## From then on -/

/-- Since the state `s₀`, in which no load of the key was in flight, no load has brought the value: it
comes neither to a load that has started since nor to a request of another node that has, and the hot
tiers have no copy that they did not have then. -/
structure Spent (key : String) (v : ByteArray) (s₀ s : Paced) : Prop where
  requests : s₀.cluster.requests.length ≤ s.cluster.requests.length
  loads : s₀.cluster.loads.length ≤ s.cluster.loads.length
  landed : ∀ (n : Nat) (a : LoadTask), n < s₀.cluster.loads.length → s.cluster.loads[n]? = some a →
    a.load.key = key → a.phase.isFlying = false
  reply : ∀ (n : Nat) (a : LoadTask), s₀.cluster.loads.length ≤ n → s.cluster.loads[n]? = some a →
    a.load.key = key → s.reply? n ≠ some (.fetch (.returned (.ok v)))
  ending : ∀ (n : Nat) (a : LoadTask), s₀.cluster.loads.length ≤ n → s.cluster.loads[n]? = some a →
    a.load.key = key → a.phase.ending? ≠ some (.returned (.ok v))
  asked : ∀ (n : Nat) (a : LoadTask) (p : Peer) (x : Option Instant) (r : Nat),
    s₀.cluster.loads.length ≤ n → s.cluster.loads[n]? = some a → a.phase = .fetching p x (some r) →
    s₀.cluster.requests.length ≤ r
  waits : ∀ (r : Nat) (q : Request) (k : Nat), s₀.cluster.requests.length ≤ r →
    s.cluster.requests[r]? = some q → q.key = key → q.phase = .waiting k →
    ∀ (n : Nat) (a : LoadTask), s.cluster.loads[n]? = some a → a.host = q.host → a.load.number = k →
      s₀.cluster.loads.length ≤ n
  served : ∀ (r : Nat) (q : Request), s₀.cluster.requests.length ≤ r → s.cluster.requests[r]? = some q →
    q.key = key → q.fromPeer = true → q.phase ≠ .answered (.ok v)
  hot : ∀ (i : Nat) (x : Entry), s.held? i .hot key = some x → x.value = v → s₀.held? i .hot key = some x

/-! ## Rings that do not change -/

/-- Gets and loads of a key go by the ring, at every node. -/
structure Steadfast (key : String) (s : Paced) : Prop where
  reachable : s.Reachable
  current : ∀ i, s.Current i key
  aligned : ∀ i, s.Aligned i key

/-- A ring that is not replaced is not replaced at a bad moment. -/
theorem Takes.steady (h : s.Takes e (s.step e)) {i : Nat} (he : ∀ addrs, e ≠ .plain (.setPeers i addrs))
    (key : String) : s.Steady i key e := by
  have hgains : s.gains i key e = false := by
    unfold gains
    rw [h.owns_kept he, Bool.not_and_self]
  have hloses : s.loses i key e = false := by
    unfold loses
    rw [h.owns_kept he, Bool.and_not_self]
  constructor
  · rw [hgains]; rintro ⟨⟩
  · rw [hgains]; rintro ⟨⟩
  · rw [hloses]; rintro ⟨⟩

theorem Steadfast.step (hs : s.Steadfast key) (he : ∀ i addrs, e ≠ .plain (.setPeers i addrs))
    (h : s.Takes e (s.step e)) : (s.step e).Steadfast key where
  reachable := hs.reachable.step e
  current i := by
    refine (hs.current i).step hs.reachable.wired ?_ h
    cases e with
    | plain e =>
      cases e with
      | setPeers j addrs => exact absurd rfl (he j addrs)
      | _ => trivial
    | reply | settle => trivial
  aligned i := (hs.aligned i).step hs.reachable.wired (h.steady (he i) key) h

theorem steadfast_start (founders : List Founder) (key : String) : (start founders).Steadfast key :=
  ⟨⟨founders, [], rfl⟩, fun i => current_start founders i key, fun i => aligned_start founders i key⟩

/-! ## No new copies -/

/-- From then on the entry of a main tier has expired. -/
theorem Dated.expired (hs : s.Dated key v t ttl) {i : Nat} {x : Entry} {now : Instant}
    (hx : s.held? i .main key = some x) (hv : x.value = v) (hnow : t.nanos ≤ now.nanos) :
    x.isExpiredAt now = true := by
  unfold Entry.isExpiredAt
  rw [hs.main i x hx hv]
  exact decide_eq_true hnow

namespace Spent

variable {s₀ : Paced}

theorem landed_after (hs : s₀.Spent key v s) (h : s.Takes e u) {n : Nat} {a : LoadTask}
    (hn : n < s₀.cluster.loads.length) (ha : u.cluster.loads[n]? = some a) (hk : a.load.key = key) :
    a.phase.isFlying = false := by
  obtain ⟨a₀, ha₀⟩ : ∃ a₀, s.cluster.loads[n]? = some a₀ :=
    ⟨_, List.getElem?_eq_getElem (Nat.lt_of_lt_of_le hn hs.loads)⟩
  have hf := hs.landed n a₀ hn ha₀ ((h.load_eq ha₀ ha).2 ▸ hk)
  obtain rfl := eq_of_getElem? (h.load_released ha₀ hf) ha
  exact hf

/-- What a node answers to a fetch, it has from a load, or from its main tier: it is not the value. -/
theorem reply_after (hs : s₀.Spent key v s) (hp : s.Fleeting key v t ttl e) (hw : s.Wired)
    (h : s.Takes e u) {n : Nat} {a : LoadTask} (hn : s₀.cluster.loads.length ≤ n)
    (ha : u.cluster.loads[n]? = some a) (hk : a.load.key = key) :
    u.reply? n ≠ some (.fetch (.returned (.ok v))) := by
  intro hr
  rcases h.reply_cases hr with hr | rfl
  · obtain ⟨a₀, ha₀⟩ := hw.load_of_reply hr
    exact hs.reply n a₀ hn ha₀ ((h.load_eq ha₀ ha).2 ▸ hk) hr
  · cases h with
    | reply ha₀ =>
      obtain ⟨p, x, r, q, hphase, hq, hanswer⟩ := exists_of_answeredWith (hp rfl a ha hk)
      obtain ⟨q', hq', hkey, hpeer, -⟩ := hw.asks n a p x r ha hphase
      obtain rfl := eq_of_getElem? hq' hq
      exact hs.served r q (hs.asked n a p x r hn ha hphase) hq (hkey.trans hk) hpeer hanswer
    | remove hrem => exact hrem.elim

theorem ending_after (hs : s₀.Spent key v s) (hd : s.Dated key v t ttl)
    (hclock : ∀ now ∈ e.clock?, t.nanos ≤ now.nanos) (h : s.Takes e u) {n : Nat} {a : LoadTask}
    (hn : s₀.cluster.loads.length ≤ n) (ha : u.cluster.loads[n]? = some a) (hk : a.load.key = key) :
    a.phase.ending? ≠ some (.returned (.ok v)) := by
  intro hend
  cases h.load ha with
  | same ha => exact hs.ending n a hn ha hk hend
  | start | deliver => cases hend
  | @release now b x hb hp => exact hs.ending n b hn hb hk (by rw [hp]; exact hend)
  | @begin now b m p hb hm hp hbegins =>
    cases hbegins with
    | present hl hpeek =>
      obtain ⟨hheld, hlive⟩ := Tier.of_peek hpeek
      cases hend
      subst hk
      rw [hd.expired ((held?_eq hm .main _).trans hheld) rfl (hclock now rfl)] at hlive
      cases hlive
    | sourceless | ask | fetch => cases hend
  | @settle now b m r g p hb hm hr hset =>
    cases hset with
    | store hawaits hkind hv =>
      cases hend
      obtain ⟨-, rfl⟩ := hd.fetched hb hk hr hawaits hkind hv
      exact hs.reply n b hn hb hk hr
    | fail hawaits hv hg hc he =>
      cases hend
      exact he v rfl

theorem asked_after (hs : s₀.Spent key v s) (h : s.Takes e u) {n r : Nat} {a : LoadTask} {p : Peer}
    {x : Option Instant} (hn : s₀.cluster.loads.length ≤ n) (ha : u.cluster.loads[n]? = some a)
    (hp : a.phase = .fetching p x (some r)) : s₀.cluster.requests.length ≤ r := by
  cases h.load ha with
  | same ha => exact hs.asked n a p x r hn ha hp
  | start | release => cases hp
  | deliver =>
    cases hp
    exact hs.requests
  | begin hb hm hq hbegins =>
    cases hbegins with
    | present | sourceless | ask | fetch => cases hp
  | settle hb hm hr hset =>
    cases hset with
    | store | fail => cases hp

/-- A new request waits for a new load: the others are not there to be joined. -/
theorem waits_after (hs : s₀.Spent key v s) (hw : s.Wired) (h : s.Takes e u) {r k : Nat} {q : Request}
    (hr : s₀.cluster.requests.length ≤ r) (hq' : u.cluster.requests[r]? = some q) (hk : q.key = key)
    (hp : q.phase = .waiting k) {n : Nat} {a : LoadTask} (ha : u.cluster.loads[n]? = some a)
    (hh : a.host = q.host) (hnum : a.load.number = k) : s₀.cluster.loads.length ≤ n := by
  have hw' : u.Wired := hw.step h
  have hsame {n' : Nat} {b : LoadTask} (hb : s.cluster.loads[n']? = some b) (hhost : b.host = q.host)
      (hnumber : b.load.number = k) : n = n' := by
    obtain ⟨p, hb', -⟩ := h.load_forward hb
    exact hw'.unique ha hb' (hh.trans hhost.symm) (hnum.trans hnumber.symm)
  rcases h.waiting hw hq' hp with
    hq | ⟨q₀, owner, hq, hmiss, rfl, ⟨n', b, hb, hhost, hnumber, hkey, hf⟩ | hb⟩
  · obtain ⟨n', b, hb, hhost, hnumber, -⟩ := hw.waits r q k hq hp
    rw [hsame hb hhost hnumber]
    exact hs.waits r q k hr hq hk hp n' b hb hhost hnumber
  · rw [hsame hb hhost hnumber]
    by_contra hn
    rw [hs.landed n' b (Nat.lt_of_not_le hn) hb (hkey.trans hk)] at hf
    cases hf
  · rw [hw'.unique ha hb hh hnum]
    exact hs.loads

theorem hot_after (hs : s₀.Spent key v s) (hd : s.Dated key v t ttl) (h : s.Takes e u) {i : Nat}
    (hholds : s.HoldsAt (fun _ _ => True) i) {x : Entry} (hx : u.held? i .hot key = some x)
    (hv : x.value = v) : s₀.held? i .hot key = some x := by
  rcases h.of_held? hholds hx with hputs | hx
  · cases e with
    | reply => exact hputs.elim
    | settle n now =>
      obtain ⟨a, r, ha, hr, -, hk, hawaits, hkind, hvalue, -⟩ := hputs
      rw [hv] at hvalue
      obtain ⟨-, rfl⟩ := hd.fetched ha hk hr hawaits hkind hvalue
      by_cases hn : s₀.cluster.loads.length ≤ n
      · exact absurd hr (hs.reply n a hn ha hk)
      · have hf := hs.landed n a (Nat.lt_of_not_le hn) ha hk
        rw [LoadPhase.isFlying_of_rank (LoadPhase.awaits_rank hawaits)] at hf
        cases hf
    | plain e =>
      cases e with
      | set j k w expiration now => cases hputs.2.2.1
      | _ => exact hputs.elim
  · exact hs.hot i x hx hv

/-- **A new request gets the value at most as a copy** that the node has had all the time, and only for a
client: requests of other nodes are served by the owner. -/
theorem answers (hs : s₀.Spent key v s) (hd : s.Dated key v t ttl) (hfast : s.Steadfast key)
    (hclock : ∀ now ∈ e.clock?, t.nanos ≤ now.nanos) (h : s.Takes e u) {r : Nat} {q : Request}
    (hr : s₀.cluster.requests.length ≤ r) (hq' : u.cluster.requests[r]? = some q) (hk : q.key = key)
    (hp : q.phase = .answered (.ok v)) (hbefore : s.cluster.requests[r]? ≠ some q) :
    s.owns q.host key = false ∧ q.fromPeer = false ∧ ∃ (x : Entry) (now : Instant),
      e = .plain (.advance r now) ∧ s.held? q.host .hot key = some x ∧ x.isExpiredAt now = false ∧
        x.value = v := by
  have hw := hfast.reachable.wired
  cases h.request hq' with
  | same hq => exact absurd hq hbefore
  | get | serve | deliver | start | abandon => cases hp
  | @hear q k n a x group hq hwait ha hh hnum hreleased =>
    have hn := hs.waits r q k hr hq hk hwait n a ha hh hnum
    obtain rfl := Ending.eq_of_outcome (RequestPhase.answered.inj hp)
    have hkey := (hw.key_of_waiting hq hwait ha hh hnum).trans hk
    exact absurd (by rw [hreleased]; rfl) (hs.ending n a hn ha hkey)
  | @advance now q m g p hq hm hadv =>
    cases hp
    generalize hphase : q.phase = phase at hadv
    have hholds := hfast.reachable.holds q.host m hm
    have hserved {x : Entry} (hx : m.group.held? .main q.key = some x) (hlive : x.isExpiredAt now = false)
        (hv : x.value = v) : False := by
      rw [hk, ← held?_eq hm] at hx
      rw [hd.expired hx hv (hclock now rfl)] at hlive
      cases hlive
    cases hadv with
    | @find owner _ hfound =>
      obtain ⟨x, hx, hlive, hv⟩ := hholds.of_probe hfound
      cases hl : m.membership.isLocal owner with
      | true =>
        rw [hl] at hx
        exact (hserved hx hlive hv).elim
      | false =>
        rw [hl] at hx
        have howner := (hfast.current q.host).get r q owner hq rfl hk (by rw [hphase]; rfl)
        have howns : s.owns q.host key = false := by
          rw [owns_of_ringOwner? howner, isLocalAt_eq hm]
          exact hl
        refine ⟨howns, Bool.eq_false_iff.mpr fun hpeer => ?_, x, now, rfl, ?_, hlive, hv⟩
        · have hown := (hfast.aligned q.host).served r q hq rfl hk hpeer (by rw [hphase]; rfl)
          rw [howns] at hown
          cases hown
        · rw [held?_eq hm, ← hk]
          exact hx
    | glance hfound =>
      obtain ⟨x, hx, hlive, hv⟩ := Group.of_glance hfound
      exact (hserved hx hlive hv).elim

theorem step (hs : s₀.Spent key v s) (hd : s.Dated key v t ttl) (hfast : s.Steadfast key)
    (hp : s.Fleeting key v t ttl e) (hclock : ∀ now ∈ e.clock?, t.nanos ≤ now.nanos) (h : s.Takes e u) :
    s₀.Spent key v u where
  requests := Nat.le_trans hs.requests h.lengths.2.1
  loads := Nat.le_trans hs.loads h.lengths.2.2
  landed _ _ := hs.landed_after h
  reply _ _ := hs.reply_after hp hfast.reachable.wired h
  ending _ _ := hs.ending_after hd hclock h
  asked _ _ _ _ _ := hs.asked_after h
  waits _ _ _ hr hq hk hp _ _ := hs.waits_after hfast.reachable.wired h hr hq hk hp
  served r q hr hq hk hpeer hans := by
    by_cases hbefore : s.cluster.requests[r]? = some q
    · exact hs.served r q hr hbefore hk hpeer hans
    · rw [(hs.answers hd hfast hclock h hr hq hk hans hbefore).2.1] at hpeer
      cases hpeer
  hot i _ := hs.hot_after hd h (hfast.reachable.holds i)

/-- It starts when no load of the key is in flight. -/
theorem of_landed (hlanded : ∀ a ∈ s.cluster.loads, a.load.key = key → a.phase.isFlying = false) :
    s.Spent key v s := by
  have hload {n : Nat} {a : LoadTask} (hn : s.cluster.loads.length ≤ n) (ha : s.cluster.loads[n]? = some a) :
      False := by
    rw [List.getElem?_eq_none hn] at ha
    cases ha
  have hrequest {r : Nat} {q : Request} (hr : s.cluster.requests.length ≤ r)
      (hq : s.cluster.requests[r]? = some q) : False := by
    rw [List.getElem?_eq_none hr] at hq
    cases hq
  constructor
  case requests => exact Nat.le_refl _
  case loads => exact Nat.le_refl _
  case landed => exact fun n a _ ha => hlanded a (List.mem_of_getElem? ha)
  case reply => exact fun n a hn ha => (hload hn ha).elim
  case ending => exact fun n a hn ha => (hload hn ha).elim
  case asked => exact fun n a p x r hn ha => (hload hn ha).elim
  case waits => exact fun r q k hr hq => (hrequest hr hq).elim
  case served => exact fun r q hr hq => (hrequest hr hq).elim
  case hot => exact fun i x hx _ => hx

end Spent

/-! ## In a run -/

/-- What is known in all states of a run from a moment at which no load of the key is in flight, while
the clock has reached `t`. -/
theorem spent_run (hd : s.Dated key v t ttl) (hfast : s.Steadfast key)
    (hlanded : ∀ a ∈ s.cluster.loads, a.load.key = key → a.phase.isFlying = false)
    (h : Along step (Fleeting key v t ttl) s es) (hlate : ∀ e ∈ es, ∀ now ∈ e.clock?, t.nanos ≤ now.nanos) :
    (s.run es).Dated key v t ttl ∧ (s.run es).Steadfast key ∧ s.Spent key v (s.run es) := by
  refine keeps (I := fun w => w.Dated key v t ttl ∧ w.Steadfast key ∧ s.Spent key v w) ?_
    ⟨hd, hfast, Spent.of_landed hlanded⟩ (h.and (along_of_forall fun e he _ => hlate e he))
  rintro w e ⟨hdated, hsteady, hspent⟩ ⟨hp, hclock⟩ ht
  exact ⟨hdated.step hp hsteady.reachable ht, hsteady.step hp.setPeers ht, hspent.step hdated hsteady hp hclock ht⟩

/-- A lifetime that begins no later ends no later. -/
theorem expires_before {x : Entry} {d : Duration} {began latest limit now : Instant}
    (hx : x.expireAt = Expiration.default.resolve (some d) began) (hbegan : began.nanos ≤ latest.nanos)
    (hlimit : latest.after? d = some limit) (hlive : x.isExpiredAt now = false) : now.nanos < limit.nanos := by
  obtain ⟨hspan, heq, hle⟩ := Instant.after?_eq_some_iff.mp hlimit
  have hafter : began.after? d = some ⟨began.nanos + d.nanos⟩ :=
    Instant.after?_eq_some_iff.mpr ⟨hspan, rfl, by show began.nanos + d.nanos ≤ _; omega⟩
  have hexpire : x.expireAt = some ⟨began.nanos + d.nanos⟩ := hx.trans hafter
  unfold Entry.isExpiredAt at hlive
  rw [hexpire] at hlive
  have hnot := of_decide_eq_false hlive
  show now.nanos < limit.nanos
  have hlt : now.nanos < began.nanos + d.nanos := Int.lt_of_not_ge hnot
  omega

/-- **A value with an expiry, or its copies.**  Let a value come under a key only by sets that expire at
`t`, on whichever node: no source says it, and a fetch brings it only from a node that has it.  Rings and
the default lifetime are what they are.  Take a moment at or after `t` at which no load of the key is in
flight.  Of the requests that come after it, none gets the value on a node that owns the key; and where
another node still answers with it, this is a copy which its hot tier had at that moment, and which
expires a default lifetime after the load began that fetched it.  So if all up to the moment has happened
by an instant, then a default lifetime after this instant nobody gets the value any more. -/
theorem expires_or_copied (founders : List Founder) (as bs : List Event) (key : String) (v : ByteArray)
    (t : Instant) (ttl : Option Duration) (hconfig : ∀ a ∈ founders, a.config.itemExpiration = ttl)
    (h : Along step (Fleeting key v t ttl) (start founders) (as ++ bs)) :
    let s := (start founders).run as
    (∀ a ∈ s.cluster.loads, a.load.key = key → a.phase.isFlying = false) →
    (∀ e ∈ bs, ∀ now ∈ e.clock?, t.nanos ≤ now.nanos) →
    ∀ (cs : List Event) (f : Event) (ds : List Event), bs = cs ++ f :: ds →
    let w := s.run cs
    ∀ (r : Nat) (q : Request), s.cluster.requests.length ≤ r → w.cluster.requests[r]? ≠ some q →
      (w.step f).cluster.requests[r]? = some q → q.key = key → q.phase = .answered (.ok v) →
      w.owns q.host key = false ∧ ∃ (x : Entry) (n : Nat) (now began : Instant), f = .plain (.advance r now) ∧
        s.held? q.host .hot key = some x ∧ x.value = v ∧ x.isExpiredAt now = false ∧
        Copied founders as q.host key x n began ∧ x.expireAt = Expiration.default.resolve ttl began ∧
        ∀ (d : Duration) (latest limit : Instant), ttl = some d → (∀ e ∈ as, ∀ now ∈ e.clock?, now.nanos ≤ latest.nanos) →
          latest.after? d = some limit → now.nanos < limit.nanos := by
  intro s hlanded hlate cs f ds hbs w r q hr hbefore hafter hk hp
  subst hbs
  obtain ⟨has, hcs⟩ := along_append.mp h
  have hdated : s.Dated key v t ttl := dated_run hconfig has
  have hfast : s.Steadfast key := keeps (I := Steadfast key) (fun hs hp ht => hs.step hp.setPeers ht)
    (steadfast_start founders key) has
  obtain ⟨hdated', hfast', hspent⟩ := spent_run hdated hfast hlanded (along_append.mp hcs).1
    fun e he => hlate e (List.mem_append_left _ he)
  have hclock : ∀ now ∈ f.clock?, t.nanos ≤ now.nanos :=
    hlate f (List.mem_append_right _ List.mem_cons_self)
  rcases w.step_cases f with hsame | ht
  · rw [hsame] at hafter
    exact absurd hafter hbefore
  · obtain ⟨howns, -, x, now, hf, hx, hlive, hv⟩ := hspent.answers hdated' hfast' hclock ht hr hafter hk hp hbefore
    have hcopy := hspent.hot q.host x hx hv
    obtain ⟨n, began, hcopied, hexpire⟩ := exists_copied hconfig has hcopy hv
    refine ⟨howns, x, n, now, began, hf, hcopy, hv, hlive, hcopied, hexpire, fun d latest limit hd hlatest hlimit => ?_⟩
    obtain ⟨es, ds, a, hsplit, -⟩ := hcopied.begins
    have hbegan : Event.plain (.work n began) ∈ as := hsplit ▸ List.mem_append_right _ List.mem_cons_self
    rw [hd] at hexpire
    exact expires_before hexpire (hlatest _ hbegan began rfl) hlimit hlive

/-- Two nodes, and a default lifetime. -/
def shortLived : List Founder :=
  twoOwners.map fun a => { a with config := { a.config with itemExpiration := some ⟨50⟩ } }

/-- The owner sets a key to expire at 100, and the other node fetches it in time. -/
def copiedInTime : List Event :=
  [.set 1 "1" ⟨#[7]⟩ (.at ⟨100⟩) ⟨80⟩, .get 0 "1", .advance 0 ⟨81⟩, .advance 0 ⟨82⟩, .advance 0 ⟨83⟩,
    .advance 0 ⟨84⟩, .work 0 ⟨90⟩, .deliver 0 1, .advance 1 ⟨91⟩, .advance 1 ⟨92⟩, .advance 1 ⟨93⟩].map .plain ++
  [.reply 0 (.fetch (.returned (.ok ⟨#[7]⟩))), .settle 0 ⟨94⟩, .plain (.work 0 ⟨95⟩), .plain (.hear 0)]

/-- Both nodes are asked when the clock has reached 100. -/
def askedLate : List Event :=
  [.get 0 "1", .get 1 "1", .advance 2 ⟨100⟩, .advance 3 ⟨101⟩, .advance 3 ⟨102⟩].map .plain

theorem expires_or_copied_in_time :
    let s := (start shortLived).run copiedInTime
    let w := s.run askedLate
    ((∀ a ∈ shortLived, a.config.itemExpiration = some ⟨50⟩) ∧
      Along step (Fleeting "1" ⟨#[7]⟩ ⟨100⟩ (some ⟨50⟩)) (start shortLived)
        (copiedInTime ++ (askedLate ++ [.plain (.advance 2 ⟨103⟩)])) ∧
      (w.step (.plain (.advance 2 ⟨103⟩))).cluster.requests[2]? =
        some ⟨0, "1", false, .answered (.ok ⟨#[7]⟩)⟩) ∧
    w.owns 0 "1" = false ∧ ∃ (x : Entry) (n : Nat) (began : Instant), s.held? 0 .hot "1" = some x ∧
      Copied shortLived copiedInTime 0 "1" x n began ∧
      x.expireAt = Expiration.default.resolve (some ⟨50⟩) began := by
  have h : decide (Along step (Fleeting "1" ⟨#[7]⟩ ⟨100⟩ (some ⟨50⟩)) (start shortLived)
        (copiedInTime ++ (askedLate ++ [.plain (.advance 2 ⟨103⟩)]))) = true ∧
      (((start shortLived).run copiedInTime).cluster.loads.all fun a => !a.phase.isFlying) = true ∧
      ((start shortLived).run copiedInTime).cluster.requests.length = 2 ∧
      (((start shortLived).run copiedInTime).run askedLate).cluster.requests[2]? =
        some ⟨0, "1", false, .looking ⟨"b:1"⟩⟩ ∧
      ((((start shortLived).run copiedInTime).run askedLate).step (.plain (.advance 2 ⟨103⟩))).cluster.requests[2]? =
        some ⟨0, "1", false, .answered (.ok ⟨#[7]⟩)⟩ := by
    unfold shortLived
    rw [twoOwners_eq]
    cbv
  obtain ⟨hfleeting, hlanded, hlength, hbefore, hafter⟩ := h
  replace hfleeting := of_decide_eq_true hfleeting
  have hconfig : ∀ a ∈ shortLived, a.config.itemExpiration = some ⟨50⟩ := by
    intro a ha
    obtain ⟨b, -, rfl⟩ := List.mem_map.mp ha
    rfl
  have hlate : ∀ e ∈ askedLate ++ [.plain (.advance 2 ⟨103⟩)], ∀ now ∈ e.clock?, (100 : Int) ≤ now.nanos := by
    decide
  have hne : (((start shortLived).run copiedInTime).run askedLate).cluster.requests[2]? ≠
      some ⟨0, "1", false, .answered (.ok ⟨#[7]⟩)⟩ := by
    rw [hbefore]
    rintro ⟨⟩
  obtain ⟨howns, x, n, now, began, -, hx, -, -, hcopied, hexpire, -⟩ :=
    expires_or_copied shortLived copiedInTime _ "1" ⟨#[7]⟩ ⟨100⟩ (some ⟨50⟩) hconfig hfleeting
      (fun a ha _ => by simpa using List.all_eq_true.mp hlanded a ha) hlate askedLate _ [] rfl 2 _
      (Nat.le_of_eq hlength) hne hafter rfl rfl
  exact ⟨⟨hconfig, hfleeting, hafter⟩, howns, x, n, began, hx, hcopied, hexpire⟩

/-- A get joins a load that has found the value before it expires. -/
def joinedLate : List Event :=
  [.get 1 "1", .advance 0 ⟨1⟩, .advance 0 ⟨2⟩, .advance 0 ⟨3⟩, .set 1 "1" ⟨#[7]⟩ (.at ⟨100⟩) ⟨4⟩, .work 0 ⟨5⟩,
    .get 1 "1", .advance 1 ⟨100⟩, .advance 1 ⟨101⟩, .advance 1 ⟨102⟩, .work 0 ⟨103⟩].map .plain

/-- **An expiry does not bind copies**, nor loads in flight.  Without a default lifetime the copy never
expires; and a get that comes after the expiry, at the owner, gets the value from a load that has begun
before. -/
theorem copy_outlives_expiry :
    let w := (start twoOwners).run (copiedInTime ++ askedLate)
    let u := (start twoOwners).run joinedLate
    (Along step (Fleeting "1" ⟨#[7]⟩ ⟨100⟩ none) (start twoOwners) (copiedInTime ++ askedLate) ∧
      w.held? 0 .hot "1" = some ⟨⟨#[7]⟩, none⟩ ∧
      (w.step (.plain (.advance 2 ⟨1000⟩))).cluster.requests[2]? =
        some ⟨0, "1", false, .answered (.ok ⟨#[7]⟩)⟩) ∧
    Along step (Fleeting "1" ⟨#[7]⟩ ⟨100⟩ none) (start twoOwners) joinedLate ∧
    u.owns 1 "1" = true ∧ u.held? 1 .main "1" = none ∧
    (u.step (.plain (.hear 1))).cluster.requests[1]? = some ⟨1, "1", false, .answered (.ok ⟨#[7]⟩)⟩ := by
  have h : (decide (Along step (Fleeting "1" ⟨#[7]⟩ ⟨100⟩ none) (start twoOwners) (copiedInTime ++ askedLate)) = true ∧
      ((start twoOwners).run (copiedInTime ++ askedLate)).held? 0 .hot "1" = some ⟨⟨#[7]⟩, none⟩ ∧
      (((start twoOwners).run (copiedInTime ++ askedLate)).step (.plain (.advance 2 ⟨1000⟩))).cluster.requests[2]? =
        some ⟨0, "1", false, .answered (.ok ⟨#[7]⟩)⟩) ∧
      decide (Along step (Fleeting "1" ⟨#[7]⟩ ⟨100⟩ none) (start twoOwners) joinedLate) = true ∧
      ((start twoOwners).run joinedLate).owns 1 "1" = true ∧
      ((start twoOwners).run joinedLate).held? 1 .main "1" = none ∧
      (((start twoOwners).run joinedLate).step (.plain (.hear 1))).cluster.requests[1]? =
        some ⟨1, "1", false, .answered (.ok ⟨#[7]⟩)⟩ := by
    rw [twoOwners_eq]
    cbv
  obtain ⟨⟨hcopied, hheld, hanswer⟩, hjoined, howns, hmain, hheard⟩ := h
  exact ⟨⟨of_decide_eq_true hcopied, hheld, hanswer⟩, of_decide_eq_true hjoined, howns, hmain, hheard⟩

end Paced

end PeerCache
