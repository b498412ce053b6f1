import Mathlib
import PeerCache.Proofs.Cluster.Basic

/-!
# Clusters at their own pace

In a `Cluster` a load takes its answer and stores it in one step.  Here these are two, and anything
can happen between them: an answer arrives (`Event.reply`), and the load settles it later
(`Event.settle`).  What a backfill or a peer answers is open, so a source may say something else
each time it is asked.

    queued → asking | fetching → the same with a reply → ended → released
-/

namespace PeerCache

/-- What has come back to a load. -/
inductive LoadReply where
  | backfill (a : Answer)
  | fetch (e : Ending)

namespace LoadReply

/-- The value that a load stores when it settles the reply. -/
def value? : LoadReply → Option ByteArray
  | backfill (.value v) => some v
  | fetch (.returned (.ok v)) => some v
  | _ => none

end LoadReply

/-- Whether a load that has come so far waits for a reply of this kind. -/
def LoadPhase.awaits : LoadPhase → LoadReply → Bool
  | asking .., .backfill _ => true
  | fetching .., .fetch _ => true
  | _, _ => false

/-- A load settles the reply that has come to it. -/
def Member.settleReply? (m : Member) (t : LoadTask) (r : LoadReply) (now : Instant) :
    Option (Group × LoadPhase) :=
  match t.phase, r with
  | .asking _ expireAt, .backfill a =>
    let (g, e) := m.group.settleBackfill t.load expireAt a now
    some (g, .ended e)
  | .fetching _ expireAt _, .fetch e =>
    let (g, e) := m.group.settleFetch t.load expireAt e now
    some (g, .ended e)
  | _, _ => none

def LoadPhase.isAsking : LoadPhase → Bool
  | asking .. => true
  | _ => false

/-- Whether a load would take its answer and store it in this one step. -/
def Cluster.settles (s : Cluster) : Cluster.Event → Bool
  | .work n _ => s.loads[n]?.any fun t => t.phase.isAsking
  | .respond .. | .endFetch .. => true
  | _ => false

structure Paced where
  cluster : Cluster
  /-- All replies with the loads that they came to, the latest first. -/
  replies : List (Nat × LoadReply) := []

namespace Paced

/-! ## Steps -/

/-- The reply that has come to a load, settled or not. -/
def reply? (s : Paced) (n : Nat) : Option LoadReply := s.replies.lookup n

/-- A new reply is that of its load, and of no other. -/
theorem reply?_cons (s : Paced) (n : Nat) (r : LoadReply) (k : Nat) :
    reply? { s with replies := (n, r) :: s.replies } k = if k = n then some r else s.reply? k := by
  unfold reply?
  rw [List.lookup_cons]
  by_cases hk : k = n
  · rw [if_pos hk, hk, beq_self_eq_true]
  · rw [if_neg hk, beq_eq_false_iff_ne.mpr hk]

/-- The same replies in a cluster that has changed. -/
def on (s : Paced) (c : Cluster) : Paced := { s with cluster := c }

inductive Event where
  /-- A step of the cluster in which no load settles. -/
  | plain (e : Cluster.Event)
  | reply (load : Nat) (r : LoadReply)
  | settle (load : Nat) (now : Instant)

/-- A reply comes to a load, once. -/
def receive? (s : Paced) (n : Nat) (r : LoadReply) : Option Paced := do
  let t ← s.cluster.loads[n]?
  if t.phase.awaits r && (s.reply? n).isNone then some { s with replies := (n, r) :: s.replies } else none

def settle? (s : Paced) (n : Nat) (now : Instant) : Option Paced := do
  let t ← s.cluster.loads[n]?
  let m ← s.cluster.members[t.host]?
  let r ← s.reply? n
  let (g, p) ← m.settleReply? t r now
  some (s.on ((s.cluster.setGroup t.host g).setLoad n p))

/-- One step; nothing if it is not possible. -/
def step? (s : Paced) : Event → Option Paced
  | .plain e => if s.cluster.settles e then none else (s.cluster.step? e).map s.on
  | .reply n r => s.receive? n r
  | .settle n now => s.settle? n now

/-- A step that is not possible changes nothing. -/
def step (s : Paced) (e : Event) : Paced := (s.step? e).getD s

def run (s : Paced) (es : List Event) : Paced := es.foldl step s

def start (founders : List Founder) : Paced := { cluster := Cluster.start founders }

/-- A state that some run comes to. -/
def Reachable (s : Paced) : Prop := ∃ founders es, s = (start founders).run es

theorem step?_eq {s : Paced} {e : Event} (h : (s.step? e).isSome) : s.step? e = some (s.step e) := by
  obtain ⟨u, hu⟩ := Option.isSome_iff_exists.mp h
  unfold step
  rw [hu]
  rfl

theorem step_eq {s u : Paced} {e : Event} (h : s.step? e = some u) : s.step e = u := by
  unfold step
  rw [h]
  rfl

theorem step_of_none {s : Paced} {e : Event} (h : s.step? e = none) : s.step e = s := by
  unfold step
  rw [h]
  rfl

theorem run_append (s : Paced) (as bs : List Event) : s.run (as ++ bs) = (s.run as).run bs :=
  List.foldl_append

theorem Reachable.step {s : Paced} (hs : s.Reachable) (e : Event) : (s.step e).Reachable := by
  obtain ⟨founders, es, rfl⟩ := hs
  exact ⟨founders, es ++ [e], (run_append _ es [e]).symm⟩

/-! ## An example -/

/-- Two nodes on one ring, with few points and small tiers; the first owns `k`, the other one `1`. -/
def twoOwners : List Founder :=
  ["a:1", "b:1"].map fun addr =>
    { membership := ⟨⟨addr⟩, ⟨40⟩, {}, Ring.build [⟨"a:1"⟩, ⟨"b:1"⟩] 40⟩,
      config :=
        { name := "g", main := ⟨.items 10, 1⟩, hot := ⟨.items 10, 1⟩,
          backfill := some (.table [("k", ⟨#[0]⟩), ("1", ⟨#[0]⟩)]) } }

/-- The ring of the two nodes, written out: a known answer of `Ring.build`. -/
def ringOfTwo : Ring :=
  ⟨[⟨"a:1"⟩, ⟨"b:1"⟩],
    [⟨265215603729023673, ⟨"b:1"⟩, 16⟩, ⟨453845879922054162, ⟨"a:1"⟩, 5⟩, ⟨473879687483938051, ⟨"b:1"⟩, 25⟩,
      ⟨666834304231752181, ⟨"b:1"⟩, 10⟩, ⟨738413515772977128, ⟨"b:1"⟩, 7⟩, ⟨1214291599291173482, ⟨"a:1"⟩, 9⟩,
      ⟨1397419200063745700, ⟨"a:1"⟩, 19⟩, ⟨1585820829035917621, ⟨"a:1"⟩, 25⟩, ⟨1611768072074381687, ⟨"a:1"⟩, 38⟩,
      ⟨2141556614508215471, ⟨"b:1"⟩, 35⟩, ⟨2460041263935328971, ⟨"b:1"⟩, 12⟩, ⟨2497578864416957038, ⟨"a:1"⟩, 30⟩,
      ⟨2622712714838094667, ⟨"b:1"⟩, 9⟩, ⟨2633585143133236944, ⟨"b:1"⟩, 14⟩, ⟨2689713673419660401, ⟨"a:1"⟩, 8⟩,
      ⟨2913627421177784094, ⟨"a:1"⟩, 13⟩, ⟨3351468556607958279, ⟨"a:1"⟩, 1⟩, ⟨3455086208423509779, ⟨"a:1"⟩, 14⟩,
      ⟨3722486097110772910, ⟨"a:1"⟩, 28⟩, ⟨4371107310760846571, ⟨"b:1"⟩, 8⟩, ⟨4590269652275062200, ⟨"a:1"⟩, 37⟩,
      ⟨4722837650508407018, ⟨"b:1"⟩, 2⟩, ⟨4811500926051136100, ⟨"b:1"⟩, 21⟩, ⟨4827807174170900658, ⟨"a:1"⟩, 23⟩,
      ⟨5008360806554236828, ⟨"b:1"⟩, 22⟩, ⟨5546430630496723488, ⟨"a:1"⟩, 3⟩, ⟨5631486010868039047, ⟨"b:1"⟩, 24⟩,
      ⟨5770560924939977485, ⟨"b:1"⟩, 18⟩, ⟨6047715530903436284, ⟨"b:1"⟩, 6⟩, ⟨6292101245426884002, ⟨"a:1"⟩, 12⟩,
      ⟨6866888969775364023, ⟨"a:1"⟩, 2⟩, ⟨7079738651470584093, ⟨"b:1"⟩, 4⟩, ⟨7195842947584169228, ⟨"a:1"⟩, 39⟩,
      ⟨7368930516928095450, ⟨"b:1"⟩, 33⟩, ⟨7394808187922067943, ⟨"a:1"⟩, 26⟩, ⟨7563844110910196554, ⟨"b:1"⟩, 20⟩,
      ⟨7643362112837502667, ⟨"b:1"⟩, 11⟩, ⟨8177867141831932898, ⟨"b:1"⟩, 32⟩, ⟨8606476206102774702, ⟨"b:1"⟩, 23⟩,
      ⟨8608380757783888906, ⟨"a:1"⟩, 36⟩, ⟨8648805120306056124, ⟨"b:1"⟩, 27⟩, ⟨8708743655564702670, ⟨"a:1"⟩, 15⟩,
      ⟨8960074573863923090, ⟨"b:1"⟩, 15⟩, ⟨8976178108030999788, ⟨"b:1"⟩, 19⟩, ⟨9465028895581394228, ⟨"b:1"⟩, 31⟩,
      ⟨9562507959243816943, ⟨"a:1"⟩, 33⟩, ⟨10074014217858906946, ⟨"a:1"⟩, 11⟩, ⟨10159361685914433504, ⟨"b:1"⟩, 3⟩,
      ⟨10263453585351988580, ⟨"b:1"⟩, 38⟩, ⟨10559096466426531600, ⟨"a:1"⟩, 21⟩, ⟨10609682367516164679, ⟨"a:1"⟩, 16⟩,
      ⟨11180769277059258177, ⟨"a:1"⟩, 18⟩, ⟨11447823157305525756, ⟨"b:1"⟩, 28⟩, ⟨11558858683728192045, ⟨"a:1"⟩, 27⟩,
      ⟨11733761224273013836, ⟨"b:1"⟩, 5⟩, ⟨12805623081943823775, ⟨"b:1"⟩, 0⟩, ⟨13300377942076735227, ⟨"b:1"⟩, 34⟩,
      ⟨13736426692861389732, ⟨"b:1"⟩, 30⟩, ⟨14058768555240995258, ⟨"a:1"⟩, 0⟩, ⟨14227807711067280618, ⟨"b:1"⟩, 17⟩,
      ⟨14246742024324622526, ⟨"a:1"⟩, 24⟩, ⟨14388125451658101563, ⟨"a:1"⟩, 34⟩, ⟨14472012841419618730, ⟨"a:1"⟩, 32⟩,
      ⟨14552933342060851954, ⟨"a:1"⟩, 20⟩, ⟨14571836722065959789, ⟨"b:1"⟩, 37⟩, ⟨14609930769479878356, ⟨"a:1"⟩, 29⟩,
      ⟨14628174584988567843, ⟨"a:1"⟩, 22⟩, ⟨15181955110663578359, ⟨"a:1"⟩, 10⟩, ⟨15212814098185032864, ⟨"b:1"⟩, 1⟩,
      ⟨16268735546015448510, ⟨"b:1"⟩, 36⟩, ⟨16425402020258396589, ⟨"a:1"⟩, 31⟩, ⟨16982126860691518422, ⟨"a:1"⟩, 4⟩,
      ⟨17341613289895301141, ⟨"b:1"⟩, 39⟩, ⟨17486455686414084352, ⟨"a:1"⟩, 17⟩, ⟨17555641660217365089, ⟨"a:1"⟩, 6⟩,
      ⟨17572857221493066061, ⟨"b:1"⟩, 29⟩, ⟨17641377179683367843, ⟨"b:1"⟩, 26⟩, ⟨17675067770943847461, ⟨"a:1"⟩, 35⟩,
      ⟨17919116017001747210, ⟨"b:1"⟩, 13⟩, ⟨18067700259204996449, ⟨"a:1"⟩, 7⟩], 40⟩

theorem build_two : Ring.build [⟨"a:1"⟩, ⟨"b:1"⟩] 40 = ringOfTwo := by
  cbv

/-- The two nodes with their ring written out, so that a run from here is evaluated without hashing its
points. -/
theorem twoOwners_eq : twoOwners = ["a:1", "b:1"].map fun addr =>
    { membership := ⟨⟨addr⟩, ⟨40⟩, {}, ringOfTwo⟩,
      config :=
        { name := "g", main := ⟨.items 10, 1⟩, hot := ⟨.items 10, 1⟩,
          backfill := some (.table [("k", ⟨#[0]⟩), ("1", ⟨#[0]⟩)]) } } := by
  unfold twoOwners
  rw [build_two]

/-- Two nodes with one point each, for runs in which rings are built; the second one owns `1`. -/
def sparseOwners : List Founder :=
  ["a:1", "b:1"].map fun addr =>
    { membership := ⟨⟨addr⟩, ⟨1⟩, {}, Ring.build [⟨"a:1"⟩, ⟨"b:1"⟩] 1⟩,
      config := { name := "g", main := ⟨.items 10, 1⟩, hot := ⟨.items 10, 1⟩ } }

/-- A load of a key that the first node owns has started, but not begun. -/
def queuedLoad : Paced :=
  (start twoOwners).run ([.get 0 "k", .advance 0 ⟨1⟩, .advance 0 ⟨2⟩, .advance 0 ⟨3⟩].map .plain)

theorem reachable_queuedLoad : queuedLoad.Reachable := ⟨twoOwners, _, rfl⟩

/-- The load has looked into the main tier, and asks its source. -/
def askingLoad : Paced := queuedLoad.step (.plain (.work 0 ⟨4⟩))

/-- A load of a key that the other node owns has started, but not begun. -/
def queuedFetch : Paced :=
  (start twoOwners).run
    ([.get 0 "1", .advance 0 ⟨1⟩, .advance 0 ⟨2⟩, .advance 0 ⟨3⟩, .advance 0 ⟨4⟩].map .plain)

end Paced

end PeerCache
