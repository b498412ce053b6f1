import PeerCache.Decimal.Shortest
import PeerCache.Stats.Snapshot

/-!
# Exposition text

Snapshots as metrics in the text format that monitoring systems collect.  A family has a help line,
a type line and a sample for each of its label values; families stand in order of their names and
samples in order of their label values, and a family without samples is left out.

Snapshots of one group add up in counters, while a gauge keeps the last.  In label values a
backslash, a quote and a line end are escaped, so no value can end its line or its quotes.  Amounts
are doubles: up to 2 ^ 53 they are shown exactly.
-/

namespace PeerCache.Exposition

/-! ## Families -/

inductive Kind where
  | counter
  | gauge
  deriving Repr, DecidableEq

def Kind.text : Kind → String
  | counter => "counter"
  | gauge => "gauge"

structure Sample where
  /-- The values of the family's labels, in their order. -/
  labels : List String
  value : Nat
  deriving Repr, DecidableEq

structure Family where
  name : String
  help : String
  kind : Kind
  labels : List String
  samples : List Sample
  deriving Repr, DecidableEq

/-- Adds a sample, into the one with its label values if there is one.  That each combination of label
values has a metric of its own is the documented behaviour of the metrics library; how the library looks
one up is not modelled. -/
def record (kind : Kind) (s : Sample) : List Sample → List Sample
  | [] => [s]
  | t :: rest =>
    if t.labels = s.labels then
      (match kind with
        | .counter => ⟨t.labels, t.value + s.value⟩
        | .gauge => s) :: rest
    else t :: record kind s rest

/-- A family with a sample for each of some label values of every snapshot. -/
def family (name help : String) (kind : Kind) (labels : List String)
    (read : Snapshot → List Sample) (ss : List Snapshot) : Family :=
  ⟨name, help, kind, labels, (ss.flatMap read).foldl (fun acc s => record kind s acc) []⟩

/-- A family with one sample for a group. -/
def perGroup (name help : String) (kind : Kind) (read : Snapshot → Nat) : List Snapshot → Family :=
  family name help kind ["group"] fun s => [⟨[s.group], read s⟩]

/-- A family with one sample for each tier of a group. -/
def perTier (name help : String) (kind : Kind) (read : TierStats → Nat) : List Snapshot → Family :=
  family name help kind ["group", "tier"] fun s =>
    [⟨[s.group, "main"], read s.main⟩, ⟨[s.group, "hot"], read s.hot⟩]

def requests : List Snapshot → Family :=
  family "groupcache_requests_total" "Requests by outcome" .counter ["group", "outcome"] fun s =>
    [⟨[s.group, "hit"], s.counters.hits⟩, ⟨[s.group, "miss"], s.counters.misses⟩,
      ⟨[s.group, "peer"], s.counters.peerRequests⟩]

/-- All families, in order of their names. -/
def families (ss : List Snapshot) : List Family :=
  [perGroup "groupcache_backfill_errors_total" "Backfill calls that produced no value" .counter
      (·.counters.backfillErrors) ss,
    perGroup "groupcache_backfills_total" "Backfill calls" .counter (·.counters.backfills) ss,
    perGroup "groupcache_coalesced_total" "Gets that joined a load already in flight" .counter
      (·.coordinator.coalesced) ss,
    perGroup "groupcache_loads_in_flight" "Loads in flight" .gauge (·.coordinator.inFlight) ss,
    perGroup "groupcache_peer_fetch_errors_total" "Failed fetches from owning peers" .counter
      (·.counters.peerFetchErrors) ss,
    perGroup "groupcache_peer_fetches_total" "Fetches from owning peers" .counter
      (·.counters.peerFetches) ss,
    requests ss,
    perTier "groupcache_tier_bytes" "Key and value bytes held" .gauge (·.bytesStored) ss,
    perTier "groupcache_tier_evictions_total" "Entries evicted to make room" .counter
      (·.evictions) ss,
    perTier "groupcache_tier_expirations_total" "Entries dropped after expiring" .counter
      (·.expirations) ss,
    perTier "groupcache_tier_items" "Entries held" .gauge (·.items) ss]

/-! ## Text -/

def escapeChar : Char → List Char
  | '\\' => ['\\', '\\']
  | '"' => ['\\', '"']
  | '\n' => ['\\', 'n']
  | c => [c]

def escape (s : String) : String := String.ofList (s.toList.flatMap escapeChar)

def labelText (name value : String) : String := name ++ "=\"" ++ escape value ++ "\""

/-- The text of an amount, which is that of the nearest double. -/
def amountText (n : Nat) : String :=
  if n ≤ 0x20000000000000 then toString n
  else
    let d := Decimal.shortest (Float.ofNat n)
    toString d.digits ++ String.ofList (List.replicate d.exponent.toNat '0')

def sampleText (f : Family) (s : Sample) : String :=
  f.name ++ "\x7b" ++ ",".intercalate (List.zipWith labelText f.labels s.labels) ++ "\x7d " ++
    amountText s.value ++ "\n"

/-- The order of label values, the first label first. -/
def labelsLe : List String → List String → Bool
  | [], _ => true
  | _ :: _, [] => false
  | a :: as, b :: bs => if a < b then true else if b < a then false else labelsLe as bs

def familyText (f : Family) : String :=
  if f.samples.isEmpty then ""
  else
    "# HELP " ++ f.name ++ " " ++ f.help ++ "\n# TYPE " ++ f.name ++ " " ++ f.kind.text ++ "\n" ++
      String.join ((f.samples.mergeSort fun a b => labelsLe a.labels b.labels).map (sampleText f))

def render (ss : List Snapshot) : String := String.join ((families ss).map familyText)

end PeerCache.Exposition
