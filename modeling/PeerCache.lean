import PeerCache.Cache.Capacity
import PeerCache.Cache.Entry
import PeerCache.Cache.Shard
import PeerCache.Cache.Tally
import PeerCache.Cache.Tier
import PeerCache.CommandLine.Flag
import PeerCache.CommandLine.LogFilter
import PeerCache.CommandLine.LogRecord
import PeerCache.CommandLine.Options
import PeerCache.CommandLine.Startup
import PeerCache.Coordinator
import PeerCache.Coordinator.Calls
import PeerCache.Decimal.Shortest
import PeerCache.Error
import PeerCache.Files.Path
import PeerCache.Files.Tree
import PeerCache.Group.Backfill
import PeerCache.Group.Basic
import PeerCache.Group.Config
import PeerCache.GroupsFile
import PeerCache.Hash
import PeerCache.Http.Framing
import PeerCache.Http.Message
import PeerCache.Http.Status
import PeerCache.Http.Target
import PeerCache.Http.Url
import PeerCache.Json.Basic
import PeerCache.Json.Reader
import PeerCache.Main
import PeerCache.Membership
import PeerCache.Network.Basic
import PeerCache.Network.Call
import PeerCache.Network.Run
import PeerCache.Node
import PeerCache.Node.Server
import PeerCache.Peer
import PeerCache.Proofs.Cache.Ageing
import PeerCache.Proofs.Cache.Budget
import PeerCache.Proofs.Cache.Conservation
import PeerCache.Proofs.Cache.Contents
import PeerCache.Proofs.Cache.Eviction
import PeerCache.Proofs.Cache.OneKey
import PeerCache.Proofs.Cache.Recency
import PeerCache.Proofs.Cache.Shard
import PeerCache.Proofs.Cache.SingleList
import PeerCache.Proofs.Cache.Soundness
import PeerCache.Proofs.Cache.Tail
import PeerCache.Proofs.Cluster.Agreement
import PeerCache.Proofs.Cluster.Basic
import PeerCache.Proofs.Cluster.Broadcast
import PeerCache.Proofs.Cluster.Contents
import PeerCache.Proofs.Cluster.Descent
import PeerCache.Proofs.Cluster.Endings
import PeerCache.Proofs.Cluster.Entries
import PeerCache.Proofs.Cluster.Errors
import PeerCache.Proofs.Cluster.Expiry
import PeerCache.Proofs.Cluster.OneHop
import PeerCache.Proofs.Cluster.Paced
import PeerCache.Proofs.Cluster.Progress
import PeerCache.Proofs.Cluster.Provenance
import PeerCache.Proofs.Cluster.Removal
import PeerCache.Proofs.Cluster.Residence
import PeerCache.Proofs.Cluster.Sequential
import PeerCache.Proofs.Cluster.SetAcrossRings
import PeerCache.Proofs.Cluster.SetVisibility
import PeerCache.Proofs.Cluster.Steps
import PeerCache.Proofs.Cluster.Transparency
import PeerCache.Proofs.Cluster.Wiring
import PeerCache.Proofs.Coordinator.Flights
import PeerCache.Proofs.Coordinator.Records
import PeerCache.Proofs.Coordinator.SingleFlight
import PeerCache.Proofs.Coordinator.Waiters
import PeerCache.Proofs.Files.Path
import PeerCache.Proofs.Group.Acts
import PeerCache.Proofs.Group.Counters
import PeerCache.Proofs.Group.Directory
import PeerCache.Proofs.Group.Failures
import PeerCache.Proofs.Group.Lookups
import PeerCache.Proofs.Group.OneKey
import PeerCache.Proofs.Group.Refresh
import PeerCache.Proofs.Group.Steps
import PeerCache.Proofs.Group.Traffic
import PeerCache.Proofs.Lists
import PeerCache.Proofs.Node.Failures
import PeerCache.Proofs.Node.Requests
import PeerCache.Proofs.Node.Responses
import PeerCache.Proofs.Registry.Registration
import PeerCache.Proofs.Ring.Address
import PeerCache.Proofs.Ring.Clockwise
import PeerCache.Proofs.Ring.Endpoint
import PeerCache.Proofs.Ring.Lookup
import PeerCache.Proofs.Ring.Membership
import PeerCache.Proofs.Ring.Ownership
import PeerCache.Proofs.Ring.Shares
import PeerCache.Proofs.Ring.Totality
import PeerCache.Proofs.Runs
import PeerCache.Proofs.Stats.Mirror
import PeerCache.Proofs.Stats.TextFormat
import PeerCache.Proofs.Text.Numeral
import PeerCache.Proofs.Time.Deadline
import PeerCache.Proofs.Time.Lifetime
import PeerCache.Proofs.Wire.Codec
import PeerCache.Proofs.Wire.Errors
import PeerCache.Proofs.Wire.Naming
import PeerCache.Proofs.Wire.Percent
import PeerCache.Registry
import PeerCache.Ring
import PeerCache.SocketAddress
import PeerCache.Stats.Exposition
import PeerCache.Stats.Snapshot
import PeerCache.Text.Blank
import PeerCache.Text.Bytes
import PeerCache.Text.Numeral
import PeerCache.Text.Printable
import PeerCache.Text.Utf8
import PeerCache.Time.Instant
import PeerCache.Time.Lifetime
import PeerCache.Time.Rfc3339
import PeerCache.Wire.Client
import PeerCache.Wire.ErrorCode
import PeerCache.Wire.Path
import PeerCache.Wire.Percent
import PeerCache.Yaml.Cursor
import PeerCache.Yaml.Node
import PeerCache.Yaml.Reader
import PeerCache.Yaml.Scalar
import PeerCache.Yaml.Token
