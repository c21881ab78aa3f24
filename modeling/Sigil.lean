import Sigil.Library.Transition
import Sigil.Library.Replication
import Sigil.Library.LogMatching
import Sigil.Library.LeaderCompleteness
import Sigil.Cluster.Raft
import Sigil.Cluster.Network
import Sigil.Cluster.Coupling
import Sigil.Cluster.Simulation
import Sigil.Cluster.Safety
import Sigil.Edr.Gateway
import Sigil.Sigma.Correlation
import Sigil.Sigma.OutOfOrder
import Sigil.Sigma.ConditionText
import Sigil.Sigma.Denotation
import Sigil.Index.Writes
import Sigil.Index.Hunting
import Sigil.Index.Interleaving
import Sigil.Index.HuntRace
import Sigil.Api.SavedReads
import Sigil.Api.Rules
import Sigil.Storage.Alerts
import Sigil.Api.ConfigExt
import Sigil.Core.Slices
import Sigil.Core.Record
import Sigil.Ingest.Syslog
import Sigil.Ingest.Rfc3164
import Sigil.Ingest.Rfc5424
import Sigil.Ingest.Cef
import Sigil.Ingest.CefRoundTrip
import Sigil.Api.Dsl
import Sigil.Api.DslTemplate
import Sigil.Api.Redaction
import Sigil.Edr.Delivery
import Sigil.Edr.Results
import Sigil.Ingest.FileInput
import Sigil.Cluster.Cursors
import Sigil.Cluster.Elections
import Sigil.Cluster.MatchIndex
import Sigil.Cluster.OneVote
import Sigil.Cluster.Transport
import Sigil.Config.Plan
import Sigil.Core.Extrema
import Sigil.Core.HashMap
import Sigil.Correlate.Campaign
import Sigil.Correlate.Causal
import Sigil.Correlate.Components
import Sigil.Correlate.Hnsw
import Sigil.Correlate.HnswExact
import Sigil.Correlate.KillChain
import Sigil.Ingest.Template
import Sigil.Sigma.Presence
import Sigil.Library.Rows
import Sigil.Sigma.Groups
import Sigil.Sigma.References
import Sigil.Sigma.Live
import Sigil.Library.Brackets
import Sigil.Sigma.ConditionList
import Sigil.Index.Durations
import Sigil.Index.Atomicity
import Sigil.Library.Expressions
import Sigil.Sigma.Globs
import Sigil.Library.Packed
import Sigil.Storage.SavedMap
import Sigil.Api.StructuredConfig
import Sigil.Detect.Ioc
import Sigil.Edr.Isolation
import Sigil.Edr.Map
import Sigil.Library.Addresses
import Sigil.Agent.Isolate
import Sigil.Agent.Session
import Sigil.Ingest.Leef
import Sigil.Ingest.LeefRoundTrip
import Sigil.Api.DslGrammar
import Sigil.Api.DslPipeline
import Sigil.Api.DslMeaning
import Sigil.Cluster.Shards
import Sigil.Eval.Sequences
import Sigil.Eval.RandIndex
import Sigil.Graph.Neighbourhood
import Sigil.Ingest.Rotation
import Sigil.Ingest.Variables
import Sigil.Correlate.Reproducible
import Sigil.Library.WordBounds
import Sigil.Normalize.Normalizer
import Sigil.Normalize.UserOffset
import Sigil.Library.BoundedQueue
import Sigil.Storage.AlertList
import Sigil.Api.AlertRing
import Sigil.Cli.Node
import Sigil.Cli.Tiers
import Sigil.Cli.Journal
import Sigil.Cli.LiveHunt
import Sigil.Cli.Failures
import Sigil.Cluster.Driver
import Sigil.Cluster.Addresses
import Sigil.Cluster.DriverRefines
import Sigil.Cluster.DriverSafety
import Sigil.Library.Courier
import Sigil.Edr.Fleet
import Sigil.Edr.Execution
import Sigil.Agent.Collectors
import Sigil.Agent.Inventory
import Sigil.Api.Authentication
import Sigil.Api.Platform
import Sigil.Api.Authority
import Sigil.Cli.Startup
import Sigil.Cli.Documents
