import Overacp.Lib.Tally
import Overacp.Lib.Along
import Overacp.Lib.RecentLog
import Overacp.Lib.Throttle
import Overacp.Lib.BoundedFifo
import Overacp.Lib.Transition
import Overacp.Lib.Channel
import Overacp.Lib.Custody
import Overacp.Lib.CustodyOrder
import Overacp.Lib.Prog
import Overacp.Lib.ProgLoop
import Overacp.Lib.ProgTwin
import Overacp.Lib.ProgEnsures
import Overacp.Lib.ProgGuarded
import Overacp.Lib.Pieces
import Overacp.Lib.Slots
import Overacp.Lib.Utf8
import Overacp.Lib.Hex
import Overacp.Lib.Percent
import Overacp.Lib.PathPattern
import Overacp.Lib.UnixPath
import Overacp.Lib.Json.Value
import Overacp.Lib.Json.Text
import Overacp.Lib.Json.RoundTrip
import Overacp.Lib.Json.Read
import Overacp.Lib.Json.Literals
import Overacp.Lib.Json.Canonical
import Overacp.Lib.Json.Integer
import Overacp.Lib.Json.Extent
import Overacp.Lib.Json.Shape
import Overacp.Lib.Json.Record
import Overacp.Lib.LuaNumber
import Overacp.Lib.Redis
import Overacp.Lib.RedisRank
import Overacp.Lib.RedisStream
import Overacp.Lib.RedisEntries
import Overacp.Protocol.Messages
import Overacp.Protocol.History
import Overacp.Common.SentryRateLimit
import Overacp.Compute.Config.Reference
import Overacp.Compute.Config.Grammar
import Overacp.Server.Registry.Agent
import Overacp.Server.Registry.UuidText
import Overacp.Server.Registry.Queue
import Overacp.Server.Registry.Lease
import Overacp.Server.Registry.Listing
import Overacp.Server.Registry.Race
import Overacp.Server.Auth
import Overacp.Server.Routes
import Overacp.Server.Api.Agents
import Overacp.Server.Api.Tokens
import Overacp.Server.Tunnel.Dispatch
import Overacp.Server.Tunnel.Responses
import Overacp.Server.Tunnel.Broker
import Overacp.Server.Tunnel.Stranded
import Overacp.Server.Tunnel.Ownership
import Overacp.Server.Tunnel.Labelled
import Overacp.Server.Tunnel.Erasure
import Overacp.Server.Tunnel.Handover
import Overacp.Server.Tunnel.Custody
import Overacp.Server.Tunnel.Order
import Overacp.Server.Redis.Lease
import Overacp.Server.Redis.Listing
import Overacp.Server.Redis.Connected
import Overacp.Server.Redis.Heartbeat
import Overacp.Server.Redis.Equivalence
import Overacp.Server.Redis.Registry
import Overacp.Server.Redis.Takeover
import Overacp.Server.Redis.Owners
import Overacp.Server.Redis.Inbox
import Overacp.Server.Redis.Recovery
import Overacp.Server.Redis.Drain
import Overacp.Server.Redis.DeadLetter
import Overacp.Server.Redis.Queue
import Overacp.Agent.Bridge
import Overacp.Loop.Llm.Types
import Overacp.Loop.Llm.Blocks
import Overacp.Loop.Llm.Stream
import Overacp.Loop.Llm.Chunking
import Overacp.Loop.Llm.Sse
import Overacp.Loop.Llm.StreamedText
import Overacp.Loop.Llm.ToolCalls
import Overacp.Loop.Llm.Retry
import Overacp.Loop.Llm.Client
import Overacp.Loop.Acp
import Overacp.Loop.SessionMessage
import Overacp.Loop.Compaction
import Overacp.Loop.SafeSplit
import Overacp.Loop.Tools.Registry
import Overacp.Loop.Tools.Definitions
import Overacp.Loop.Tools.Builtin
import Overacp.Loop.Tools.Results
import Overacp.Loop.AgenticLoop
import Overacp.Loop.CompactionRounds
import Overacp.Loop.Footprint
import Overacp.Loop.ToolRound
import Overacp.Loop.Checks
import Overacp.Loop.TurnEnd
import Overacp.Loop.UsageAccount
import Overacp.Loop.Session
import Overacp.Loop.Resolve
import Overacp.Loop.SessionCap
import Overacp.Loop.Scaffolding
import Overacp.Loop.Requests
import Overacp.Loop.Pushes
import Overacp.Loop.Cancel
import Overacp.Loop.Config
import Overacp.Loop.Twins
import Overacp.Loop.Observability
import Overacp.Loop.Truncation
import Overacp.Loop.Arithmetic
import Overacp.Loop.Totals
import Overacp.Loop.Launch
import Overacp.Loop.Estimate
import Overacp.Loop.Snapshot
import Overacp.Loop.ContextCompacted
import Overacp.Lib.Broadcast
import Overacp.Lib.Rpc
import Overacp.Lib.Json.Decimal
import Overacp.Server.Tunnel.StreamBroker
import Overacp.Loop.Outbound
import Overacp.Wire.Exchange
import Overacp.Wire.Answers
import Overacp.Wire.Progress
import Overacp.Wire.Delivery
import Overacp.Loop.Pairing
import Overacp.Lib.Json.Sealed
import Overacp.Loop.BrokenOff
import Overacp.Server.Redis.StreamBroker
import Overacp.Lib.SortedMap
import Overacp.Lib.Holdings
import Overacp.Compute.Providers.Local
import Overacp.Compute.Providers.Account
import Overacp.Compute.Providers.Turns
import Overacp.Compute.Providers.Agents
import Overacp.Lib.WriteOnce
import Overacp.Compute.Config.File
import Overacp.Compute.Config.Snapshot
import Overacp.Agent.Tunnel
import Overacp.Wire.Handshake
