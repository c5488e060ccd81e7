import Synclaire.Lib.Transition
import Synclaire.Lib.Table
import Synclaire.Guard.StackLifecycle
import Synclaire.Guard.SynGuardSessions
import Synclaire.Guard.ThrottleRefusals
import Synclaire.LoadBalancer.History
import Synclaire.Server.Rollback
import Synclaire.Server.ConnectionCap
import Synclaire.Server.AsyncRun
import Synclaire.Proxy.Relay
import Synclaire.Proxy.ConnectOrder
import Synclaire.Proxy.Rotation
import Synclaire.Metrics.Concurrent
import Synclaire.Metrics.Gauges
import Synclaire.Proxy.Spread
import Synclaire.Proxy.Client
import Synclaire.Guard.RateLimiterBudget
import Synclaire.Guard.RateLimiterStarvation
import Synclaire.Server.Establish
import Synclaire.Proxy.CopyLoop
import Synclaire.Lib.Queue
import Synclaire.Guard.SynGuardBounds
import Synclaire.Guard.SynGuardEviction
import Synclaire.Guard.SynGuardTimeout
import Synclaire.Guard.SlowLorisRun
import Synclaire.Guard.SlowLorisVerdict
import Synclaire.Guard.ThrottleEntries
import Synclaire.Lib.Window
import Synclaire.Guard.RateLimiterWindow
import Synclaire.Guard.StackEstablished
import Synclaire.Guard.StackAudit
import Synclaire.Proxy.Base64Language
import Synclaire.Lib.LeadingBits
import Synclaire.Routing.Prefix
import Synclaire.Routing.Builder
import Synclaire.Lib.Residue
import Synclaire.LoadBalancer.RoundRobin
import Synclaire.LoadBalancer.Weights
import Synclaire.Metrics.Latency
import Synclaire.Guard.PayloadSegments
import Synclaire.Proxy.HeaderBlock
import Synclaire.Proxy.FieldNames
import Synclaire.Lib.Fifo
import Synclaire.Guard.RateLimiterEntries
import Synclaire.Server.Drain
import Synclaire.Guard.StackLive
import Synclaire.Server.Footprint
import Synclaire.Proxy.Serving
import Synclaire.Proxy.Ledgers
import Synclaire.Guard.StackTimely
import Synclaire.Server.Lifecycle
import Synclaire.Proxy.Lifecycle
import Synclaire.Metrics.Snapshot
import Synclaire.Metrics.SnapshotViews
import Synclaire.Proxy.Tunnel
import Synclaire.Lib.Pipeline
import Synclaire.Handler.Connection
import Synclaire.Handler.GuardedReads
import Synclaire.Proxy.Withdrawal
import Synclaire.Metrics.SnapshotSamples
