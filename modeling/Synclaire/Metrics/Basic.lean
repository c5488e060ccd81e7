import Synclaire.Lib.FMap
import Synclaire.Values

set_option relaxedAutoImplicit false
set_option autoImplicit false

/-!
# Metrics

A `MetricsCollector` counts connections, failures and latencies three times: in atomics for the
whole process, and in two locked maps by server name and by peer address. A public function
reaches these stores one after the other, and other threads may come between: a function is the
list of its *sections*, each of them one atomic update or what is done under one lock.

## Main definitions

* `Synclaire.MetricsCollector` — the stores.
* `Synclaire.MetricsSection`, `Synclaire.MetricsSection.run` — an atomic update or lock section.
* `Synclaire.MetricsCollector.recordTcpConnection` and the others — the public functions, as
  their sections.
* `Synclaire.MetricsCollector.run` — a function that runs alone.

## Implementation notes

Every counter is a `u64`. The additions wrap: `fetch_add` does so always, and `+=` in a build
without overflow checks.
-/

namespace Synclaire

/-! ## The stores -/

/-- `PerServerMetrics`. -/
structure PerServerMetrics where
  tcp : UInt64
  tls : UInt64
  mtls : UInt64
  active : UInt64
  failures : UInt64
  latencySumMs : UInt64
  latencyCount : UInt64
  deriving DecidableEq

/-- `PerIpMetrics`. -/
structure PerIpMetrics where
  connections : UInt64
  active : UInt64
  failures : UInt64
  latencySumMs : UInt64
  latencyCount : UInt64
  deriving DecidableEq

/-- `MetricsCollector`, without its callbacks. -/
structure MetricsCollector where
  tcpTotal : UInt64
  tlsTotal : UInt64
  mtlsTotal : UInt64
  failed : UInt64
  active : UInt64
  latencySumMs : UInt64
  latencyCount : UInt64
  minLatencyMs : UInt64
  maxLatencyMs : UInt64
  perServer : FMap Str PerServerMetrics
  perIp : FMap IpAddr PerIpMetrics
  deriving DecidableEq

/-- `MetricsCollector::new`. -/
def MetricsCollector.new : MetricsCollector where
  tcpTotal := 0
  tlsTotal := 0
  mtlsTotal := 0
  failed := 0
  active := 0
  latencySumMs := 0
  latencyCount := 0
  minLatencyMs := 0xFFFFFFFFFFFFFFFF
  maxLatencyMs := 0
  perServer := ∅
  perIp := ∅

/-- Which of the three functions records a connection. -/
inductive ConnectionKind
  | tcp
  | tls
  | mtls
  deriving DecidableEq

namespace PerServerMetrics

/-- A connection is added to the entry of its server. -/
def connected (kind : ConnectionKind) (m : PerServerMetrics) : PerServerMetrics :=
  match kind with
  | .tcp => { m with tcp := m.tcp + 1, active := m.active + 1 }
  | .tls => { m with tls := m.tls + 1, active := m.active + 1 }
  | .mtls => { m with mtls := m.mtls + 1, active := m.active + 1 }

/-- The entry that the first connection to a server makes. -/
def ofConnection : ConnectionKind → PerServerMetrics
  | .tcp => ⟨1, 0, 0, 1, 0, 0, 0⟩
  | .tls => ⟨0, 1, 0, 1, 0, 0, 0⟩
  | .mtls => ⟨0, 0, 1, 1, 0, 0, 0⟩

/-- A failure is added to the entry of its server. -/
def failed (m : PerServerMetrics) : PerServerMetrics := { m with failures := m.failures + 1 }

/-- A connection of the server is closed, unless none is open. -/
def closed (m : PerServerMetrics) : PerServerMetrics :=
  if 0 < m.active then { m with active := m.active - 1 } else m

/-- A latency is added to the entry of its server. -/
def delayed (latencyMs : UInt64) (m : PerServerMetrics) : PerServerMetrics :=
  { m with latencySumMs := m.latencySumMs + latencyMs, latencyCount := m.latencyCount + 1 }

/-- The total of one kind. -/
def total (kind : ConnectionKind) (m : PerServerMetrics) : UInt64 :=
  match kind with
  | .tcp => m.tcp
  | .tls => m.tls
  | .mtls => m.mtls

end PerServerMetrics

namespace PerIpMetrics

/-- A connection is added to the entry of its address. -/
def connected (m : PerIpMetrics) : PerIpMetrics :=
  { m with connections := m.connections + 1, active := m.active + 1 }

/-- A failure is added to the entry of its address. -/
def failed (m : PerIpMetrics) : PerIpMetrics := { m with failures := m.failures + 1 }

/-- A connection of the address is closed, unless none is open. -/
def closed (m : PerIpMetrics) : PerIpMetrics :=
  if 0 < m.active then { m with active := m.active - 1 } else m

/-- A latency is added to the entry of its address. -/
def delayed (latencyMs : UInt64) (m : PerIpMetrics) : PerIpMetrics :=
  { m with latencySumMs := m.latencySumMs + latencyMs, latencyCount := m.latencyCount + 1 }

end PerIpMetrics

/-! ## Sections -/

/-- An atomic update, or what is done under one lock. -/
inductive MetricsSection
  | addTotal (kind : ConnectionKind)
  | addActive
  | serverConnected (kind : ConnectionKind) (name : Str)
  | ipConnected (ip : IpAddr)
  | addFailed
  | serverFailed (name : Str)
  | ipFailed (ip : IpAddr)
  | subActive
  | serverClosed (name : Str)
  | ipClosed (ip : IpAddr)
  | addLatency (latencyMs : UInt64)
  | countLatency
  | lowerMinLatency (latencyMs : UInt64)
  | raiseMaxLatency (latencyMs : UInt64)
  | serverLatency (name : Str) (latencyMs : UInt64)
  | ipLatency (ip : IpAddr) (latencyMs : UInt64)
  deriving DecidableEq

/-- What a section does to the stores. -/
def MetricsSection.run (m : MetricsCollector) : MetricsSection → MetricsCollector
  | .addTotal .tcp => { m with tcpTotal := m.tcpTotal + 1 }
  | .addTotal .tls => { m with tlsTotal := m.tlsTotal + 1 }
  | .addTotal .mtls => { m with mtlsTotal := m.mtlsTotal + 1 }
  | .addActive => { m with active := m.active + 1 }
  | .serverConnected kind name =>
    { m with perServer := FMap.upsert m.perServer name (.connected kind) (.ofConnection kind) }
  | .ipConnected ip => { m with perIp := FMap.upsert m.perIp ip .connected ⟨1, 1, 0, 0, 0⟩ }
  | .addFailed => { m with failed := m.failed + 1 }
  | .serverFailed name =>
    { m with perServer := FMap.upsert m.perServer name .failed ⟨0, 0, 0, 0, 1, 0, 0⟩ }
  | .ipFailed ip => { m with perIp := FMap.upsert m.perIp ip .failed ⟨0, 0, 1, 0, 0⟩ }
  -- `fetch_update` with `saturating_sub`
  | .subActive => { m with active := if m.active = 0 then 0 else m.active - 1 }
  | .serverClosed name => { m with perServer := FMap.adjust m.perServer name .closed }
  | .ipClosed ip => { m with perIp := FMap.adjust m.perIp ip .closed }
  | .addLatency latencyMs => { m with latencySumMs := m.latencySumMs + latencyMs }
  | .countLatency => { m with latencyCount := m.latencyCount + 1 }
  | .lowerMinLatency latencyMs =>
    if latencyMs < m.minLatencyMs then { m with minLatencyMs := latencyMs } else m
  | .raiseMaxLatency latencyMs =>
    if m.maxLatencyMs < latencyMs then { m with maxLatencyMs := latencyMs } else m
  | .serverLatency name latencyMs =>
    { m with perServer := FMap.adjust m.perServer name (.delayed latencyMs) }
  | .ipLatency ip latencyMs =>
    { m with perIp := FMap.adjust m.perIp ip (.delayed latencyMs) }

/-! ## The public functions -/

namespace MetricsCollector

/-- The section of a function under the lock of the map by server: none without a name. -/
def serverSection (serverName : Option Str) (sect : Str → MetricsSection) :
    List MetricsSection :=
  (serverName.map sect).toList

/-- What the three functions that record a connection have in common. -/
def recordConnection (kind : ConnectionKind) (serverName : Option Str) (peerIp : IpAddr) :
    List MetricsSection :=
  [.addTotal kind, .addActive] ++ serverSection serverName (.serverConnected kind) ++
    [.ipConnected peerIp]

/-- `MetricsCollector::record_tcp_connection`. -/
def recordTcpConnection (serverName : Option Str) (peerIp : IpAddr) : List MetricsSection :=
  recordConnection .tcp serverName peerIp

/-- `MetricsCollector::record_tls_connection`. -/
def recordTlsConnection (serverName : Option Str) (peerIp : IpAddr) : List MetricsSection :=
  recordConnection .tls serverName peerIp

/-- `MetricsCollector::record_mtls_connection`. -/
def recordMtlsConnection (serverName : Option Str) (peerIp : IpAddr) : List MetricsSection :=
  recordConnection .mtls serverName peerIp

/-- `MetricsCollector::record_failure`. -/
def recordFailure (serverName : Option Str) (peerIp : IpAddr) : List MetricsSection :=
  [.addFailed] ++ serverSection serverName .serverFailed ++ [.ipFailed peerIp]

/-- `MetricsCollector::record_connection_close`. -/
def recordConnectionClose (serverName : Option Str) (peerIp : IpAddr) : List MetricsSection :=
  [.subActive] ++ serverSection serverName .serverClosed ++ [.ipClosed peerIp]

/-- `MetricsCollector::record_connection_latency`. -/
def recordConnectionLatency (serverName : Option Str) (peerIp : IpAddr) (latencyMs : UInt64) :
    List MetricsSection :=
  [.addLatency latencyMs, .countLatency, .lowerMinLatency latencyMs,
      .raiseMaxLatency latencyMs] ++
    serverSection serverName (.serverLatency · latencyMs) ++ [.ipLatency peerIp latencyMs]

/-- A function that runs alone: its sections one after the other. -/
def run (m : MetricsCollector) (sections : List MetricsSection) : MetricsCollector :=
  sections.foldl MetricsSection.run m

/-- `MetricsCollector::reset`, when it runs alone. -/
def reset (_ : MetricsCollector) : MetricsCollector where
  tcpTotal := 0
  tlsTotal := 0
  mtlsTotal := 0
  failed := 0
  active := 0
  latencySumMs := 0
  latencyCount := 0
  minLatencyMs := 0xFFFFFFFFFFFFFFFF
  maxLatencyMs := 0
  perServer := ∅
  perIp := ∅

/-- The total of one kind. -/
def total (m : MetricsCollector) : ConnectionKind → UInt64
  | .tcp => m.tcpTotal
  | .tls => m.tlsTotal
  | .mtls => m.mtlsTotal

/-- What `f` reads from the entry of a server; zero if it has none. -/
def ofServer (m : MetricsCollector) (name : Str) (f : PerServerMetrics → UInt64) : ℕ :=
  ((m.perServer.lookup name).map fun e => (f e).toNat).getD 0

/-- What `f` reads from the entry of an address; zero if it has none. -/
def ofIp (m : MetricsCollector) (ip : IpAddr) (f : PerIpMetrics → UInt64) : ℕ :=
  ((m.perIp.lookup ip).map fun e => (f e).toNat).getD 0

/-- The sum over the addresses of what `f` reads from their entries. -/
def sumIps (m : MetricsCollector) (f : PerIpMetrics → UInt64) : ℕ :=
  FMap.total (fun e => (f e).toNat) m.perIp

end MetricsCollector

/-! ## Records -/

/-- What is recorded. -/
inductive MetricsRecord
  | connection (kind : ConnectionKind)
  | failure
  deriving DecidableEq

/-- The call that records. -/
def MetricsRecord.sections (record : MetricsRecord) (serverName : Option Str) (peerIp : IpAddr) :
    List MetricsSection :=
  match record with
  | .connection .tcp => MetricsCollector.recordTcpConnection serverName peerIp
  | .connection .tls => MetricsCollector.recordTlsConnection serverName peerIp
  | .connection .mtls => MetricsCollector.recordMtlsConnection serverName peerIp
  | .failure => MetricsCollector.recordFailure serverName peerIp

/-- The three functions that record a connection differ in the kind only. -/
theorem sections_connection (kind : ConnectionKind) (serverName : Option Str) (peerIp : IpAddr) :
    (MetricsRecord.connection kind).sections serverName peerIp =
      MetricsCollector.recordConnection kind serverName peerIp := by
  cases kind <;> rfl

end Synclaire
