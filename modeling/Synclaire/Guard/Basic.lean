import Synclaire.Error

set_option relaxedAutoImplicit false
set_option autoImplicit false

/-!
# The guard trait

Guards watch a connection through five callbacks: a reservation that may be refused, the
moment it is established, its payload, its activity, and its close. A guard has interior
mutability behind a lock, so a callback is a function from the state of the guard to a
result and the state after it; the clock reading a callback takes is passed in as `now`.

## Main definitions

* `Synclaire.GuardContext` — what a guard is told about a connection.
* `Synclaire.GuardEvent` — what an observer is told about a guard.
* `Synclaire.Guard` — the trait; callbacks that a guard does not implement do nothing.
* `Synclaire.UdpAmplificationGuard` — the stateless payload guard.
-/

namespace Synclaire

/-- What a guard is told about a connection. -/
structure GuardContext where
  peerAddr : SocketAddr
  peerIp : IpAddr
  localAddr : Option SocketAddr
  tls : Bool
  tlsServerName : Option Str
  connectedAt : Instant
  deriving DecidableEq

/-- `GuardContext::new`. -/
def GuardContext.new (peerAddr : SocketAddr) (localAddr : Option SocketAddr) (tls : Bool)
    (now : Instant) : GuardContext where
  peerAddr := peerAddr
  peerIp := peerAddr.ip
  localAddr := localAddr
  tls := tls
  tlsServerName := none
  connectedAt := now

/-- The verdict an event reports. -/
inductive GuardDecision
  | allow
  | deny (error : SynError)
  deriving DecidableEq

/-- The phase an event belongs to. -/
inductive GuardEventKind
  | reserve
  | established
  | payload
  | activity
  | close
  deriving DecidableEq

/-- What an observer is told. -/
structure GuardEvent where
  guard : Str
  kind : GuardEventKind
  peerAddr : SocketAddr
  decision : GuardDecision
  detail : Str
  occurredAt : Instant
  deriving DecidableEq

/-- The `Guard` trait over the states `G` of a guard object. -/
class Guard (G : Type*) where
  /-- `name`. -/
  name : G → Str
  /-- `on_reserve`. -/
  onReserve : G → GuardContext → Instant → Except SynError Unit × G := fun g _ _ => (.ok (), g)
  /-- `on_established`. -/
  onEstablished : G → GuardContext → Instant → Except SynError Unit × G :=
    fun g _ _ => (.ok (), g)
  /-- `on_payload`. -/
  onPayload : G → GuardContext → List UInt8 → Instant → Except SynError Unit × G :=
    fun g _ _ _ => (.ok (), g)
  /-- `on_activity`. -/
  onActivity : G → GuardContext → Instant → Except SynError Unit × G := fun g _ _ => (.ok (), g)
  /-- `on_close`. -/
  onClose : G → GuardContext → Instant → G := fun g _ _ => g

/-! ## The payload guard -/

/-- `UdpAmplificationConfig`. -/
structure UdpAmplificationConfig where
  rejectMalformedTcpProbes : Bool := true
  minimumProbeBytes : ℕ := 4
  deriving DecidableEq

/-- `UdpAmplificationGuard`. -/
structure UdpAmplificationGuard where
  config : UdpAmplificationConfig
  deriving DecidableEq

/-- The verdict of `UdpAmplificationGuard::on_payload`. -/
def UdpAmplificationGuard.onPayload (g : UdpAmplificationGuard) (payload : List UInt8) :
    Except SynError Unit :=
  if g.config.rejectMalformedTcpProbes ∧ payload.length < g.config.minimumProbeBytes then
    .error (.malformedProbe "payload too small to look like a real TCP conversation".toList)
  else if g.config.rejectMalformedTcpProbes ∧ payload.head? = some 0 then
    .error (.malformedProbe "first byte looks suspiciously empty".toList)
  else .ok ()

instance : Guard UdpAmplificationGuard where
  name _ := "udp_amplification".toList
  onPayload g _ payload _ := (g.onPayload payload, g)

end Synclaire
