import Synclaire.Lib.FMap
import Synclaire.Guard.Basic

set_option relaxedAutoImplicit false
set_option autoImplicit false

/-!
# The slow-client guard

`SlowLoris` remembers when it last saw activity of a connection and fails a connection that was
idle for too long. It tracks a bounded number of connections and forgets the one that was idle
longest when there are more.

## Main definitions

* `Synclaire.BoundedActivityMap` — the last activity of the tracked connections.
* `Synclaire.SlowLoris` — the guard, with `note` and `checkIdle`.

## Implementation notes

The order queue may hold entries that a later activity has outdated; the sequence number tells
which one is live. `checkIdle` adds two durations and panics if they overflow; a panicking
callback is an error of the call it runs in.
-/

namespace Synclaire

/-- `SlowLorisConfig`. -/
structure SlowLorisConfig where
  idleTimeout : Duration := .fromSecs 15
  gracePeriod : Duration := .fromSecs 3
  maxTrackedConnections : ℕ := 100000
  deriving DecidableEq

/-- `ActivityEntry`. -/
structure ActivityEntry where
  lastSeen : Instant
  seq : UInt64
  deriving DecidableEq

/-- `BoundedActivityMap`. -/
structure BoundedActivityMap where
  map : FMap SocketAddr ActivityEntry
  order : List (SocketAddr × UInt64)
  max : ℕ
  nextSeq : UInt64
  deriving DecidableEq

namespace BoundedActivityMap

/-- `BoundedActivityMap::new`. -/
def new (bound : ℕ) : BoundedActivityMap := ⟨∅, [], Max.max bound 1, 0⟩

/-- The queue entry is the live one of its connection. -/
def isLive (map : FMap SocketAddr ActivityEntry) (entry : SocketAddr × UInt64) : Bool :=
  (map.lookup entry.1).any fun e => e.seq = entry.2

/-- The loop of `evict_oldest_live` over the queue. -/
def evictLoop : List (SocketAddr × UInt64) → BoundedActivityMap → BoundedActivityMap
  | [], m => { m with order := [] }
  | entry :: rest, m =>
    if isLive m.map entry then { m with map := m.map.erase entry.1, order := rest }
    else evictLoop rest m

/-- `BoundedActivityMap::evict_oldest_live`. -/
def evictOldestLive (m : BoundedActivityMap) : BoundedActivityMap := evictLoop m.order m

/-- `BoundedActivityMap::compact_order`. -/
def compactOrder (m : BoundedActivityMap) : BoundedActivityMap :=
  { m with order := m.order.filter (isLive m.map) }

/-- The compaction with which `note` and `remove` end. -/
def maybeCompactOrder (m : BoundedActivityMap) : BoundedActivityMap :=
  if Max.max (saturatingMul m.max 4) 16 < m.order.length then m.compactOrder else m

/-- `BoundedActivityMap::note`. -/
def note (m : BoundedActivityMap) (addr : SocketAddr) (now : Instant) : BoundedActivityMap :=
  let seq := m.nextSeq + 1
  let isNew := decide (addr ∉ m.map)
  let m := { m with
    nextSeq := seq
    map := m.map.insert addr ⟨now, seq⟩
    order := m.order ++ [(addr, seq)] }
  let m := if isNew ∧ m.max < m.map.keys.card then m.evictOldestLive else m
  m.maybeCompactOrder

/-- `BoundedActivityMap::get`. -/
def get (m : BoundedActivityMap) (addr : SocketAddr) : Option Instant :=
  (m.map.lookup addr).map ActivityEntry.lastSeen

/-- `BoundedActivityMap::remove`. -/
def remove (m : BoundedActivityMap) (addr : SocketAddr) : BoundedActivityMap :=
  { m with map := m.map.erase addr }.maybeCompactOrder

end BoundedActivityMap

/-- `SlowLoris`. -/
structure SlowLoris where
  config : SlowLorisConfig
  lastActivity : BoundedActivityMap
  deriving DecidableEq

namespace SlowLoris

/-- `SlowLoris::new`. -/
def new (config : SlowLorisConfig) : SlowLoris := ⟨config, .new config.maxTrackedConnections⟩

/-- `SlowLoris::note`. -/
def note (g : SlowLoris) (addr : SocketAddr) (now : Instant) : SlowLoris :=
  { g with lastActivity := g.lastActivity.note addr now }

/-- `SlowLoris::check_idle`. -/
def checkIdle (g : SlowLoris) (addr : SocketAddr) (now : Instant) :
    Except Panic (Except SynError Unit) :=
  match g.lastActivity.get addr with
  | some lastActivity =>
    match g.config.idleTimeout.checkedAdd g.config.gracePeriod with
    | some limit =>
      if limit.nanos < now.durationSince lastActivity then
        .ok (.error (.timeout g.config.idleTimeout "reading from a very slow client".toList))
      else .ok (.ok ())
    | none => .error .arithmeticOverflow
  | none => .ok (.ok ())

/-- `SlowLoris::on_activity`. -/
def onActivity (g : SlowLoris) (ctx : GuardContext) (now : Instant) :
    Except SynError Unit × SlowLoris :=
  match g.checkIdle ctx.peerAddr now with
  | .ok (.ok ()) => (.ok (), g.note ctx.peerAddr now)
  | .ok (.error err) => (.error err, g)
  | .error _ => (.error (.runtime "overflow when adding durations".toList), g)

end SlowLoris

instance : Guard SlowLoris where
  name _ := "slow_loris".toList
  onReserve g ctx now := (.ok (), g.note ctx.peerAddr now)
  onPayload g ctx _ now := (.ok (), g.note ctx.peerAddr now)
  onActivity := SlowLoris.onActivity
  onClose g ctx _ := { g with lastActivity := g.lastActivity.remove ctx.peerAddr }

end Synclaire
