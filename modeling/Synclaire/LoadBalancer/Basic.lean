import Synclaire.Error
import Synclaire.Lib.Circle
import Synclaire.Lib.Utf8

set_option relaxedAutoImplicit false
set_option autoImplicit false

/-!
# Backend pools

A pool spreads peers over backends, round robin or by consistent hashing. The consistent-hash
ring holds `replicas * weight` virtual nodes for each backend, sorted by hash, and is rebuilt
from scratch whenever the list of backends changes.

## Main definitions

* `Synclaire.Build` — what the pool depends on besides its source: overflow checks and the
  unstable sort.
* `Synclaire.BackendPool` — the pool, with `addBackend`, `removeBackend` and `select`.
* `Synclaire.BackendPool.system` — the pools that sequences of operations reach.

## Implementation notes

The operations run under the pool's lock, so each is one function on the state. A panic
releases the lock and keeps the writes made before it: `addBackend` leaves the new backend in
the list and the old ring beside it. `partition_point` is the number of leading nodes below
the key; the ring is always sorted, as its contract asks.
-/

namespace Synclaire

/-- What a peer's stickiness depends on. -/
inductive StickyKey
  | ip
  | ipPort
  deriving DecidableEq

/-- How a pool picks a backend. -/
inductive LoadBalancerStrategy
  | roundRobin
  | consistentHash (replicas : UInt32) (sticky : StickyKey)
  deriving DecidableEq

/-- A backend and its weight. -/
structure Backend where
  addr : SocketAddr
  weight : UInt32
  deriving DecidableEq

/-- `Backend::new`. -/
def Backend.new (addr : SocketAddr) : Backend := ⟨addr, 1⟩

/-- `Backend::with_weight`: a weight of at least one. -/
def Backend.withWeight (b : Backend) (weight : UInt32) : Backend :=
  { b with weight := max weight 1 }

/-! ## FNV-1a hash -/

/-- `FNV_OFFSET`. -/
def fnvOffset : UInt64 := 14695981039346656037

/-- `FNV_PRIME`. -/
def fnvPrime : UInt64 := 1099511628211

/-- `fnv1a`. -/
def fnv1a (bytes : List UInt8) : UInt64 :=
  bytes.foldl (fun h b => (h ^^^ b.toUInt64) * fnvPrime) fnvOffset

/-- `hash_addr_ip`. -/
def hashAddrIp (addr : SocketAddr) : UInt64 :=
  fnv1a (Utf8.encode ("ip:".toList ++ addr.ip.toStr))

/-- `hash_addr_ipport`. -/
def hashAddrIpport (addr : SocketAddr) : UInt64 :=
  fnv1a (Utf8.encode ("ipport:".toList ++ addr.toStr))

/-- The hash of the virtual node `addr#i`. -/
def nodeHash (addr : SocketAddr) (i : ℕ) : UInt64 :=
  fnv1a (Utf8.encode (addr.toStr ++ '#' :: decimal i))

/-! ## The ring -/

/-- A virtual node: its hash and the position of its backend. -/
structure RingNode where
  hash : UInt64
  backendIdx : ℕ
  deriving DecidableEq

/-- What the pool depends on besides its source: whether the build checks arithmetic for
overflow, and what `sort_unstable_by_key` by hash makes of a list. -/
structure Build where
  /-- Whether `*` panics on overflow; it wraps otherwise. -/
  overflowChecks : Bool
  /-- `sort_unstable_by_key(|n| n.hash)`. -/
  sortUnstable : List RingNode → List RingNode
  /-- Sorting keeps the elements. -/
  sort_perm : ∀ ring, (sortUnstable ring).Perm ring
  /-- Sorting sorts; the order of equal hashes is left open. -/
  sort_sorted : ∀ ring, (sortUnstable ring).Pairwise fun a b => a.hash.toNat ≤ b.hash.toNat

/-- The contents of a pool. -/
structure PoolInner where
  backends : List Backend
  strategy : LoadBalancerStrategy
  ring : List RingNode
  deriving DecidableEq

/-- `replicas * weight`. -/
def virtualNodes (B : Build) (replicas weight : UInt32) : Except Panic UInt32 :=
  if B.overflowChecks ∧ 2 ^ 32 ≤ replicas.toNat * weight.toNat then .error .arithmeticOverflow
  else .ok (replicas * weight)

/-- The virtual nodes of the backend at position `idx`. -/
def backendNodes (B : Build) (replicas : UInt32) (idx : ℕ) (backend : Backend) :
    Except Panic (List RingNode) := do
  let count ← virtualNodes B replicas backend.weight
  return (List.range count.toNat).map fun i => ⟨nodeHash backend.addr i, idx⟩

/-- The virtual nodes of all backends, the first at position `idx`. -/
def collectNodes (B : Build) (replicas : UInt32) :
    ℕ → List Backend → Except Panic (List RingNode)
  | _, [] => .ok []
  | idx, backend :: rest => do
    let nodes ← backendNodes B replicas idx backend
    let others ← collectNodes B replicas (idx + 1) rest
    return nodes ++ others

/-- `PoolInner::rebuild_ring`. -/
def PoolInner.rebuildRing (B : Build) (inner : PoolInner) : Except Panic PoolInner :=
  match inner.strategy with
  | .roundRobin => .ok inner
  | .consistentHash replicas _ => do
    let nodes ← collectNodes B replicas 0 inner.backends
    return { inner with ring := B.sortUnstable nodes }

/-! ## The pool -/

/-- A backend pool; the counter is a wrapping `usize`. -/
structure BackendPool where
  inner : PoolInner
  rrCounter : UInt64
  deriving DecidableEq

namespace BackendPool

/-- `BackendPool::round_robin`. -/
def roundRobin (backends : List Backend) : BackendPool where
  inner := ⟨backends, .roundRobin, []⟩
  rrCounter := 0

/-- `BackendPool::consistent_hash`. -/
def consistentHash (B : Build) (backends : List Backend) (replicas : UInt32)
    (sticky : StickyKey) : Except Panic BackendPool := do
  let inner ← PoolInner.rebuildRing B ⟨backends, .consistentHash replicas sticky, []⟩
  return ⟨inner, 0⟩

/-- The pool once `rebuild_ring` has returned or panicked on the new contents. -/
def rebuilt {α : Type} (B : Build) (p : BackendPool) (inner : PoolInner) (result : α) :
    Except Panic α × BackendPool :=
  match inner.rebuildRing B with
  | .ok inner => (.ok result, { p with inner })
  | .error e => (.error e, { p with inner })

/-- `BackendPool::add_backend`. -/
def addBackend (B : Build) (p : BackendPool) (backend : Backend) :
    Except Panic Unit × BackendPool :=
  rebuilt B p { p.inner with backends := p.inner.backends ++ [backend] } ()

/-- `BackendPool::remove_backend`: every backend with the address goes; the ring is rebuilt
only if there was one. -/
def removeBackend (B : Build) (p : BackendPool) (addr : SocketAddr) :
    Except Panic Bool × BackendPool :=
  let backends := p.inner.backends.filter fun b => b.addr ≠ addr
  if backends.length < p.inner.backends.length then
    rebuilt B p { p.inner with backends } true
  else (.ok false, { p with inner := { p.inner with backends } })

/-- `BackendPool::backends`. -/
def backends (p : BackendPool) : List SocketAddr := p.inner.backends.map Backend.addr

/-- `BackendPool::len`. -/
def len (p : BackendPool) : ℕ := p.inner.backends.length

/-- The address of the backend at a position. -/
def addrAt (p : BackendPool) (idx : ℕ) : Except Panic (Option SocketAddr) :=
  match p.inner.backends[idx]? with
  | some backend => .ok (some backend.addr)
  | none => .error .indexOutOfBounds

/-- The hash under which a peer is looked up. -/
def keyHash (sticky : StickyKey) (peer : SocketAddr) : UInt64 :=
  match sticky with
  | .ip => hashAddrIp peer
  | .ipPort => hashAddrIpport peer

/-- The lookup in the ring: the first node at or above the key, or the first node of all. -/
def lookup (p : BackendPool) (key : UInt64) : Except Panic (Option SocketAddr) :=
  let idx := Circle.partitionPoint (fun node => node.hash.toNat < key.toNat) p.inner.ring
  match p.inner.ring[idx % p.inner.ring.length]? with
  | some node => p.addrAt node.backendIdx
  | none => .error .indexOutOfBounds

/-- `BackendPool::select`. -/
def select (p : BackendPool) (peer : SocketAddr) :
    Except Panic (Option SocketAddr) × BackendPool :=
  if p.inner.backends = [] then (.ok none, p)
  else
    match p.inner.strategy with
    | .roundRobin =>
      (p.addrAt (p.rrCounter.toNat % p.len), { p with rrCounter := p.rrCounter + 1 })
    | .consistentHash _ sticky =>
      if p.inner.ring = [] then (p.addrAt 0, p)
      else (p.lookup (keyHash sticky peer), p)

/-! ## Runs -/

/-- An operation on a pool. -/
inductive Op
  | add (backend : Backend)
  | remove (addr : SocketAddr)
  | select (peer : SocketAddr)

/-- The pool after an operation. -/
def after (B : Build) (p : BackendPool) : Op → BackendPool
  | .add backend => (p.addBackend B backend).2
  | .remove addr => (p.removeBackend B addr).2
  | .select peer => (p.select peer).2

end BackendPool

end Synclaire
