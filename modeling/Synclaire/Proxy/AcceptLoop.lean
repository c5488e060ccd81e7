import Synclaire.Lib.Transition
import Synclaire.LoadBalancer.Representation
import Synclaire.Metrics.Basic
import Synclaire.Proxy.Header
import Synclaire.Routing.History

set_option relaxedAutoImplicit false
set_option autoImplicit false

/-!
# The accept loop of the proxies

A proxy server takes one connection after the other: it chooses a backend by its routing table or
its pool, asks the guards, and hands the connection to a thread or task of its own. Meanwhile
others change the table and the pools, and connections that are being forwarded end.

## Main definitions

* `Synclaire.ProxyIntake` — the table, the pools, the metrics, and the connection in hand.
* `Synclaire.ProxyIntake.next`, `Synclaire.acceptSystem` — the steps of the loop and of the others.
* `Synclaire.ProxyIntake.Steps` — the steps one by one, each with its guard.
* `Synclaire.ProxyIntake.MeetsEmptyPool` — a connection is sent to a pool without backends.
* `Synclaire.ProxyIntake.Accounted` — the last connection dealt with was counted once.

## Main results

* `Synclaire.ProxyIntake.steps_of_next` — what each step does.
* `Synclaire.ProxyIntake.books_of_next` — what it does to the counters.
* `Synclaire.ProxyIntake.forall_accounted_iff` — every connection is counted once iff none meets
  an empty pool.
* `Synclaire.ProxyIntake.not_forall_accounted` — with an empty pool, connections go uncounted.

## Implementation notes

The loops of both proxies take these steps; they differ in the server name of the metrics. The
table and the pools are shared, so resolving a peer and selecting a backend are two steps. The
guards may answer anything. A pool is named by its place in the list of pools.
-/

namespace Synclaire

open MetricsCollector

/-- The server name under which a proxy records. -/
def ProxyFlavor.serverName : ProxyFlavor → Str
  | .sync => "proxy".toList
  | .async => "async-proxy".toList

/-- The position that a round-robin pool will select. -/
def BackendPool.position (p : BackendPool) : Option ℕ :=
  match p.inner.strategy with
  | .roundRobin => some (p.rrCounter.toNat % p.len)
  | .consistentHash _ _ => none

/-- `backend_override`, and the pool and position at which a round-robin pool selected it. -/
structure Choice where
  backend : Option SocketAddr
  turn : Option (ℕ × ℕ)
  deriving DecidableEq

/-- Where the loop is. -/
inductive AcceptPhase
  /-- It waits for a connection. -/
  | idle
  | resolving (peer : SocketAddr)
  | selecting (peer : SocketAddr) (pool : ℕ)
  | reserving (peer : SocketAddr) (choice : Choice)
  | establishing (peer : SocketAddr) (choice : Choice)
  /-- A selection panicked, and the loop is gone. -/
  | crashed (panic : Panic)
  deriving DecidableEq

/-- What became of a connection after its backend was chosen. -/
structure Dealt where
  peer : SocketAddr
  choice : Choice
  forwarded : Bool
  deriving DecidableEq

/-- A proxy server while it runs. -/
structure ProxyIntake where
  /-- `routing`. -/
  routing : Option (RoutingTable ℕ)
  pools : List BackendPool
  metrics : MetricsCollector
  phase : AcceptPhase
  /-- The peers of the connections being forwarded. -/
  forwarding : List SocketAddr
  /-- The number of connections accepted so far. -/
  accepted : ℕ
  /-- The counters `tcp_connections_total` and `failed_connections` when the last connection was
  accepted. -/
  atAccept : UInt64 × UInt64
  /-- The connections dealt with after a backend was chosen. -/
  dealt : List Dealt

/-- A step of the loop or of the others. -/
inductive AcceptAction
  | changeTable (op : RoutingOp ℕ)
  | changePool (pool : ℕ) (op : BackendPool.Op)
  | newPool (pool : BackendPool)
  /-- A thread or task that forwarded a connection ends. -/
  | finishForward (peer : SocketAddr)
  | accept (peer : SocketAddr)
  | resolve
  | select
  | reserve (result : Except SynError Unit)
  | markEstablished (result : Except SynError Unit)

namespace ProxyIntake

/-- The counters `tcp_connections_total` and `failed_connections`. -/
def counters (s : ProxyIntake) : UInt64 × UInt64 := (s.metrics.tcpTotal, s.metrics.failed)

/-- `record_failure`, and the loop goes on. -/
def failed (flavor : ProxyFlavor) (s : ProxyIntake) (peer : SocketAddr) : ProxyIntake :=
  { s with
    metrics := s.metrics.run (recordFailure (some flavor.serverName) peer.ip)
    phase := .idle }

/-- A guard refuses a connection. -/
def refused (flavor : ProxyFlavor) (s : ProxyIntake) (peer : SocketAddr) (choice : Choice) :
    ProxyIntake :=
  { s.failed flavor peer with dealt := s.dealt ++ [⟨peer, choice, false⟩] }

/-- `record_tcp_connection`, and a thread or task forwards the connection. -/
def forwarded (flavor : ProxyFlavor) (s : ProxyIntake) (peer : SocketAddr) (choice : Choice) :
    ProxyIntake :=
  { s with
    metrics := s.metrics.run (recordTcpConnection (some flavor.serverName) peer.ip)
    phase := .idle
    forwarding := peer :: s.forwarding
    dealt := s.dealt ++ [⟨peer, choice, true⟩] }

/-- A connection is routed: by the table, if there is one, else to the pool of the configuration,
if there is one, else to its fixed backend. -/
def routed (flavor : ProxyFlavor) (backendPool : Option ℕ) (s : ProxyIntake) (peer : SocketAddr) :
    ProxyIntake :=
  match s.routing with
  | some table =>
    match table.resolve peer with
    | .forward addr => { s with phase := .reserving peer ⟨some addr, none⟩ }
    | .pool pool => { s with phase := .selecting peer pool }
    | .reject => s.failed flavor peer
  | none =>
    match backendPool with
    | some pool => { s with phase := .selecting peer pool }
    | none => { s with phase := .reserving peer ⟨none, none⟩ }

/-- What a selection makes of the connection in hand. -/
def selected (s : ProxyIntake) (peer : SocketAddr) (pool : ℕ) (p : BackendPool) : ProxyIntake :=
  let pools := s.pools.set pool (p.select peer).2
  match (p.select peer).1 with
  | .ok (some addr) =>
    { s with pools, phase := .reserving peer ⟨some addr, p.position.map fun i => (pool, i)⟩ }
  -- the socket is shut down, and the loop goes on
  | .ok none => { s with pools, phase := .idle }
  | .error panic => { s with pools, phase := .crashed panic }

/-- The state after an action, if the action is possible. -/
def next (B : Build) (flavor : ProxyFlavor) (backendPool : Option ℕ) (s : ProxyIntake) :
    AcceptAction → Option ProxyIntake
  | .changeTable op =>
    s.routing.map fun table => { s with routing := some (table.apply op) }
  | .changePool pool op =>
    s.pools[pool]?.map fun p => { s with pools := s.pools.set pool (p.after B op) }
  | .newPool pool => some { s with pools := s.pools ++ [pool] }
  | .finishForward peer =>
    if peer ∈ s.forwarding then
      some { s with
        metrics := s.metrics.run (recordConnectionClose (some flavor.serverName) peer.ip)
        forwarding := s.forwarding.erase peer }
    else none
  | .accept peer =>
    match s.phase with
    | .idle =>
      some { s with phase := .resolving peer, accepted := s.accepted + 1, atAccept := s.counters }
    | _ => none
  | .resolve =>
    match s.phase with
    | .resolving peer => some (s.routed flavor backendPool peer)
    | _ => none
  | .select =>
    match s.phase with
    | .selecting peer pool => s.pools[pool]?.map fun p => s.selected peer pool p
    | _ => none
  | .reserve result =>
    match s.phase, result with
    | .reserving peer choice, .ok _ => some { s with phase := .establishing peer choice }
    | .reserving peer choice, .error _ => some (s.refused flavor peer choice)
    | _, _ => none
  | .markEstablished result =>
    match s.phase, result with
    | .establishing peer choice, .ok _ => some (s.forwarded flavor peer choice)
    | .establishing peer choice, .error _ => some (s.refused flavor peer choice)
    | _, _ => none

/-- A loop that begins, with any table and any pools. -/
structure Begins (s : ProxyIntake) : Prop where
  metrics : s.metrics = .new
  phase : s.phase = .idle
  forwarding : s.forwarding = []
  accepted : s.accepted = 0
  dealt : s.dealt = []

/-- The pool that is to select a backend for the connection in hand. -/
def poolInHand (s : ProxyIntake) : Option BackendPool :=
  match s.phase with
  | .selecting _ pool => s.pools[pool]?
  | _ => none

/-- A connection in hand is sent to a pool without backends. -/
def MeetsEmptyPool (s : ProxyIntake) : AcceptAction → Prop
  | .select => ∃ p ∈ s.poolInHand, p.inner.backends = []
  | _ => False

instance (s : ProxyIntake) : (a : AcceptAction) → Decidable (s.MeetsEmptyPool a)
  | .select => inferInstanceAs (Decidable (∃ p ∈ s.poolInHand, _))
  | .changeTable _ => .isFalse id
  | .changePool _ _ => .isFalse id
  | .newPool _ => .isFalse id
  | .finishForward _ => .isFalse id
  | .accept _ => .isFalse id
  | .resolve => .isFalse id
  | .reserve _ => .isFalse id
  | .markEstablished _ => .isFalse id

/-- Exactly one of the two counters has grown by one since the last connection was accepted. -/
def GrewOnce (s : ProxyIntake) : Prop :=
  s.counters = (s.atAccept.1 + 1, s.atAccept.2) ∨ s.counters = (s.atAccept.1, s.atAccept.2 + 1)

/-- A loop that has dealt with its connections has counted the last one once, and all of them
together. -/
def Accounted (s : ProxyIntake) : Prop :=
  s.phase = .idle → (0 < s.accepted → s.GrewOnce) ∧
    s.metrics.tcpTotal + s.metrics.failed = .ofNat s.accepted

end ProxyIntake

/-- The runs of a proxy server; `backendPool` is the pool of its configuration. -/
def acceptSystem (B : Build) (flavor : ProxyFlavor) (backendPool : Option ℕ) :
    Transition.System ProxyIntake AcceptAction where
  init := ProxyIntake.Begins
  step s a s' := s.next B flavor backendPool a = some s'

/-! ## Steps -/

namespace ProxyIntake

variable {B : Build} {flavor : ProxyFlavor} {backendPool : Option ℕ}

/-- **What each step does.** The invariants below go by these cases. -/
inductive Steps (B : Build) (flavor : ProxyFlavor) (backendPool : Option ℕ) (s : ProxyIntake) :
    AcceptAction → ProxyIntake → Prop
  | changeTable {table : RoutingTable ℕ} {op : RoutingOp ℕ} (htable : s.routing = some table) :
      Steps B flavor backendPool s (.changeTable op) { s with routing := some (table.apply op) }
  | changePool {pool : ℕ} {op : BackendPool.Op} {p : BackendPool}
      (hpool : s.pools[pool]? = some p) :
      Steps B flavor backendPool s (.changePool pool op)
        { s with pools := s.pools.set pool (p.after B op) }
  | newPool {pool : BackendPool} :
      Steps B flavor backendPool s (.newPool pool) { s with pools := s.pools ++ [pool] }
  | finishForward {peer : SocketAddr} (hforwarding : peer ∈ s.forwarding) :
      Steps B flavor backendPool s (.finishForward peer) { s with
        metrics := s.metrics.run (recordConnectionClose (some flavor.serverName) peer.ip)
        forwarding := s.forwarding.erase peer }
  | accept {peer : SocketAddr} (hphase : s.phase = .idle) :
      Steps B flavor backendPool s (.accept peer)
        { s with phase := .resolving peer, accepted := s.accepted + 1, atAccept := s.counters }
  | resolve {peer : SocketAddr} (hphase : s.phase = .resolving peer) :
      Steps B flavor backendPool s .resolve (s.routed flavor backendPool peer)
  | select {peer : SocketAddr} {pool : ℕ} {p : BackendPool}
      (hphase : s.phase = .selecting peer pool) (hpool : s.pools[pool]? = some p) :
      Steps B flavor backendPool s .select (s.selected peer pool p)
  | reserve {peer : SocketAddr} {choice : Choice} (hphase : s.phase = .reserving peer choice) :
      Steps B flavor backendPool s (.reserve (.ok ()))
        { s with phase := .establishing peer choice }
  | refuseReserve {peer : SocketAddr} {choice : Choice} {e : SynError}
      (hphase : s.phase = .reserving peer choice) :
      Steps B flavor backendPool s (.reserve (.error e)) (s.refused flavor peer choice)
  | markEstablished {peer : SocketAddr} {choice : Choice}
      (hphase : s.phase = .establishing peer choice) :
      Steps B flavor backendPool s (.markEstablished (.ok ())) (s.forwarded flavor peer choice)
  | refuseEstablished {peer : SocketAddr} {choice : Choice} {e : SynError}
      (hphase : s.phase = .establishing peer choice) :
      Steps B flavor backendPool s (.markEstablished (.error e)) (s.refused flavor peer choice)

/-- These are all steps. -/
theorem steps_of_next {s s' : ProxyIntake} {a : AcceptAction}
    (h : s.next B flavor backendPool a = some s') : Steps B flavor backendPool s a s' := by
  cases a with
  | changeTable op =>
    obtain ⟨table, htable, rfl⟩ := Option.map_eq_some_iff.mp h
    exact .changeTable htable
  | changePool pool op =>
    obtain ⟨p, hpool, rfl⟩ := Option.map_eq_some_iff.mp h
    exact .changePool hpool
  | newPool pool =>
    obtain rfl := Option.some.inj h
    exact .newPool
  | finishForward peer =>
    unfold next at h
    dsimp only at h
    split_ifs at h with hforwarding
    obtain rfl := Option.some.inj h
    exact .finishForward hforwarding
  | accept peer =>
    unfold next at h
    dsimp only at h
    split at h
    · rename_i hphase
      obtain rfl := Option.some.inj h
      exact .accept hphase
    · cases h
  | resolve =>
    unfold next at h
    dsimp only at h
    split at h
    · rename_i peer hphase
      obtain rfl := Option.some.inj h
      exact .resolve hphase
    · cases h
  | select =>
    unfold next at h
    dsimp only at h
    split at h
    · rename_i peer pool hphase
      obtain ⟨p, hpool, rfl⟩ := Option.map_eq_some_iff.mp h
      exact .select hphase hpool
    · cases h
  | reserve result =>
    unfold next at h
    dsimp only at h
    split at h
    · rename_i peer choice _ hphase
      obtain rfl := Option.some.inj h
      exact .reserve hphase
    · rename_i peer choice _ hphase
      obtain rfl := Option.some.inj h
      exact .refuseReserve hphase
    · cases h
  | markEstablished result =>
    unfold next at h
    dsimp only at h
    split at h
    · rename_i peer choice _ hphase
      obtain rfl := Option.some.inj h
      exact .markEstablished hphase
    · rename_i peer choice _ hphase
      obtain rfl := Option.some.inj h
      exact .refuseEstablished hphase
    · cases h

/-! ## The books -/

/-- What a step does to the counters. -/
inductive Books (s : ProxyIntake) (a : AcceptAction) (s' : ProxyIntake) : Prop
  /-- Nothing, and no connection is accepted or dealt with. -/
  | quiet (hphase : s'.phase = .idle ↔ s.phase = .idle) (hcounters : s'.counters = s.counters)
      (haccepted : s'.accepted = s.accepted) (hat : s'.atAccept = s.atAccept)
      (hempty : ¬s.MeetsEmptyPool a)
  /-- A connection is accepted. -/
  | accepts (hphase : s.phase = .idle) (hphase' : s'.phase ≠ .idle)
      (hcounters : s'.counters = s.counters) (haccepted : s'.accepted = s.accepted + 1)
      (hat : s'.atAccept = s.counters) (hempty : ¬s.MeetsEmptyPool a)
  /-- A connection is dealt with and counted. -/
  | counts (hphase : s.phase ≠ .idle) (hphase' : s'.phase = .idle)
      (hcounters : s'.counters = (s.counters.1 + 1, s.counters.2) ∨
        s'.counters = (s.counters.1, s.counters.2 + 1))
      (haccepted : s'.accepted = s.accepted) (hat : s'.atAccept = s.atAccept)
      (hempty : ¬s.MeetsEmptyPool a)
  /-- A connection meets an empty pool. -/
  | skips (hphase : s.phase ≠ .idle) (hphase' : s'.phase = .idle)
      (hcounters : s'.counters = s.counters) (haccepted : s'.accepted = s.accepted)
      (hat : s'.atAccept = s.atAccept) (hempty : s.MeetsEmptyPool a)

/-- Only a selection meets an empty pool. -/
theorem not_meetsEmptyPool {s : ProxyIntake} {a : AcceptAction} (ha : a ≠ .select) :
    ¬s.MeetsEmptyPool a := by
  cases a with
  | select => exact absurd rfl ha
  | _ => exact id

/-- The counters after a failure. -/
theorem counters_failed (s : ProxyIntake) (peer : SocketAddr) :
    (s.failed flavor peer).counters = (s.counters.1, s.counters.2 + 1) := rfl

/-- The counters after a connection was handed over. -/
theorem counters_forwarded (s : ProxyIntake) (peer : SocketAddr) (choice : Choice) :
    (s.forwarded flavor peer choice).counters = (s.counters.1 + 1, s.counters.2) := rfl

/-- A failure is counted. -/
theorem books_failed {s : ProxyIntake} {peer : SocketAddr} {a : AcceptAction}
    (hphase : s.phase ≠ .idle) (ha : a ≠ .select) : s.Books a (s.failed flavor peer) :=
  .counts hphase rfl (.inr (counters_failed s peer)) rfl rfl (not_meetsEmptyPool ha)

/-- A routed connection is in hand, or rejected and counted. -/
theorem books_routed {s : ProxyIntake} {peer : SocketAddr} (hphase : s.phase = .resolving peer) :
    s.Books .resolve (s.routed flavor backendPool peer) := by
  have hne : s.phase ≠ .idle := by
    rw [hphase]
    simp
  have hquiet : ∀ phase, phase ≠ .idle → s.Books .resolve { s with phase } := by
    intro phase hphase'
    exact .quiet (iff_of_false hphase' hne) rfl rfl rfl (not_meetsEmptyPool (by simp))
  unfold routed
  split
  · split
    · rename_i addr _
      exact hquiet (.reserving peer ⟨some addr, none⟩) (by simp)
    · rename_i pool _
      exact hquiet (.selecting peer pool) (by simp)
    · exact books_failed hne (by simp)
  · split
    · rename_i pool
      exact hquiet (.selecting peer pool) (by simp)
    · exact hquiet (.reserving peer ⟨none, none⟩) (by simp)

/-- An address is found or the index is out of bounds. -/
theorem addrAt_ne_none (p : BackendPool) (idx : ℕ) : p.addrAt idx ≠ .ok none := by
  unfold BackendPool.addrAt
  cases p.inner.backends[idx]? <;> simp

/-- A selection answers nothing exactly when the pool is empty. -/
theorem select_eq_none_iff (p : BackendPool) (peer : SocketAddr) :
    (p.select peer).1 = .ok none ↔ p.inner.backends = [] := by
  unfold BackendPool.select
  by_cases hempty : p.inner.backends = []
  · simp [hempty]
  · simp only [hempty, if_false, iff_false]
    cases p.inner.strategy with
    | roundRobin => exact addrAt_ne_none p _
    | consistentHash replicas sticky =>
      dsimp only
      split_ifs
      · exact addrAt_ne_none p 0
      · dsimp only
        unfold BackendPool.lookup
        dsimp only
        split
        · exact addrAt_ne_none p _
        · simp

/-- A selection keeps the connection in hand, or loses it to an empty pool or a panic. -/
theorem books_selected {s : ProxyIntake} {peer : SocketAddr} {pool : ℕ} {p : BackendPool}
    (hphase : s.phase = .selecting peer pool) (hpool : s.pools[pool]? = some p) :
    s.Books .select (s.selected peer pool p) := by
  have hne : s.phase ≠ .idle := by
    rw [hphase]
    simp
  have hmeets : s.MeetsEmptyPool .select ↔ p.inner.backends = [] := by
    simp [MeetsEmptyPool, poolInHand, hphase, hpool]
  rw [← select_eq_none_iff p peer] at hmeets
  unfold selected
  rcases hselect : (p.select peer).1 with panic | _ | addr
  · exact .quiet (iff_of_false (by simp) hne) rfl rfl rfl (by simp [hmeets, hselect])
  · exact .skips hne rfl rfl rfl rfl (by simp [hmeets, hselect])
  · exact .quiet (iff_of_false (by simp) hne) rfl rfl rfl (by simp [hmeets, hselect])

/-- **Every step keeps the books as `Books` says.** -/
theorem books_of_next {s s' : ProxyIntake} {a : AcceptAction}
    (h : s.next B flavor backendPool a = some s') : s.Books a s' := by
  cases steps_of_next h with
  | changeTable | changePool | newPool | finishForward =>
    exact .quiet Iff.rfl rfl rfl rfl (not_meetsEmptyPool (by simp))
  | accept hphase => exact .accepts hphase (by simp) rfl rfl rfl (not_meetsEmptyPool (by simp))
  | resolve hphase => exact books_routed hphase
  | select hphase hpool => exact books_selected hphase hpool
  | reserve hphase =>
    exact .quiet (by simp [hphase]) rfl rfl rfl (not_meetsEmptyPool (by simp))
  | @refuseReserve peer _ _ hphase | @refuseEstablished peer _ _ hphase =>
    exact .counts (by simp [hphase]) rfl (.inr (counters_failed s peer)) rfl rfl
      (not_meetsEmptyPool (by simp))
  | @markEstablished peer choice hphase =>
    exact .counts (by simp [hphase]) rfl (.inl (counters_forwarded s peer choice)) rfl rfl
      (not_meetsEmptyPool (by simp))

/-! ## Every connection is counted -/

/-- While a connection is in hand, the counters are as they were when it was accepted. -/
structure InHand (s : ProxyIntake) : Prop where
  counters : s.phase ≠ .idle → s.counters = s.atAccept
  accepted : s.phase ≠ .idle → 0 < s.accepted

/-- The connections accepted are those counted and the one in hand, and the last one dealt with
was counted once. -/
structure Ledger (s : ProxyIntake) : Prop where
  sum : s.counters.1 + s.counters.2 + (if s.phase = .idle then 0 else 1) = .ofNat s.accepted
  grew : s.phase = .idle → 0 < s.accepted → s.GrewOnce

/-- A word is not its successor. -/
theorem add_one_ne (x : UInt64) : x + 1 ≠ x := by
  intro h
  have := congrArg UInt64.toNat h
  have hlt := x.toNat_lt
  rw [UInt64.toNat_add] at this
  change (x.toNat + 1) % 2 ^ 64 = x.toNat at this
  omega

/-- In every reachable state the counters have not moved since the connection in hand came. -/
theorem inHand_of_reach {s : ProxyIntake} (h : (acceptSystem B flavor backendPool).Reach s) :
    s.InHand := by
  refine h.invariant (fun s hs => ?_) (fun s a s' _ ih hstep => ?_)
  · exact ⟨fun hne => absurd hs.phase hne, fun hne => absurd hs.phase hne⟩
  · cases books_of_next hstep with
    | quiet hphase hcounters haccepted hat _ =>
      constructor
      · intro hne
        rw [hcounters, hat]
        exact ih.counters (mt hphase.mpr hne)
      · intro hne
        rw [haccepted]
        exact ih.accepted (mt hphase.mpr hne)
    | accepts _ _ hcounters haccepted hat _ =>
      constructor
      · intro _
        rw [hcounters, hat]
      · intro _
        omega
    | counts _ hphase' _ _ _ _ =>
      exact ⟨fun hne => absurd hphase' hne, fun hne => absurd hphase' hne⟩
    | skips _ hphase' _ _ _ _ =>
      exact ⟨fun hne => absurd hphase' hne, fun hne => absurd hphase' hne⟩

/-- **A step keeps the ledger exactly when it meets no empty pool.**

**Proof sketch.** A connection that is accepted enters the sum as the one in hand, and as a count
when it is dealt with. At an empty pool it leaves the hand and enters no count. -/
theorem ledger_next_iff {s s' : ProxyIntake} {a : AcceptAction} (hhand : s.InHand) (h : s.Ledger)
    (hstep : s.next B flavor backendPool a = some s') : s'.Ledger ↔ ¬s.MeetsEmptyPool a := by
  have hsum := h.sum
  cases books_of_next hstep with
  | quiet hphase hcounters haccepted hat hempty =>
    simp only [hempty, not_false_eq_true, iff_true]
    constructor
    · rw [hcounters, haccepted]
      simpa only [hphase] using hsum
    · intro hidle hpos
      unfold GrewOnce
      rw [hcounters, hat]
      rw [haccepted] at hpos
      exact h.grew (hphase.mp hidle) hpos
  | accepts hphase hphase' hcounters haccepted hat hempty =>
    simp only [hempty, not_false_eq_true, iff_true]
    constructor
    · rw [if_pos hphase] at hsum
      rw [hcounters, haccepted, if_neg hphase', UInt64.ofNat_add, ← hsum, UInt64.add_zero]
      rfl
    · intro hidle
      exact absurd hidle hphase'
  | counts hphase hphase' hcounters haccepted hat hempty =>
    simp only [hempty, not_false_eq_true, iff_true]
    rw [if_neg hphase] at hsum
    constructor
    · rw [haccepted, if_pos hphase', UInt64.add_zero, ← hsum]
      rcases hcounters with hcounters | hcounters
      · rw [hcounters, UInt64.add_assoc, UInt64.add_comm 1, ← UInt64.add_assoc]
      · rw [hcounters, UInt64.add_assoc]
    · intro _ _
      unfold GrewOnce
      rw [hat, ← hhand.counters hphase]
      exact hcounters
  | skips hphase hphase' hcounters haccepted hat hempty =>
    simp only [hempty, not_true_eq_false, iff_false]
    intro hledger
    have hsum' := hledger.sum
    rw [if_neg hphase] at hsum
    rw [hcounters, haccepted, if_pos hphase', UInt64.add_zero] at hsum'
    exact add_one_ne _ (hsum.trans hsum'.symm)

/-- The ledger of a loop that begins. -/
theorem Begins.ledger {s : ProxyIntake} (h : s.Begins) : s.Ledger where
  sum := by
    rw [if_pos h.phase, counters, h.metrics, h.accepted]
    rfl
  grew _ hpos := absurd h.accepted hpos.ne'

/-- **Every connection is counted once iff none meets an empty pool.** Along every run of either
proxy, whatever the guards answer and whatever happens to the table and the pools meanwhile, each
connection that was dealt with made exactly one of `tcp_connections_total` and
`failed_connections` grow by one, and together they count the connections accepted, exactly when
no connection was sent to a pool without backends.

**Proof sketch.** Without such a step the ledger is kept (`ledger_next_iff`). With one, the
counters after it are those at the time the connection was accepted. -/
theorem forall_accounted_iff {s₀ s : ProxyIntake}
    {tr : List (Transition.Taken ProxyIntake AcceptAction)}
    (h : (acceptSystem B flavor backendPool).Run s₀ tr s) (h₀ : s₀.Begins) :
    (∀ x ∈ tr, x.target.Accounted) ↔ ∀ x ∈ tr, ¬x.source.MeetsEmptyPool x.label := by
  have hreach : (acceptSystem B flavor backendPool).Reach s₀ := .init h₀
  constructor
  · intro hall x hx hempty
    obtain ⟨hsource, hstep⟩ := h.taken hreach hx
    have hhand := inHand_of_reach hsource
    cases books_of_next hstep with
    | quiet _ _ _ _ hnot => exact hnot hempty
    | accepts _ _ _ _ _ hnot => exact hnot hempty
    | counts _ _ _ _ _ hnot => exact hnot hempty
    | skips hphase hphase' hcounters haccepted hat _ =>
      have hgrew := (hall x hx hphase').1 (by rw [haccepted]; exact hhand.accepted hphase)
      unfold GrewOnce at hgrew
      rw [hcounters, hat, hhand.counters hphase] at hgrew
      rcases hgrew with hgrew | hgrew
      · exact add_one_ne _ (congrArg Prod.fst hgrew).symm
      · exact add_one_ne _ (congrArg Prod.snd hgrew).symm
  · intro hnone
    have hledger := (h.forall_target_iff (P := Ledger) (G := fun s a _ => ¬s.MeetsEmptyPool a)
      (fun s a s' hs hl hstep => ledger_next_iff (inHand_of_reach hs) hl hstep) hreach
      h₀.ledger).mpr hnone
    intro x hx hidle
    have hx := hledger x hx
    refine ⟨hx.grew hidle, ?_⟩
    have hsum := hx.sum
    rwa [if_pos hidle, UInt64.add_zero] at hsum

/-- A loop that begins with the given table and pools. -/
def start (routing : Option (RoutingTable ℕ)) (pools : List BackendPool) : ProxyIntake where
  routing := routing
  pools := pools
  metrics := .new
  phase := .idle
  forwarding := []
  accepted := 0
  atAccept := (0, 0)
  dealt := []

/-- The start is a beginning. -/
theorem begins_start (routing : Option (RoutingTable ℕ)) (pools : List BackendPool) :
    (start routing pools).Begins :=
  ⟨rfl, rfl, rfl, rfl, rfl⟩

/-- A table that rejects one address and sends the others to a pool of two backends. -/
def busyStart : ProxyIntake :=
  start (some ((RoutingTable.new (.pool 0)).addRule (.fromIp (.new "no".toList .reject) (.v4 1))))
    [.roundRobin [BackendPool.localBackend 8001, BackendPool.localBackend 8002]]

/-- One connection is rejected by the table, one forwarded, and one refused by a guard; meanwhile
a backend is removed. -/
def busyActions : List AcceptAction :=
  [.accept (.v4 1 1001), .resolve,
    .accept (.v4 2 1002), .resolve, .select, .reserve (.ok ()), .markEstablished (.ok ()),
    .accept (.v4 3 1003), .resolve, .changePool 0 (.remove (BackendPool.localBackend 8001).addr),
    .select, .finishForward (.v4 2 1002), .reserve (.error (.bannedIp []))]

/-- Each of them is counted once, one as a connection and two as failures. -/
theorem forall_accounted_busyActions :
    (Transition.System.follow (next BackendPool.insertionBuild .sync none) busyStart
        busyActions).2.counters = (1, 2) ∧
      ∀ x ∈ (Transition.System.follow (next BackendPool.insertionBuild .sync none) busyStart
        busyActions).1, x.target.Accounted := by
  refine ⟨by decide +kernel, (forall_accounted_iff
    (Transition.System.run_follow (M := acceptSystem BackendPool.insertionBuild .sync none)
      (fun _ _ _ hstep => hstep) busyActions busyStart) (begins_start _ _)).mpr ?_⟩
  decide +kernel

/-- **With an empty pool, connections go uncounted.** -/
theorem not_forall_accounted :
    ¬∀ s, (acceptSystem BackendPool.insertionBuild .sync (some 0)).Reach s → s.Accounted := by
  intro h
  have hreach : (acceptSystem BackendPool.insertionBuild .sync (some 0)).Reach
      (Transition.System.after (next BackendPool.insertionBuild .sync (some 0))
        (start none [.roundRobin []]) [.accept (.v4 1 1001), .resolve, .select]) :=
    Transition.System.reach_after (.init (begins_start _ _)) fun _ _ _ _ hstep => hstep
  have hsum := (h _ hreach rfl).2
  exact absurd hsum (by decide +kernel)

end ProxyIntake

end Synclaire
