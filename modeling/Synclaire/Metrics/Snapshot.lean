import Synclaire.Metrics.Concurrent

set_option relaxedAutoImplicit false
set_option autoImplicit false

/-!
# Snapshots of the metrics

`MetricsCollector::snapshot` copies the map by server, then the map by address, and then loads
the atomics one after the other; it keeps both maps locked until it returns. Other threads go on
recording between its reads, unless they need one of the locks. A snapshot is therefore not the
collector at one moment.

## Main definitions

* `Synclaire.ConnectionMetrics` — what a snapshot shows.
* `Synclaire.SnapshotCall` — a snapshot in progress, as the reads that are still to come.
* `Synclaire.SnapshotRun`, `Synclaire.snapshotSystem` — a collector with its callers and any number
  of snapshots.
* `Synclaire.SnapshotCall.finish` — what a snapshot would return if nobody else moved.

## Main results

* `Synclaire.SnapshotCall.read_finish` — a figure is the one read, or the one still to be read.
* `Synclaire.SnapshotRun.calls_return` — calls in progress never wait for each other for ever.

## Implementation notes

An average is a `Float`: the conversions and the division round as those of an `f64` do. Callers
may wait for a lock but never hold one across two sections, so that holding it is part of the
section. The atomics are interleaved as single steps, in the order in which a call reaches them.
-/

namespace Synclaire

open MetricsCollector

/-! ## What a snapshot shows -/

/-- `ServerMetrics`. -/
structure ServerMetrics where
  tcp : UInt64
  tls : UInt64
  mtls : UInt64
  active : UInt64
  failures : UInt64
  avgLatencyMs : Float
  latencySampleCount : UInt64
  deriving DecidableEq

/-- `IpMetrics`. -/
structure IpMetrics where
  connections : UInt64
  active : UInt64
  failures : UInt64
  avgLatencyMs : Float
  deriving DecidableEq

/-- `ConnectionMetrics`. -/
structure ConnectionMetrics where
  tcpConnectionsTotal : UInt64
  tlsConnectionsTotal : UInt64
  mtlsConnectionsTotal : UInt64
  failedConnections : UInt64
  activeConnections : UInt64
  avgLatencyMs : Float
  minLatencyMs : UInt64
  maxLatencyMs : UInt64
  perServer : FMap Str ServerMetrics
  perIp : FMap IpAddr IpMetrics
  deriving DecidableEq

/-- An average latency: zero without samples, else the quotient of the two numbers as `f64`s. -/
def avgLatencyMs (latencySumMs latencyCount : UInt64) : Float :=
  if 0 < latencyCount then latencySumMs.toFloat / latencyCount.toFloat else 0

/-- What a snapshot shows of the entry of a server. -/
def PerServerMetrics.shown (m : PerServerMetrics) : ServerMetrics where
  tcp := m.tcp
  tls := m.tls
  mtls := m.mtls
  active := m.active
  failures := m.failures
  avgLatencyMs := Synclaire.avgLatencyMs m.latencySumMs m.latencyCount
  latencySampleCount := m.latencyCount

/-- What a snapshot shows of the entry of an address. -/
def PerIpMetrics.shown (m : PerIpMetrics) : IpMetrics where
  connections := m.connections
  active := m.active
  failures := m.failures
  avgLatencyMs := Synclaire.avgLatencyMs m.latencySumMs m.latencyCount

/-! ## The reads of a snapshot -/

/-- A copy of a map under its lock, or one load of an atomic. -/
inductive SnapshotRead
  | servers
  | ips
  | latencyCount
  | latencySum
  | minLatency
  | maxLatency
  | total (kind : ConnectionKind)
  | failed
  | active
  deriving DecidableEq

/-- The reads of `MetricsCollector::snapshot`, in their order. -/
def snapshotReads : List SnapshotRead :=
  [.servers, .ips, .latencyCount, .latencySum, .minLatency, .maxLatency, .total .tcp, .total .tls,
    .total .mtls, .failed, .active]

/-- The variables of `snapshot`: what it returns, as far as it was read, and its `latency_count`. -/
structure SnapshotLocals where
  metrics : ConnectionMetrics
  latencyCount : UInt64
  deriving DecidableEq

/-- A call of `snapshot`, and the reads that are still to come. -/
structure SnapshotCall where
  locals : SnapshotLocals
  pending : List SnapshotRead
  deriving DecidableEq

/-- `snapshot` is called. -/
def SnapshotCall.start : SnapshotCall where
  locals := ⟨⟨0, 0, 0, 0, 0, 0, 0, 0, ∅, ∅⟩, 0⟩
  pending := snapshotReads

/-- What one more read of the collector does. -/
def SnapshotRead.run (m : MetricsCollector) (l : SnapshotLocals) : SnapshotRead → SnapshotLocals
  | .servers => { l with metrics.perServer := FMap.mapValues PerServerMetrics.shown m.perServer }
  | .ips => { l with metrics.perIp := FMap.mapValues PerIpMetrics.shown m.perIp }
  | .latencyCount => { l with latencyCount := m.latencyCount }
  -- the sum is loaded only if the count is not zero
  | .latencySum => { l with metrics.avgLatencyMs := avgLatencyMs m.latencySumMs l.latencyCount }
  | .minLatency =>
    { l with metrics.minLatencyMs :=
        if m.minLatencyMs = 0xFFFFFFFFFFFFFFFF then 0 else m.minLatencyMs }
  | .maxLatency => { l with metrics.maxLatencyMs := m.maxLatencyMs }
  | .total .tcp => { l with metrics.tcpConnectionsTotal := m.tcpTotal }
  | .total .tls => { l with metrics.tlsConnectionsTotal := m.tlsTotal }
  | .total .mtls => { l with metrics.mtlsConnectionsTotal := m.mtlsTotal }
  | .failed => { l with metrics.failedConnections := m.failed }
  | .active => { l with metrics.activeConnections := m.active }

/-- What a call returns if the collector stays as it is. -/
def SnapshotCall.finish (call : SnapshotCall) (m : MetricsCollector) : ConnectionMetrics :=
  (call.pending.foldl (SnapshotRead.run m) call.locals).metrics

/-- `MetricsCollector::snapshot`, when it runs alone. -/
def MetricsCollector.snapshot (m : MetricsCollector) : ConnectionMetrics :=
  SnapshotCall.start.finish m

/-! ## Locks -/

/-- The locks that are held across more than one read. -/
inductive MetricsLock
  | perServer
  | perIp
  deriving DecidableEq

/-- The lock that a section takes. -/
def MetricsSection.lock : MetricsSection → Option MetricsLock
  | .serverConnected _ _ => some .perServer
  | .serverFailed _ => some .perServer
  | .serverClosed _ => some .perServer
  | .serverLatency _ _ => some .perServer
  | .ipConnected _ => some .perIp
  | .ipFailed _ => some .perIp
  | .ipClosed _ => some .perIp
  | .ipLatency _ _ => some .perIp
  | _ => none

/-- The read that takes a lock. -/
def MetricsLock.read : MetricsLock → SnapshotRead
  | .perServer => .servers
  | .perIp => .ips

/-- The lock that a read takes. -/
def SnapshotRead.lock : SnapshotRead → Option MetricsLock
  | .servers => some .perServer
  | .ips => some .perIp
  | _ => none

/-- A call holds a lock from the read that takes it to its return. -/
def SnapshotCall.holds (call : SnapshotCall) (lock : MetricsLock) : Bool :=
  !call.pending.isEmpty && decide (lock.read ∉ call.pending)

/-! ## Callers and snapshots -/

/-- A call of `record_connection_latency`: its arguments, and the sections that have run and that
are still to run. -/
structure LatencyCall where
  serverName : Option Str
  peerIp : IpAddr
  latencyMs : UInt64
  done : List MetricsSection
  pending : List MetricsSection
  deriving DecidableEq

/-- A latency is recorded. -/
def LatencyCall.start (serverName : Option Str) (peerIp : IpAddr) (latencyMs : UInt64) :
    LatencyCall where
  serverName := serverName
  peerIp := peerIp
  latencyMs := latencyMs
  done := []
  pending := recordConnectionLatency serverName peerIp latencyMs

/-- A collector with its callers: who records connections and failures, who records latencies, and
who takes snapshots. -/
structure SnapshotRun where
  run : MetricsRun
  delays : List LatencyCall
  snapshots : List SnapshotCall
  deriving DecidableEq

/-- What callers do. -/
inductive SnapshotAction
  | caller (action : MetricsAction)
  | latency (serverName : Option Str) (peerIp : IpAddr) (latencyMs : UInt64)
  /-- The call of `record_connection_latency` in row `i` runs its next section. -/
  | delay (i : ℕ)
  | snapshot
  /-- Snapshot `j` makes its next read. -/
  | read (j : ℕ)
  deriving DecidableEq

/-- A step of a call in progress, not the beginning of one. -/
def SnapshotAction.continues : SnapshotAction → Bool
  | .caller (.advance _) => true
  | .delay _ => true
  | .read _ => true
  | _ => false

/-- The lock that an action of a recording caller takes. -/
def MetricsRun.lockOf (s : MetricsRun) : MetricsAction → Option MetricsLock
  | .advance i => ((s.activities[i]?).bind (·.pending.head?)).bind MetricsSection.lock
  | _ => none

namespace SnapshotRun

/-- Nothing was recorded. -/
def start : SnapshotRun := ⟨.start, [], []⟩

/-- Some snapshot holds the lock. -/
def isLocked (s : SnapshotRun) (lock : Option MetricsLock) : Bool :=
  lock.any fun l => s.snapshots.any (·.holds l)

/-- The state after an action, if the action is possible. -/
def next (s : SnapshotRun) : SnapshotAction → Option SnapshotRun
  | .caller action =>
    if s.isLocked (s.run.lockOf action) then none
    else (s.run.next action).map fun run => { s with run }
  | .latency serverName peerIp latencyMs =>
    some { s with delays := s.delays ++ [.start serverName peerIp latencyMs] }
  | .delay i =>
    match s.delays[i]? with
    | some call =>
      match call.pending with
      | sect :: rest =>
        if s.isLocked sect.lock then none
        else some { s with
          run.collector := sect.run s.run.collector
          delays := s.delays.set i { call with done := call.done ++ [sect], pending := rest } }
      | [] => none
    | none => none
  | .snapshot => some { s with snapshots := s.snapshots ++ [.start] }
  | .read j =>
    match s.snapshots[j]? with
    | some call =>
      match call.pending with
      | r :: rest =>
        if s.isLocked r.lock then none
        else some { s with
          snapshots := s.snapshots.set j ⟨r.run s.run.collector call.locals, rest⟩ }
      | [] => none
    | none => none

end SnapshotRun

/-- The runs of a collector with snapshots. -/
def snapshotSystem : Transition.System SnapshotRun SnapshotAction :=
  .ofFn .start SnapshotRun.next

/-! ## Figures -/

/-- A figure that the collector has and a snapshot shows: a count, or the sum over the servers of a
count in their entries. -/
inductive MetricsFigure
  | count (c : Counter)
  | servers (field : ServerField)
  deriving DecidableEq

/-- The sum over the servers of what `f` reads from their entries. -/
def MetricsCollector.sumServers (m : MetricsCollector) (f : PerServerMetrics → UInt64) : ℕ :=
  FMap.total (fun e => (f e).toNat) m.perServer

/-- A figure of the collector. -/
def MetricsFigure.read (m : MetricsCollector) : MetricsFigure → ℕ
  | .count c => c.read m
  | .servers field => m.sumServers field.get

/-- A count in what is shown of a server. -/
def ServerField.shownIn : ServerField → ServerMetrics → UInt64
  | .total .tcp => ServerMetrics.tcp
  | .total .tls => ServerMetrics.tls
  | .total .mtls => ServerMetrics.mtls
  | .active => ServerMetrics.active
  | .failures => ServerMetrics.failures

/-- A count in what is shown of an address. -/
def IpField.shownIn : IpField → IpMetrics → UInt64
  | .connections => IpMetrics.connections
  | .active => IpMetrics.active
  | .failures => IpMetrics.failures

/-- A figure of a snapshot. -/
def ConnectionMetrics.read (shown : ConnectionMetrics) : MetricsFigure → ℕ
  | .count (.total .tcp) => shown.tcpConnectionsTotal.toNat
  | .count (.total .tls) => shown.tlsConnectionsTotal.toNat
  | .count (.total .mtls) => shown.mtlsConnectionsTotal.toNat
  | .count .failed => shown.failedConnections.toNat
  | .count .active => shown.activeConnections.toNat
  | .count (.server name field) =>
    ((shown.perServer.lookup name).map fun e => (field.shownIn e).toNat).getD 0
  | .count (.ip addr field) =>
    ((shown.perIp.lookup addr).map fun e => (field.shownIn e).toNat).getD 0
  | .count (.sum field) => FMap.total (fun e => (field.shownIn e).toNat) shown.perIp
  | .servers field => FMap.total (fun e => (field.shownIn e).toNat) shown.perServer

/-- The read of a snapshot from which it has a figure. -/
def MetricsFigure.source : MetricsFigure → SnapshotRead
  | .count (.total kind) => .total kind
  | .count .failed => .failed
  | .count .active => .active
  | .count (.server _ _) => .servers
  | .count (.ip _ _) => .ips
  | .count (.sum _) => .ips
  | .servers _ => .servers

/-- The counts in an entry are shown. -/
@[simp] theorem ServerField.shownIn_shown (field : ServerField) (e : PerServerMetrics) :
    field.shownIn e.shown = field.get e := by
  rcases field with (_ | _ | _) | _ | _ <;> rfl

/-- The counts in an entry are shown. -/
@[simp] theorem IpField.shownIn_shown (field : IpField) (e : PerIpMetrics) :
    field.shownIn e.shown = field.get e := by
  cases field <;> rfl

/-- **What one read does to the figures**: those that it is the source of become the collector's. -/
theorem SnapshotRead.read_run (m : MetricsCollector) (l : SnapshotLocals) (r : SnapshotRead)
    (f : MetricsFigure) :
    (r.run m l).metrics.read f = if f.source = r then f.read m else l.metrics.read f := by
  rcases f with (kind | _ | _ | ⟨name, field⟩ | ⟨addr, field⟩ | field) | field
  case count.server =>
    cases r with
    | servers =>
      simp [ConnectionMetrics.read, run, MetricsFigure.source, MetricsFigure.read, Counter.read,
        ofServer, Option.map_map, Function.comp_def]
    | total kind => cases kind <;> rfl
    | _ => rfl
  case count.ip =>
    cases r with
    | ips =>
      simp [ConnectionMetrics.read, run, MetricsFigure.source, MetricsFigure.read, Counter.read,
        ofIp, Option.map_map, Function.comp_def]
    | total kind => cases kind <;> rfl
    | _ => rfl
  case count.sum =>
    cases r with
    | ips =>
      simp [ConnectionMetrics.read, run, MetricsFigure.source, MetricsFigure.read, Counter.read,
        sumIps, Function.comp_def]
    | total kind => cases kind <;> rfl
    | _ => rfl
  case servers =>
    cases r with
    | servers =>
      simp [ConnectionMetrics.read, run, MetricsFigure.source, MetricsFigure.read, sumServers,
        Function.comp_def]
    | total kind => cases kind <;> rfl
    | _ => rfl
  case count.total =>
    cases r with
    | total k => cases kind <;> cases k <;> rfl
    | _ => cases kind <;> rfl
  all_goals
    cases r with
    | total kind => cases kind <;> rfl
    | _ => rfl

namespace SnapshotCall

/-- **What a snapshot would show** of something that it reads at once: the value of the collector
if that read is still to come, else what it has. -/
theorem finish_of_run {α : Type*} (observe : ConnectionMetrics → α) {m : MetricsCollector}
    {source : SnapshotRead} {value : α}
    (hrun : ∀ r l, observe (SnapshotRead.run m l r).metrics =
      if source = r then value else observe l.metrics) (call : SnapshotCall) :
    observe (call.finish m) =
      if source ∈ call.pending then value else observe call.locals.metrics := by
  have hfold : ∀ (reads : List SnapshotRead) (l : SnapshotLocals),
      observe (reads.foldl (SnapshotRead.run m) l).metrics =
        if source ∈ reads then value else observe l.metrics := by
    intro reads
    induction reads with
    | nil => exact fun l => rfl
    | cons r rest ih =>
      intro l
      rw [List.foldl_cons, ih, hrun]
      by_cases hrest : source ∈ rest
      · rw [if_pos hrest, if_pos (.tail _ hrest)]
      · rw [if_neg hrest]
        refine if_congr ?_ rfl rfl
        rw [List.mem_cons, or_iff_left hrest]
  exact hfold call.pending call.locals

/-- **A figure of a snapshot** is the one it has read or, where it has not yet, the one of the
collector. -/
theorem read_finish (call : SnapshotCall) (m : MetricsCollector) (f : MetricsFigure) :
    (call.finish m).read f =
      if f.source ∈ call.pending then f.read m else call.locals.metrics.read f :=
  finish_of_run (ConnectionMetrics.read · f) (fun r l => SnapshotRead.read_run m l r f) call

/-- A snapshot that has read everything returns what it has read. -/
theorem finish_of_done {call : SnapshotCall} (h : call.pending = []) (m : MetricsCollector) :
    call.finish m = call.locals.metrics := by
  rw [finish, h, List.foldl_nil]

/-- The next read of a call changes nothing in what the call would return. -/
theorem finish_read {call : SnapshotCall} {r : SnapshotRead} {rest : List SnapshotRead}
    (h : call.pending = r :: rest) (m : MetricsCollector) :
    SnapshotCall.finish ⟨r.run m call.locals, rest⟩ m = call.finish m := by
  rw [finish, finish, h, List.foldl_cons]

end SnapshotCall

namespace SnapshotRun

/-! ## Steps -/

/-- What an action does to the collector and the rows. -/
inductive Moves (s : SnapshotRun) : SnapshotAction → SnapshotRun → Prop
  | caller {action : MetricsAction} {run : MetricsRun}
      (hfree : s.isLocked (s.run.lockOf action) = false) (hnext : s.run.next action = some run) :
      Moves s (.caller action) { s with run }
  | latency (serverName : Option Str) (peerIp : IpAddr) (latencyMs : UInt64) :
      Moves s (.latency serverName peerIp latencyMs)
        { s with delays := s.delays ++ [.start serverName peerIp latencyMs] }
  | delay {i : ℕ} {call : LatencyCall} {sect : MetricsSection} {rest : List MetricsSection}
      (hi : s.delays[i]? = some call) (hpending : call.pending = sect :: rest)
      (hfree : s.isLocked sect.lock = false) :
      Moves s (.delay i) { s with
        run.collector := sect.run s.run.collector
        delays := s.delays.set i { call with done := call.done ++ [sect], pending := rest } }
  | snapshot : Moves s .snapshot { s with snapshots := s.snapshots ++ [.start] }
  | read {j : ℕ} {call : SnapshotCall} {r : SnapshotRead} {rest : List SnapshotRead}
      (hj : s.snapshots[j]? = some call) (hpending : call.pending = r :: rest)
      (hfree : s.isLocked r.lock = false) :
      Moves s (.read j) { s with
        snapshots := s.snapshots.set j ⟨r.run s.run.collector call.locals, rest⟩ }

variable {s s' : SnapshotRun} {action : SnapshotAction}

/-- Every step is one of these. -/
theorem moves_of_next (hstep : s.next action = some s') : s.Moves action s' := by
  cases action with
  | caller action =>
    rw [next] at hstep
    split_ifs at hstep with hfree
    obtain ⟨run, hnext, rfl⟩ := Option.map_eq_some_iff.mp hstep
    exact .caller (Bool.not_eq_true _ ▸ hfree) hnext
  | latency serverName peerIp latencyMs =>
    obtain rfl := Option.some.inj hstep
    exact .latency serverName peerIp latencyMs
  | delay i =>
    rw [next] at hstep
    cases hi : s.delays[i]? with
    | none => simp [hi] at hstep
    | some call =>
      simp only [hi] at hstep
      cases hpending : call.pending with
      | nil => simp [hpending] at hstep
      | cons sect rest =>
        simp only [hpending] at hstep
        split_ifs at hstep with hfree
        obtain rfl := Option.some.inj hstep
        exact .delay hi hpending (Bool.not_eq_true _ ▸ hfree)
  | snapshot =>
    obtain rfl := Option.some.inj hstep
    exact .snapshot
  | read j =>
    rw [next] at hstep
    cases hj : s.snapshots[j]? with
    | none => simp [hj] at hstep
    | some call =>
      simp only [hj] at hstep
      cases hpending : call.pending with
      | nil => simp [hpending] at hstep
      | cons r rest =>
        simp only [hpending] at hstep
        split_ifs at hstep with hfree
        obtain rfl := Option.some.inj hstep
        exact .read hj hpending (Bool.not_eq_true _ ▸ hfree)

/-! ## Latencies in progress -/

/-- Every latency call runs its sections in their order. -/
def Proceeding (s : SnapshotRun) : Prop :=
  ∀ call ∈ s.delays,
    call.done ++ call.pending = recordConnectionLatency call.serverName call.peerIp call.latencyMs

/-- **What a step keeps**: the order of the sections. -/
theorem Proceeding.step (h : s.Proceeding) (hstep : s.next action = some s') : s'.Proceeding := by
  cases moves_of_next hstep with
  | latency serverName peerIp latencyMs =>
    intro call hcall
    rcases List.mem_append.mp hcall with hcall | hcall
    · exact h call hcall
    · obtain rfl := List.mem_singleton.mp hcall
      rfl
  | @delay i call sect rest hi hpending hfree =>
    intro call' hcall'
    rcases List.mem_or_eq_of_mem_set hcall' with hcall' | rfl
    · exact h call' hcall'
    · have hcall := h call (List.mem_of_getElem? hi)
      rw [hpending] at hcall
      simpa using hcall
  | _ => exact h

/-- In every reachable state the sections are run in their order. -/
theorem proceeding_of_reach (h : snapshotSystem.Reach s) : s.Proceeding := by
  refine h.invariant ?_ fun s a s' _ hI hstep => hI.step hstep
  rintro s rfl call hcall
  cases hcall

/-- The next section of a call is one of those of its record. -/
theorem Proceeding.mem (h : s.Proceeding) {call : LatencyCall} (hcall : call ∈ s.delays)
    {sect : MetricsSection} {rest : List MetricsSection} (hpending : call.pending = sect :: rest) :
    sect ∈ recordConnectionLatency call.serverName call.peerIp call.latencyMs := by
  rw [← h call hcall, hpending]
  exact List.mem_append_right _ (.head _)

/-! ## Calls return -/

/-- Every snapshot makes its reads in their order. -/
def Sequenced (s : SnapshotRun) : Prop := ∀ call ∈ s.snapshots, call.pending <:+ snapshotReads

/-- **What a step keeps**: the order of the reads. -/
theorem Sequenced.step (h : s.Sequenced) (hstep : s.next action = some s') : s'.Sequenced := by
  cases moves_of_next hstep with
  | caller hfree hnext => exact h
  | latency serverName peerIp latencyMs => exact h
  | delay hi hpending hfree => exact h
  | snapshot =>
    intro call hcall
    rcases List.mem_append.mp hcall with hcall | hcall
    · exact h call hcall
    · obtain rfl := List.mem_singleton.mp hcall
      exact List.suffix_refl _
  | @read j call r rest hj hpending hfree =>
    intro call' hcall'
    rcases List.mem_or_eq_of_mem_set hcall' with hcall' | rfl
    · exact h call' hcall'
    · have hsuffix := h call (List.mem_of_getElem? hj)
      rw [hpending] at hsuffix
      exact (List.suffix_cons r rest).trans hsuffix

/-- In every reachable state the reads are made in their order. -/
theorem sequenced_of_reach (h : snapshotSystem.Reach s) : s.Sequenced := by
  refine h.invariant ?_ fun s a s' _ hI hstep => hI.step hstep
  rintro s rfl call hcall
  cases hcall

/-- A call that waits for the first lock waits for the second one too. -/
theorem ips_mem_of_servers_mem {reads : List SnapshotRead} (h : reads <:+ snapshotReads)
    (hmem : .servers ∈ reads) : .ips ∈ reads := by
  have hall : ∀ l ∈ snapshotReads.tails, .servers ∈ l → .ips ∈ l := by decide
  exact hall reads ((List.mem_tails _ _).mpr h) hmem

/-- The lock that a read takes is the one that it is the read of. -/
theorem read_of_lock {r : SnapshotRead} {lock : MetricsLock} (h : r.lock = some lock) :
    lock.read = r := by
  cases r <;> cases h <;> rfl

/-- How many steps the calls in progress still take. -/
def work (s : SnapshotRun) : ℕ :=
  Table.tally (·.pending.length) s.run.activities + Table.tally (·.pending.length) s.delays +
    Table.tally (·.pending.length) s.snapshots

/-- No call is in progress. -/
def Returned (s : SnapshotRun) : Prop :=
  (∀ a ∈ s.run.activities, a.pending = []) ∧ (∀ call ∈ s.delays, call.pending = []) ∧
    ∀ call ∈ s.snapshots, call.pending = []

instance (s : SnapshotRun) : Decidable s.Returned := inferInstanceAs (Decidable (_ ∧ _ ∧ _))

/-- A step of a call in progress leaves one step less. -/
theorem work_lt (hstep : s.next action = some s') (hcontinues : action.continues = true) :
    s'.work < s.work := by
  cases moves_of_next hstep with
  | caller hfree hnext =>
    cases MetricsRun.moves_of_next hnext with
    | record record serverName peerIp => cases hcontinues
    | close hi hclose => cases hcontinues
    | @advance i a sect rest hi hpending =>
      have hset := Table.tally_set (fun a : MetricsActivity => a.pending.length) hi
        { a with done := a.done ++ [sect], pending := rest }
      simp only [hpending, List.length_cons] at hset
      simp only [work]
      omega
  | latency serverName peerIp latencyMs => cases hcontinues
  | @delay i call sect rest hi hpending hfree =>
    have hset := Table.tally_set (fun call : LatencyCall => call.pending.length) hi
      { call with done := call.done ++ [sect], pending := rest }
    simp only [hpending, List.length_cons] at hset
    simp only [work]
    omega
  | snapshot => cases hcontinues
  | @read j call r rest hj hpending hfree =>
    have hset := Table.tally_set (fun call : SnapshotCall => call.pending.length) hj
      ⟨r.run s.run.collector call.locals, rest⟩
    simp only [hpending, List.length_cons] at hset
    simp only [work]
    omega

/-- Some snapshot holds the lock. -/
theorem exists_holds {lock : Option MetricsLock} (h : s.isLocked lock = true) :
    ∃ l, lock = some l ∧ ∃ call ∈ s.snapshots, call.holds l = true := by
  obtain ⟨l, rfl, hl⟩ := (Option.any_eq_true _ _).mp h
  exact ⟨l, rfl, List.any_eq_true.mp hl⟩

/-- A snapshot whose next read takes no lock that is held can go on. -/
theorem exists_read {j : ℕ} {call : SnapshotCall} {r : SnapshotRead} {rest : List SnapshotRead}
    (hj : s.snapshots[j]? = some call) (hpending : call.pending = r :: rest)
    (hfree : s.isLocked r.lock = false) :
    ∃ a s', a.continues = true ∧ s.next a = some s' := by
  refine ⟨.read j, { s with
    snapshots := s.snapshots.set j ⟨r.run s.run.collector call.locals, rest⟩ }, rfl, ?_⟩
  simp only [next, hj, hpending, hfree]
  rfl

/-- **A snapshot that holds a lock, or some other one, can go on.** The map by server is always
locked first, and a snapshot that holds both locks waits for nothing. -/
theorem Sequenced.exists_read_of_holds (h : s.Sequenced) {lock : MetricsLock}
    {call : SnapshotCall} (hcall : call ∈ s.snapshots) (hholds : call.holds lock = true) :
    ∃ a s', a.continues = true ∧ s.next a = some s' := by
  have hunread : ∀ {c : SnapshotCall} {l : MetricsLock}, c.holds l = true →
      ∃ r rest, c.pending = r :: rest ∧ l.read ∉ c.pending := by
    intro c l hc
    rw [SnapshotCall.holds, Bool.and_eq_true, decide_eq_true_eq, Bool.not_eq_true',
      List.isEmpty_eq_false_iff_exists_mem] at hc
    obtain ⟨⟨x, hx⟩, hnot⟩ := hc
    obtain ⟨r, rest, hpending⟩ := List.exists_cons_of_ne_nil (List.ne_nil_of_mem hx)
    exact ⟨r, rest, hpending, hnot⟩
  -- the holder of the second lock takes no lock any more
  have hsecond : ∀ c ∈ s.snapshots, c.holds .perIp = true →
      ∃ a s', a.continues = true ∧ s.next a = some s' := by
    intro c hc hcholds
    obtain ⟨r, rest, hpending, hnot⟩ := hunread hcholds
    obtain ⟨j, hj⟩ := List.mem_iff_getElem?.mp hc
    refine exists_read hj hpending ?_
    have hlock : r.lock = none := by
      cases hr : r.lock with
      | none => rfl
      | some l =>
        have hread := read_of_lock hr
        have hmem : l.read ∈ c.pending := by rw [hpending, hread]; exact .head _
        cases l with
        | perServer => exact absurd (ips_mem_of_servers_mem (h c hc) hmem) hnot
        | perIp => exact absurd hmem hnot
    rw [hlock]
    rfl
  by_cases hips : ∃ c ∈ s.snapshots, c.holds .perIp = true
  · obtain ⟨c, hc, hcholds⟩ := hips
    exact hsecond c hc hcholds
  · obtain ⟨r, rest, hpending, hnot⟩ := hunread hholds
    obtain ⟨j, hj⟩ := List.mem_iff_getElem?.mp hcall
    refine exists_read hj hpending ?_
    by_contra hlocked
    obtain ⟨l, hl, c, hc, hcholds⟩ := exists_holds (Bool.not_eq_false _ ▸ hlocked)
    have hread := read_of_lock hl
    cases l with
    | perIp => exact hips ⟨c, hc, hcholds⟩
    | perServer =>
      cases lock with
      | perServer => exact hnot (by rw [hpending, hread]; exact .head _)
      | perIp => exact hips ⟨call, hcall, hholds⟩

/-- **Unless every call has returned, some call can take its next step.** -/
theorem Sequenced.exists_continues (h : s.Sequenced) (hleft : ¬s.Returned) :
    ∃ a s', a.continues = true ∧ s.next a = some s' := by
  by_cases hheld : ∃ lock, ∃ call ∈ s.snapshots, call.holds lock = true
  · obtain ⟨lock, call, hcall, hholds⟩ := hheld
    exact h.exists_read_of_holds hcall hholds
  -- no lock is held, so that whoever has a step left takes it
  have hfree : ∀ lock, s.isLocked lock = false := by
    intro lock
    by_contra hlocked
    obtain ⟨l, -, call, hcall, hholds⟩ := exists_holds (Bool.not_eq_false _ ▸ hlocked)
    exact hheld ⟨l, call, hcall, hholds⟩
  rw [Returned, not_and_or, not_and_or] at hleft
  push Not at hleft
  rcases hleft with ⟨a, ha, hne⟩ | ⟨call, hcall, hne⟩ | ⟨call, hcall, hne⟩
  · obtain ⟨i, hi⟩ := List.mem_iff_getElem?.mp ha
    obtain ⟨sect, rest, hpending⟩ := List.exists_cons_of_ne_nil hne
    refine ⟨.caller (.advance i), { s with run := ⟨sect.run s.run.collector,
      s.run.activities.set i { a with done := a.done ++ [sect], pending := rest }⟩ }, rfl, ?_⟩
    simp only [next, hfree, MetricsRun.next, hi, hpending]
    rfl
  · obtain ⟨i, hi⟩ := List.mem_iff_getElem?.mp hcall
    obtain ⟨sect, rest, hpending⟩ := List.exists_cons_of_ne_nil hne
    refine ⟨.delay i, { s with
      run.collector := sect.run s.run.collector
      delays := s.delays.set i { call with done := call.done ++ [sect], pending := rest } },
      rfl, ?_⟩
    simp only [next, hfree, hi, hpending]
    rfl
  · obtain ⟨j, hj⟩ := List.mem_iff_getElem?.mp hcall
    obtain ⟨r, rest, hpending⟩ := List.exists_cons_of_ne_nil hne
    exact exists_read hj hpending (hfree _)

end SnapshotRun

/-- The runs in which no further call begins. -/
def returningSystem : Transition.System SnapshotRun SnapshotAction :=
  snapshotSystem.restrict fun _ a _ => a.continues = true

namespace SnapshotRun

variable {s : SnapshotRun}

/-- **Calls on a collector never wait for each other for ever**, although a snapshot takes one lock
while it holds another: from every reachable state, once no further call begins, every sequence of
steps is at most as long as the work that was left, can stop only when all calls have returned, and
some sequence gets there.

**Proof sketch.** Each step leaves one step less. While some call is in progress there is a step:
a snapshot that holds the map by address takes no lock any more, and without one the snapshot that
holds the map by server is not held up; without either nobody is. -/
theorem calls_return (h : snapshotSystem.Reach s) :
    (∃ tr s', returningSystem.Run s tr s' ∧ s'.Returned) ∧
      ∀ tr s', returningSystem.Run s tr s' →
        tr.length ≤ s.work ∧ ((∀ a, a.continues = true → s'.next a = none) → s'.Returned) := by
  have hlower : ∀ s a s', returningSystem.step s a s' → s'.work < s.work :=
    fun s a s' hst => work_lt hst.1 hst.2
  constructor
  · obtain ⟨tr, s', hrun, -, hend⟩ := Transition.System.exists_run_of_measure
      (M := returningSystem) (μ := work) (I := Sequenced) (D := Returned)
      (fun s hI hleft => by
        obtain ⟨a, s', ha, hnext⟩ := hI.exists_continues hleft
        exact ⟨a, s', ⟨hnext, ha⟩, hI.step hnext, work_lt hnext ha⟩)
      (sequenced_of_reach h)
    exact ⟨tr, s', hrun, hend⟩
  · intro tr s' hrun
    have hlength := Transition.System.Run.length_add_le hlower hrun
    refine ⟨by omega, fun hstuck => ?_⟩
    by_contra hleft
    obtain ⟨a, s'', ha, hnext⟩ :=
      (sequenced_of_reach (hrun.of_restrict.reach h)).exists_continues hleft
    rw [hstuck a ha] at hnext
    cases hnext

/-- One connection is recorded, and another one while a snapshot holds the map by server. -/
def lockedActions : List SnapshotAction :=
  [.caller (.record (.connection .tcp) (some "proxy".toList) (.v4 1))] ++
    List.replicate 4 (.caller (.advance 0)) ++
    [.snapshot, .read 0, .caller (.record (.connection .tls) (some "proxy".toList) (.v4 2)),
      .caller (.advance 1), .caller (.advance 1)]

/-- The state after them: the second connection waits for the lock. -/
def lockedRun : SnapshotRun := Transition.System.after next start lockedActions

/-- The state after them is reachable. -/
theorem lockedRun_reach : snapshotSystem.Reach lockedRun :=
  Transition.System.reach_after (.init rfl) fun _ _ _ _ hnext => hnext

/-- The second connection waits, and the twelve steps that are left can be taken. -/
theorem calls_return_lockedRun :
    lockedRun.next (.caller (.advance 1)) = none ∧ lockedRun.work = 12 ∧
      ∃ tr s', returningSystem.Run lockedRun tr s' ∧ s'.Returned :=
  ⟨by decide +kernel, by decide +kernel, (calls_return lockedRun_reach).1⟩

end SnapshotRun

end Synclaire
