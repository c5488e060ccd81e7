import Synclaire.Metrics.Concurrent
import Synclaire.Proxy.AcceptLoop
import Synclaire.Server.Footprint

set_option relaxedAutoImplicit false
set_option autoImplicit false

/-!
# A proxy with its guards and its metrics

A proxy server reserves each accepted connection at its guards, marks the session established,
records the connection and forwards it on a thread or task of its own, which records the close and
then closes the session. So a connection is kept in three ledgers: it is forwarded, it is open in
the metrics, and it is open at the guards. They change at different moments and agree whenever
nothing is under way.

## Main definitions

* `Synclaire.ProxyStage` — how far a connection has come.
* `Synclaire.ProxyServing`, `Synclaire.ProxyServing.next` — the guards, the metrics and the
  connections, and the step function.
* `Synclaire.proxySystem` — the runs of a proxy.
* `Synclaire.ProxyServing.Settled` — nothing is under way.

## Main results

* `Synclaire.ProxyServing.moves_of_next` — what every step does.
* `Synclaire.ProxyServing.Joined.step` — what every step keeps of the three ledgers.

## Implementation notes

The loop of a proxy deals with one connection after the other; here any number of them may be
reserved, established and recorded at a time, so the runs of a loop are among the runs below. A
connection that routing rejects or a guard refuses in `reserve` has no session, and its failure may
be recorded at any time; a connection that meets an empty pool leaves no trace. Forwarding ends for
any reason, an elapsed timeout included. The stack and its allowlist are private to the proxy.
-/

namespace Synclaire

/-- How far a connection that the guards have admitted has come. -/
inductive ProxyStage
  | reserved
  /-- `mark_established` runs, as call `call` of the stack. -/
  | establishing (call : ℕ)
  /-- `record_failure` runs, as a row of the metrics, after a guard refused the establishment. -/
  | refused (activity : ℕ)
  /-- `record_tcp_connection` runs. -/
  | recording (activity : ℕ)
  | forwarding (activity : ℕ)
  /-- `record_connection_close` runs. -/
  | unrecording (activity : ℕ)
  /-- `close` runs, as call `call` of the stack. -/
  | closing (call : ℕ)
  /-- The session is dropped. -/
  | finished
  deriving DecidableEq

namespace ProxyStage

/-- The connection is being forwarded. -/
def isForwarding : ProxyStage → Bool
  | .forwarding _ => true
  | _ => false

/-- `record_connection_close` was called for it, and its session is not closed yet. -/
def isUnrecording : ProxyStage → Bool
  | .unrecording _ => true
  | _ => false

/-- `close` was called on its session. -/
def isClosed : ProxyStage → Bool
  | .closing _ => true
  | .finished => true
  | _ => false

/-- Its row of the metrics, from its record to the close of its session. -/
def row : ProxyStage → Option ℕ
  | .recording i => some i
  | .forwarding i => some i
  | .unrecording i => some i
  | _ => none

end ProxyStage

/-- A connection that the guards have admitted. -/
structure ProxyConn where
  peer : SocketAddr
  stage : ProxyStage
  deriving DecidableEq

/-- A proxy in use: its stack, its metrics, and the connection of each session in the order of the
stack's table. -/
structure ProxyServing where
  stack : StackState BuiltinGuard
  metrics : MetricsRun
  conns : List ProxyConn
  deriving DecidableEq

/-- A step of a proxy. -/
inductive ProxyStep
  /-- A connection is accepted, routed to a backend, and `reserve` is called. -/
  | accept (peer : SocketAddr) (localAddr : Option SocketAddr) (tls : Bool) (now : Instant)
  /-- A call of the stack moves on. -/
  | advance (c : ℕ) (now : Instant)
  /-- `record_failure` is called for a connection that was rejected or refused. -/
  | reject (peer : SocketAddr)
  /-- A call of the metrics moves on. -/
  | metric (i : ℕ)
  /-- `mark_established` is called. -/
  | establish (k : ℕ)
  /-- `mark_established` has returned, and its result is recorded. -/
  | established (k : ℕ)
  /-- The connection is recorded and handed to a thread or task. -/
  | handOver (k : ℕ)
  /-- Forwarding has ended, and `record_connection_close` is called. -/
  | forwardEnds (k : ℕ)
  /-- What was to record is recorded, and `close` is called. -/
  | close (k : ℕ)
  /-- `close` has returned, and the session is dropped. -/
  | drop (k : ℕ)

namespace ProxyServing

/-- A proxy that has accepted nothing. -/
def start (config : GuardStackConfig) (now : Instant) : ProxyServing where
  stack := .start (buildGuardStack config now)
  metrics := .start
  conns := []

/-- The stack has moved on; the sessions it returned belong to new connections. -/
def withStack (s : ProxyServing) (stack : StackState BuiltinGuard) : ProxyServing :=
  { s with
    stack
    conns := s.conns ++ (stack.sessions.drop s.stack.sessions.length).map fun slot =>
      ⟨slot.session.context.peerAddr, .reserved⟩ }

/-- Connection `k` comes to a stage together with a step of the stack. -/
def onStack (s : ProxyServing) (k : ℕ) (conn : ProxyConn) (action : StackAction BuiltinGuard) :
    Option ProxyServing :=
  (s.stack.next action).map fun stack => { s with stack, conns := s.conns.set k conn }

/-- Connection `k` comes to a stage together with a call of the metrics. -/
def onMetrics (s : ProxyServing) (k : ℕ) (conn : ProxyConn) (action : MetricsAction) :
    Option ProxyServing :=
  (s.metrics.next action).map fun metrics => { s with metrics, conns := s.conns.set k conn }

/-- No call of the metrics is in progress for row `i`. -/
def recorded (s : ProxyServing) (i : ℕ) : Bool :=
  (s.metrics.activities[i]?).any fun a => a.pending = []

/-- The state after a step, if the step is possible. -/
def next (flavor : ProxyFlavor) (s : ProxyServing) : ProxyStep → Option ProxyServing
  | .accept peer localAddr tls now =>
    (s.stack.next (.reserve (.new peer localAddr tls now))).map s.withStack
  | .advance c now => (s.stack.next (.advance c now)).map s.withStack
  | .reject peer =>
    (s.metrics.next (.record .failure (some flavor.serverName) peer.ip)).map fun metrics =>
      { s with metrics }
  | .metric i => (s.metrics.next (.advance i)).map fun metrics => { s with metrics }
  | .establish k =>
    match s.conns[k]? with
    | some ⟨peer, .reserved⟩ =>
      s.onStack k ⟨peer, .establishing s.stack.calls.length⟩ (.markEstablished k)
    | _ => none
  | .established k =>
    match s.conns[k]? with
    | some ⟨peer, .establishing c⟩ =>
      match s.stack.calls[c]?.map StackCall.frame with
      | some (.returned (.ok _)) =>
        s.onMetrics k ⟨peer, .recording s.metrics.activities.length⟩
          (.record (.connection .tcp) (some flavor.serverName) peer.ip)
      | some (.returned (.error _)) =>
        s.onMetrics k ⟨peer, .refused s.metrics.activities.length⟩
          (.record .failure (some flavor.serverName) peer.ip)
      | _ => none
    | _ => none
  | .handOver k =>
    match s.conns[k]? with
    | some ⟨peer, .recording i⟩ =>
      if s.recorded i then some { s with conns := s.conns.set k ⟨peer, .forwarding i⟩ } else none
    | _ => none
  | .forwardEnds k =>
    match s.conns[k]? with
    | some ⟨peer, .forwarding i⟩ => s.onMetrics k ⟨peer, .unrecording i⟩ (.close i)
    | _ => none
  | .close k =>
    match s.conns[k]? with
    | some ⟨peer, .refused i⟩ =>
      if s.recorded i then s.onStack k ⟨peer, .closing s.stack.calls.length⟩ (.close k) else none
    | some ⟨peer, .unrecording i⟩ =>
      if s.recorded i then s.onStack k ⟨peer, .closing s.stack.calls.length⟩ (.close k) else none
    | _ => none
  | .drop k =>
    match s.conns[k]? with
    | some ⟨peer, .closing c⟩ =>
      if (s.stack.calls[c]?).any StackCall.isReturned then s.onStack k ⟨peer, .finished⟩ (.drop k)
      else none
    | _ => none

/-- The connections from addresses in `P` that are being forwarded. -/
def forwarded (s : ProxyServing) (P : IpAddr → Bool) : ℕ :=
  s.conns.countP fun conn => conn.stage.isForwarding && P conn.peer.ip

/-- Nothing is under way: the connections are forwarded or finished, and no call of the stack is in
progress. -/
structure Settled (s : ProxyServing) : Prop where
  stack : s.stack.Idle
  conns : ∀ conn ∈ s.conns, conn.stage.isForwarding = true ∨ conn.stage = .finished

end ProxyServing

/-- The runs of a proxy. -/
def proxySystem (flavor : ProxyFlavor) (config : GuardStackConfig) (now : Instant) :
    Transition.System ProxyServing ProxyStep where
  init s := s = .start config now
  step s a s' := s.next flavor a = some s'

/-! ## What a step does -/

/-- A connection comes to a stage together with a call on its session; `n` is the place of the
call. -/
inductive StackTurn (n : ℕ) : ProxyStage → SessionCall → ProxyStage → Prop
  | establish : StackTurn n .reserved .markEstablished (.establishing n)
  | closeRefused {i : ℕ} : StackTurn n (.refused i) .close (.closing n)
  | close {i : ℕ} : StackTurn n (.unrecording i) .close (.closing n)
  | drop {c : ℕ} : StackTurn n (.closing c) .drop .finished

/-- A connection comes to a stage together with a call of the metrics; `m` is the place of a new
row. -/
inductive MetricsTurn (serverName : Str) (peer : SocketAddr) (m : ℕ) :
    ProxyStage → MetricsAction → ProxyStage → Prop
  | record {c : ℕ} : MetricsTurn serverName peer m (.establishing c)
      (.record (.connection .tcp) (some serverName) peer.ip) (.recording m)
  | refuse {c : ℕ} : MetricsTurn serverName peer m (.establishing c)
      (.record .failure (some serverName) peer.ip) (.refused m)
  | close {i : ℕ} : MetricsTurn serverName peer m (.forwarding i) (.close i) (.unrecording i)

namespace ProxyServing

variable {flavor : ProxyFlavor} {config : GuardStackConfig} {start : Instant}
  {s s' : ProxyServing} {a : ProxyStep}

/-- The steps of a proxy. -/
inductive Moves (flavor : ProxyFlavor) (s : ProxyServing) : ProxyServing → Prop
  | stack {action : StackAction BuiltinGuard} {stack : StackState BuiltinGuard}
      (haction : (∃ ctx, action = .reserve ctx ∧ ctx.SameIp) ∨ ∃ c now, action = .advance c now)
      (hstack : s.stack.next action = some stack) : Moves flavor s (s.withStack stack)
  | metrics {action : MetricsAction} {metrics : MetricsRun}
      (haction : (∃ ip, action = .record .failure (some flavor.serverName) ip) ∨
        ∃ i, action = .advance i)
      (hmetrics : s.metrics.next action = some metrics) : Moves flavor s { s with metrics }
  | onStack {k : ℕ} {peer : SocketAddr} {old new : ProxyStage} {call : SessionCall}
      {action : StackAction BuiltinGuard} {stack : StackState BuiltinGuard}
      (hk : s.conns[k]? = some ⟨peer, old⟩) (hturn : StackTurn s.stack.calls.length old call new)
      (hrecorded : ∀ i, old = .unrecording i → s.recorded i = true)
      (hbegins : action.begins = some (k, call)) (hstack : s.stack.next action = some stack) :
      Moves flavor s { s with stack, conns := s.conns.set k ⟨peer, new⟩ }
  | onMetrics {k : ℕ} {peer : SocketAddr} {old new : ProxyStage} {action : MetricsAction}
      {metrics : MetricsRun} (hk : s.conns[k]? = some ⟨peer, old⟩)
      (hturn : MetricsTurn flavor.serverName peer s.metrics.activities.length old action new)
      (hreturned : ∀ c, old = .establishing c →
        (s.stack.calls[c]?).any StackCall.isReturned = true)
      (hmetrics : s.metrics.next action = some metrics) :
      Moves flavor s { s with metrics, conns := s.conns.set k ⟨peer, new⟩ }
  | handOver {k i : ℕ} {peer : SocketAddr} (hk : s.conns[k]? = some ⟨peer, .recording i⟩)
      (hrecorded : s.recorded i = true) :
      Moves flavor s { s with conns := s.conns.set k ⟨peer, .forwarding i⟩ }

/-- **What every step does**: the stack or the metrics move by themselves, or one connection comes
to its next stage, together with a call on its session or of the metrics. -/
theorem moves_of_next (h : s.next flavor a = some s') : Moves flavor s s' := by
  have honStack : ∀ {k : ℕ} {peer : SocketAddr} {old new : ProxyStage} {call : SessionCall}
      {action : StackAction BuiltinGuard}, s.conns[k]? = some ⟨peer, old⟩ →
      StackTurn s.stack.calls.length old call new →
      (∀ i, old = .unrecording i → s.recorded i = true) → action.begins = some (k, call) →
      s.onStack k ⟨peer, new⟩ action = some s' → Moves flavor s s' := by
    intro k peer old new call action hk hturn hrecorded hbegins hon
    obtain ⟨stack, hstack, rfl⟩ := Option.map_eq_some_iff.mp hon
    exact .onStack hk hturn hrecorded hbegins hstack
  have honMetrics : ∀ {k : ℕ} {peer : SocketAddr} {old new : ProxyStage}
      {action : MetricsAction}, s.conns[k]? = some ⟨peer, old⟩ →
      MetricsTurn flavor.serverName peer s.metrics.activities.length old action new →
      (∀ c, old = .establishing c → (s.stack.calls[c]?).any StackCall.isReturned = true) →
      s.onMetrics k ⟨peer, new⟩ action = some s' → Moves flavor s s' := by
    intro k peer old new action hk hturn hreturned hon
    obtain ⟨metrics, hmetrics, rfl⟩ := Option.map_eq_some_iff.mp hon
    exact .onMetrics hk hturn hreturned hmetrics
  have hreturned : ∀ {c c' : ℕ} {result : Except SynError Unit},
      s.stack.calls[c]?.map StackCall.frame = some (.returned result) →
      ProxyStage.establishing c = .establishing c' →
      (s.stack.calls[c']?).any StackCall.isReturned = true := by
    intro c c' result hframe hc
    obtain rfl := ProxyStage.establishing.inj hc
    obtain ⟨call, hcall, hreturned⟩ := Option.map_eq_some_iff.mp hframe
    rw [hcall, Option.any_some, StackCall.isReturned, hreturned]
  cases a with
  | accept peer localAddr tls now =>
    rw [next] at h
    obtain ⟨stack, hstack, rfl⟩ := Option.map_eq_some_iff.mp h
    exact .stack (.inl ⟨.new peer localAddr tls now, rfl, rfl⟩) hstack
  | advance c now =>
    rw [next] at h
    obtain ⟨stack, hstack, rfl⟩ := Option.map_eq_some_iff.mp h
    exact .stack (.inr ⟨c, now, rfl⟩) hstack
  | reject peer =>
    rw [next] at h
    obtain ⟨metrics, hmetrics, rfl⟩ := Option.map_eq_some_iff.mp h
    exact .metrics (.inl ⟨peer.ip, rfl⟩) hmetrics
  | metric i =>
    rw [next] at h
    obtain ⟨metrics, hmetrics, rfl⟩ := Option.map_eq_some_iff.mp h
    exact .metrics (.inr ⟨i, rfl⟩) hmetrics
  | establish k =>
    rw [next] at h
    split at h
    · next hk => exact honStack hk .establish nofun rfl h
    · cases h
  | established k =>
    rw [next] at h
    split at h
    · next hk =>
      split at h
      · next hframe => exact honMetrics hk .record (fun _ => hreturned hframe) h
      · next hframe => exact honMetrics hk .refuse (fun _ => hreturned hframe) h
      · cases h
    · cases h
  | handOver k =>
    rw [next] at h
    split at h
    · next hk =>
      split_ifs at h with hrecorded
      obtain rfl := Option.some.inj h
      exact .handOver hk hrecorded
    · cases h
  | forwardEnds k =>
    rw [next] at h
    split at h
    · next hk => exact honMetrics hk .close nofun h
    · cases h
  | close k =>
    rw [next] at h
    split at h
    · next hk =>
      split_ifs at h
      exact honStack hk .closeRefused nofun rfl h
    · next hk =>
      split_ifs at h with hrecorded
      refine honStack hk .close (fun i hi => ?_) rfl h
      cases hi
      exact hrecorded
    · cases h
  | drop k =>
    rw [next] at h
    split at h
    · next hk =>
      split_ifs at h
      exact honStack hk .drop nofun rfl h
    · cases h

/-! ## The three ledgers -/

end ProxyServing

/-- A call on a session of a proxy closes the session exactly when its connection comes to be
closed, and drops it when it is finished. -/
theorem StackTurn.flags {n : ℕ} {old new : ProxyStage} {call : SessionCall}
    (h : StackTurn n old call new) :
    new.isClosed = (old.isClosed || (call = .close || call = .drop)) ∧
      decide (new = .finished) = (decide (old = .finished) || decide (call = .drop)) := by
  cases h <;> exact ⟨rfl, rfl⟩

/-- A call of the metrics leaves the session of the connection open. -/
theorem MetricsTurn.flags {serverName : Str} {peer : SocketAddr} {m : ℕ} {old new : ProxyStage}
    {action : MetricsAction} (h : MetricsTurn serverName peer m old action new) :
    (old.isClosed = false ∧ new.isClosed = false) ∧ old ≠ .finished ∧ new ≠ .finished := by
  cases h <;> exact ⟨⟨rfl, rfl⟩, nofun, nofun⟩

/-- The record of a connection was called, and its close is not complete. -/
def MetricsActivity.isBusy (a : MetricsActivity) : Bool :=
  a.isConnection && !(a.closing && a.pending = [])

namespace ProxyServing

variable {flavor : ProxyFlavor} {config : GuardStackConfig} {start : Instant}
  {s s' : ProxyServing} {a : ProxyStep}

/-- A connection and its session: the session is guarded, and it is closed and dropped when the
connection has come so far. -/
structure ConnRow (conn : ProxyConn) (slot : SessionSlot) : Prop where
  peer : slot.session.context.peerAddr = conn.peer
  guarded : slot.session.allowed = false
  closed : slot.session.closed = conn.stage.isClosed
  dropped : slot.dropped = decide (conn.stage = .finished)

/-- A connection and its row of the metrics: the record of a connection that is forwarded is
complete, and its close is called when the connection has come so far. -/
structure RowOf (flavor : ProxyFlavor) (conn : ProxyConn) (row : MetricsActivity) : Prop where
  connection : row.isConnection = true
  serverName : row.serverName = some flavor.serverName
  peerIp : row.peerIp = conn.peer.ip
  closing : row.closing = conn.stage.isUnrecording
  complete : conn.stage.isForwarding = true → row.pending = []

/-- The connections and the metrics of a proxy: the connections have rows of their own, and the
row of a connection is busy only while it has it. -/
structure Metered (flavor : ProxyFlavor) (metrics : MetricsRun) (conns : List ProxyConn) :
    Prop where
  row : ∀ (k : ℕ) (conn : ProxyConn) (i : ℕ), conns[k]? = some conn → conn.stage.row = some i →
    ∃ row, metrics.activities[i]? = some row ∧ RowOf flavor conn row
  distinct : ∀ (k k' : ℕ) (conn conn' : ProxyConn) (i : ℕ), conns[k]? = some conn →
    conns[k']? = some conn' → conn.stage.row = some i → conn'.stage.row = some i → k = k'
  busy : ∀ (i : ℕ) (row : MetricsActivity), metrics.activities[i]? = some row →
    row.isBusy = true → ∃ (k : ℕ) (conn : ProxyConn), conns[k]? = some conn ∧
      conn.stage.row = some i

/-- What holds in every run of a proxy. -/
structure Joined (flavor : ProxyFlavor) (s : ProxyServing) : Prop where
  allowlist : s.stack.allowlist = .new
  known : StackState.Known GuardContext.SameIp s.stack
  rows : List.Forall₂ ConnRow s.conns s.stack.sessions
  metered : Metered flavor s.metrics s.conns

namespace Metered

variable {metrics : MetricsRun} {conns : List ProxyConn}

/-- A connection comes to another stage with the row it has, if it has one. -/
theorem set (h : Metered flavor metrics conns) {k : ℕ} {peer : SocketAddr} {old new : ProxyStage}
    (hk : conns[k]? = some ⟨peer, old⟩) (hrow : new.row = old.row)
    (hclosing : new.isUnrecording = old.isUnrecording)
    (hcomplete : new.isForwarding = true → ∀ i row, old.row = some i →
      metrics.activities[i]? = some row → row.pending = []) :
    Metered flavor metrics (conns.set k ⟨peer, new⟩) := by
  have hback : ∀ {k' : ℕ} {conn : ProxyConn} {i : ℕ},
      (conns.set k ⟨peer, new⟩)[k']? = some conn → conn.stage.row = some i →
      ∃ conn', conns[k']? = some conn' ∧ conn'.stage.row = some i := by
    intro k' conn i hconn hi
    rcases (Table.getElem?_set_eq_some hk).mp hconn with ⟨rfl, rfl⟩ | ⟨-, hconn⟩
    · exact ⟨_, hk, hrow ▸ hi⟩
    · exact ⟨conn, hconn, hi⟩
  constructor
  · intro k' conn i hconn hi
    rcases (Table.getElem?_set_eq_some hk).mp hconn with ⟨rfl, rfl⟩ | ⟨-, hconn⟩
    · have hold : old.row = some i := hrow ▸ hi
      obtain ⟨row, hrow', hof⟩ := h.row k' ⟨peer, old⟩ i hk hold
      exact ⟨row, hrow', hof.connection, hof.serverName, hof.peerIp,
        hof.closing.trans hclosing.symm, fun hnew => hcomplete hnew i row hold hrow'⟩
    · exact h.row k' conn i hconn hi
  · intro k₁ k₂ conn₁ conn₂ i h₁ h₂ hi₁ hi₂
    obtain ⟨conn₁', h₁', hi₁'⟩ := hback h₁ hi₁
    obtain ⟨conn₂', h₂', hi₂'⟩ := hback h₂ hi₂
    exact h.distinct k₁ k₂ conn₁' conn₂' i h₁' h₂' hi₁' hi₂'
  · intro i row hi hbusy
    obtain ⟨k', conn, hconn, hconn'⟩ := h.busy i row hi hbusy
    by_cases hk' : k' = k
    · obtain rfl := hk'
      obtain rfl := Option.some.inj (hk.symm.trans hconn)
      exact ⟨k', _, (Table.getElem?_set_eq_some hk).mpr (.inl ⟨rfl, rfl⟩), hrow.trans hconn'⟩
    · exact ⟨k', conn, (Table.getElem?_set_eq_some hk).mpr (.inr ⟨hk', hconn⟩), hconn'⟩

/-- New connections have no rows. -/
theorem append (h : Metered flavor metrics conns) {conns' : List ProxyConn}
    (hnew : ∀ conn ∈ conns', conn.stage.row = none) :
    Metered flavor metrics (conns ++ conns') := by
  have hback : ∀ {k : ℕ} {conn : ProxyConn} {i : ℕ}, (conns ++ conns')[k]? = some conn →
      conn.stage.row = some i → conns[k]? = some conn := by
    intro k conn i hconn hi
    rcases Nat.lt_or_ge k conns.length with hk | hk
    · rwa [List.getElem?_append_left hk] at hconn
    · rw [List.getElem?_append_right hk] at hconn
      rw [hnew conn (List.mem_of_getElem? hconn)] at hi
      cases hi
  constructor
  · exact fun k conn i hconn hi => h.row k conn i (hback hconn hi) hi
  · exact fun k k' conn conn' i h₁ h₂ hi₁ hi₂ =>
      h.distinct k k' conn conn' i (hback h₁ hi₁) (hback h₂ hi₂) hi₁ hi₂
  · intro i row hi hbusy
    obtain ⟨k, conn, hconn, hrow⟩ := h.busy i row hi hbusy
    have hlt := (List.getElem?_eq_some_iff.mp hconn).1
    exact ⟨k, conn, by rwa [List.getElem?_append_left hlt], hrow⟩

/-- A failure that is recorded is no row of a connection. -/
theorem failure (h : Metered flavor metrics conns) (serverName : Option Str) (ip : IpAddr) :
    Metered flavor { metrics with
      activities := metrics.activities ++ [.start .failure serverName ip] } conns where
  row k conn i hconn hi := by
    obtain ⟨row, hrow, hof⟩ := h.row k conn i hconn hi
    exact ⟨row, Table.getElem?_append_singleton.mpr (.inl hrow), hof⟩
  distinct := h.distinct
  busy i row hi hbusy := by
    rcases Table.getElem?_append_singleton.mp hi with hi | ⟨-, rfl⟩
    · exact h.busy i row hi hbusy
    · cases hbusy

/-- A call of the metrics moves on. The record of a connection that is forwarded is complete, so it
is the call of another row. -/
theorem advance (h : Metered flavor metrics conns) {i : ℕ} {row : MetricsActivity}
    {collector : MetricsCollector} {sect : MetricsSection} {rest : List MetricsSection}
    (hi : metrics.activities[i]? = some row) (hpending : row.pending = sect :: rest) :
    Metered flavor ⟨collector, metrics.activities.set i
      { row with done := row.done ++ [sect], pending := rest }⟩ conns where
  row k conn j hconn hj := by
    obtain ⟨row', hrow', hof⟩ := h.row k conn j hconn hj
    by_cases hji : j = i
    · obtain rfl := hji
      obtain rfl := Option.some.inj (hi.symm.trans hrow')
      refine ⟨_, (Table.getElem?_set_eq_some hi).mpr (.inl ⟨rfl, rfl⟩), hof.connection,
        hof.serverName, hof.peerIp, hof.closing, fun hforwarding => ?_⟩
      have := hof.complete hforwarding
      rw [hpending] at this
      cases this
    · exact ⟨row', (Table.getElem?_set_eq_some hi).mpr (.inr ⟨hji, hrow'⟩), hof⟩
  distinct := h.distinct
  busy j row' hj hbusy := by
    rcases (Table.getElem?_set_eq_some hi).mp hj with ⟨rfl, rfl⟩ | ⟨-, hj⟩
    · refine h.busy j row hi ?_
      simp only [MetricsActivity.isBusy, Bool.and_eq_true] at hbusy ⊢
      exact ⟨hbusy.1, by simp [hpending]⟩
    · exact h.busy j row' hj hbusy

/-- A connection that is recorded has a new row. -/
theorem record (h : Metered flavor metrics conns) {k c : ℕ} {peer : SocketAddr}
    (hk : conns[k]? = some ⟨peer, .establishing c⟩) :
    Metered flavor { metrics with activities := metrics.activities ++
        [.start (.connection .tcp) (some flavor.serverName) peer.ip] }
      (conns.set k ⟨peer, .recording metrics.activities.length⟩) := by
  have hlt : ∀ {k' : ℕ} {conn : ProxyConn} {i : ℕ}, conns[k']? = some conn →
      conn.stage.row = some i → i < metrics.activities.length := by
    intro k' conn i hconn hi
    obtain ⟨row, hrow, -⟩ := h.row k' conn i hconn hi
    exact (List.getElem?_eq_some_iff.mp hrow).1
  constructor
  · intro k' conn i hconn hi
    rcases (Table.getElem?_set_eq_some hk).mp hconn with ⟨rfl, rfl⟩ | ⟨-, hconn⟩
    · obtain rfl := Option.some.inj hi
      exact ⟨_, Table.getElem?_append_singleton.mpr (.inr ⟨rfl, rfl⟩), rfl, rfl, rfl, rfl, nofun⟩
    · obtain ⟨row, hrow, hof⟩ := h.row k' conn i hconn hi
      exact ⟨row, Table.getElem?_append_singleton.mpr (.inl hrow), hof⟩
  · intro k₁ k₂ conn₁ conn₂ i h₁ h₂ hi₁ hi₂
    rcases (Table.getElem?_set_eq_some hk).mp h₁ with ⟨rfl, rfl⟩ | ⟨-, hold₁⟩ <;>
      rcases (Table.getElem?_set_eq_some hk).mp h₂ with ⟨rfl, rfl⟩ | ⟨-, hold₂⟩
    · rfl
    · obtain rfl := Option.some.inj hi₁
      exact absurd (hlt hold₂ hi₂) (lt_irrefl _)
    · obtain rfl := Option.some.inj hi₂
      exact absurd (hlt hold₁ hi₁) (lt_irrefl _)
    · exact h.distinct k₁ k₂ conn₁ conn₂ i hold₁ hold₂ hi₁ hi₂
  · intro i row hi hbusy
    rcases Table.getElem?_append_singleton.mp hi with hi | ⟨rfl, -⟩
    · obtain ⟨k', conn, hconn, hrow⟩ := h.busy i row hi hbusy
      have hk' : k' ≠ k := by
        rintro rfl
        obtain rfl := Option.some.inj (hk.symm.trans hconn)
        cases hrow
      exact ⟨k', conn, (Table.getElem?_set_eq_some hk).mpr (.inr ⟨hk', hconn⟩), hrow⟩
    · exact ⟨k, _, (Table.getElem?_set_eq_some hk).mpr (.inl ⟨rfl, rfl⟩), rfl⟩

/-- The close of a connection is recorded in its row. -/
theorem close (h : Metered flavor metrics conns) {k i : ℕ} {peer : SocketAddr}
    {row : MetricsActivity} (hk : conns[k]? = some ⟨peer, .forwarding i⟩)
    (hi : metrics.activities[i]? = some row) :
    Metered flavor { metrics with activities := metrics.activities.set i row.close }
      (conns.set k ⟨peer, .unrecording i⟩) := by
  have hback : ∀ {k' : ℕ} {conn : ProxyConn} {j : ℕ},
      (conns.set k ⟨peer, .unrecording i⟩)[k']? = some conn → conn.stage.row = some j →
      ∃ conn', conns[k']? = some conn' ∧ conn'.stage.row = some j := by
    intro k' conn j hconn hj
    rcases (Table.getElem?_set_eq_some hk).mp hconn with ⟨rfl, rfl⟩ | ⟨-, hconn⟩
    · exact ⟨_, hk, hj⟩
    · exact ⟨conn, hconn, hj⟩
  constructor
  · intro k' conn j hconn hj
    rcases (Table.getElem?_set_eq_some hk).mp hconn with ⟨rfl, rfl⟩ | ⟨hne, hconn⟩
    · obtain rfl := Option.some.inj hj
      obtain ⟨row', hrow', hof⟩ := h.row k' _ i hk rfl
      obtain rfl := Option.some.inj (hi.symm.trans hrow')
      exact ⟨_, (Table.getElem?_set_eq_some hi).mpr (.inl ⟨rfl, rfl⟩), hof.connection,
        hof.serverName, hof.peerIp, rfl, nofun⟩
    · obtain ⟨row', hrow', hof⟩ := h.row k' conn j hconn hj
      have hji : j ≠ i := fun hji => hne (h.distinct k' k conn _ i hconn hk (hji ▸ hj) rfl)
      exact ⟨row', (Table.getElem?_set_eq_some hi).mpr (.inr ⟨hji, hrow'⟩), hof⟩
  · intro k₁ k₂ conn₁ conn₂ j h₁ h₂ hj₁ hj₂
    obtain ⟨conn₁', h₁', hj₁'⟩ := hback h₁ hj₁
    obtain ⟨conn₂', h₂', hj₂'⟩ := hback h₂ hj₂
    exact h.distinct k₁ k₂ conn₁' conn₂' j h₁' h₂' hj₁' hj₂'
  · intro j row' hj hbusy
    rcases (Table.getElem?_set_eq_some hi).mp hj with ⟨rfl, -⟩ | ⟨hji, hj⟩
    · exact ⟨k, _, (Table.getElem?_set_eq_some hk).mpr (.inl ⟨rfl, rfl⟩), rfl⟩
    · obtain ⟨k', conn, hconn, hrow⟩ := h.busy j row' hj hbusy
      have hk' : k' ≠ k := by
        rintro rfl
        obtain rfl := Option.some.inj (hk.symm.trans hconn)
        exact hji (Option.some.inj hrow).symm
      exact ⟨k', conn, (Table.getElem?_set_eq_some hk).mpr (.inr ⟨hk', hconn⟩), hrow⟩

/-- A connection whose close is complete gives up its row. -/
theorem release (h : Metered flavor metrics conns) {k i : ℕ} {peer : SocketAddr} {new : ProxyStage}
    (hk : conns[k]? = some ⟨peer, .unrecording i⟩)
    (hrecorded : (metrics.activities[i]?).any (fun a => a.pending = []) = true)
    (hnew : new.row = none) : Metered flavor metrics (conns.set k ⟨peer, new⟩) := by
  have hback : ∀ {k' : ℕ} {conn : ProxyConn} {j : ℕ}, (conns.set k ⟨peer, new⟩)[k']? = some conn →
      conn.stage.row = some j → conns[k']? = some conn := by
    intro k' conn j hconn hj
    rcases (Table.getElem?_set_eq_some hk).mp hconn with ⟨rfl, rfl⟩ | ⟨-, hconn⟩
    · rw [hnew] at hj
      cases hj
    · exact hconn
  constructor
  · exact fun k' conn j hconn hj => h.row k' conn j (hback hconn hj) hj
  · exact fun k₁ k₂ conn₁ conn₂ j h₁ h₂ hj₁ hj₂ =>
      h.distinct k₁ k₂ conn₁ conn₂ j (hback h₁ hj₁) (hback h₂ hj₂) hj₁ hj₂
  · intro j row hj hbusy
    obtain ⟨k', conn, hconn, hrow⟩ := h.busy j row hj hbusy
    have hk' : k' ≠ k := by
      rintro rfl
      obtain rfl := Option.some.inj (hk.symm.trans hconn)
      obtain rfl := Option.some.inj hrow
      -- the row of this connection is not busy any more
      obtain ⟨row', hrow', hof⟩ := h.row k' _ i hk rfl
      obtain rfl := Option.some.inj (hj.symm.trans hrow')
      rw [hj] at hrecorded
      have hclosing : row.closing = true := hof.closing
      simp only [Option.any_some, decide_eq_true_eq] at hrecorded
      simp [MetricsActivity.isBusy, hclosing, hrecorded] at hbusy
    exact ⟨k', conn, (Table.getElem?_set_eq_some hk).mpr (.inr ⟨hk', hconn⟩), hrow⟩

end Metered

/-! ## What every step keeps -/

/-- The stack moves in a reservation: a new session belongs to a new connection. -/
theorem Joined.rows_withStack {stack : StackState BuiltinGuard} {action : StackAction BuiltinGuard}
    (h : Joined flavor s)
    (hreserve : (∃ ctx, action = .reserve ctx) ∨ ∃ c now, action = .advance c now)
    (hstack : s.stack.next action = some stack) :
    List.Forall₂ ConnRow (s.withStack stack).conns stack.sessions := by
  rw [withStack]
  rcases ServerState.sessions_next h.allowlist hreserve hstack with heq | ⟨ctx, owner, heq⟩
  · rw [heq, List.drop_length, List.map_nil, List.append_nil]
    exact h.rows
  · rw [heq, List.drop_left]
    exact List.rel_append h.rows (.cons ⟨rfl, rfl, rfl, rfl⟩ .nil)

/-- A call on the session of a connection: the flags of the session follow the stage. -/
theorem Joined.rows_onStack {k : ℕ} {peer : SocketAddr} {old new : ProxyStage} {call : SessionCall}
    {action : StackAction BuiltinGuard} {stack : StackState BuiltinGuard} (h : Joined flavor s)
    (hk : s.conns[k]? = some ⟨peer, old⟩) (hturn : StackTurn s.stack.calls.length old call new)
    (hbegins : action.begins = some (k, call)) (hstack : s.stack.next action = some stack) :
    List.Forall₂ ConnRow (s.conns.set k ⟨peer, new⟩) stack.sessions := by
  obtain ⟨slot, hslot, rfl⟩ := ServerState.next_of_begins hbegins hstack
  have hrow : ConnRow ⟨peer, old⟩ slot := by
    have hrel := Table.forall₂_getElem? h.rows k
    rw [hk, hslot] at hrel
    cases hrel with
    | some hrow => exact hrow
  obtain ⟨hclosed', hfinished⟩ := hturn.flags
  obtain ⟨hdropped, hclosed⟩ := call.first_dropped_closed hrow.guarded
  refine Table.forall₂_set h.rows k ⟨?_, ?_, ?_, ?_⟩
  · rw [call.first_context]
    exact hrow.peer
  · rw [(call.first_allowed_owner slot).1]
    exact hrow.guarded
  · rw [hclosed, hrow.closed, hclosed']
  · rw [hdropped, hrow.dropped, hfinished]

/-- A connection comes to a stage by itself or with a call of the metrics. -/
theorem Joined.rows_set {k : ℕ} {peer : SocketAddr} {old new : ProxyStage} (h : Joined flavor s)
    (hk : s.conns[k]? = some ⟨peer, old⟩) (hclosed : old.isClosed = false ∧ new.isClosed = false)
    (hfinished : old ≠ .finished ∧ new ≠ .finished) :
    List.Forall₂ ConnRow (s.conns.set k ⟨peer, new⟩) s.stack.sessions := by
  refine Table.forall₂_set_left h.rows hk fun slot hrow => ⟨hrow.peer, hrow.guarded, ?_, ?_⟩
  · rw [hrow.closed]
    exact hclosed.1.trans hclosed.2.symm
  · rw [hrow.dropped]
    simp [hfinished]

/-- The metrics move by themselves. -/
theorem Metered.next {metrics metrics' : MetricsRun} {conns : List ProxyConn}
    {action : MetricsAction} (h : Metered flavor metrics conns)
    (haction : (∃ ip, action = .record .failure (some flavor.serverName) ip) ∨
      ∃ i, action = .advance i) (hnext : metrics.next action = some metrics') :
    Metered flavor metrics' conns := by
  rcases haction with ⟨ip, rfl⟩ | ⟨i, rfl⟩
  · cases MetricsRun.moves_of_next hnext
    exact h.failure (some flavor.serverName) ip
  · cases MetricsRun.moves_of_next hnext with
    | advance hi hpending => exact h.advance hi hpending

/-- A connection comes to a stage with a call of the metrics. -/
theorem Metered.turn {metrics metrics' : MetricsRun} {conns : List ProxyConn} {k : ℕ}
    {peer : SocketAddr} {old new : ProxyStage} {action : MetricsAction}
    (h : Metered flavor metrics conns) (hk : conns[k]? = some ⟨peer, old⟩)
    (hturn : MetricsTurn flavor.serverName peer metrics.activities.length old action new)
    (hnext : metrics.next action = some metrics') :
    Metered flavor metrics' (conns.set k ⟨peer, new⟩) := by
  cases hturn with
  | record =>
    cases MetricsRun.moves_of_next hnext
    exact h.record hk
  | refuse =>
    cases MetricsRun.moves_of_next hnext
    exact (h.failure (some flavor.serverName) peer.ip).set hk rfl rfl nofun
  | close =>
    cases MetricsRun.moves_of_next hnext with
    | close hi hclose => exact h.close hk hi

/-- A connection comes to a stage with a call on its session. -/
theorem Metered.call {k n : ℕ} {peer : SocketAddr} {old new : ProxyStage} {call : SessionCall}
    (h : Metered flavor s.metrics s.conns) (hk : s.conns[k]? = some ⟨peer, old⟩)
    (hturn : StackTurn n old call new)
    (hrecorded : ∀ i, old = .unrecording i → s.recorded i = true) :
    Metered flavor s.metrics (s.conns.set k ⟨peer, new⟩) := by
  cases hturn with
  | close => exact h.release hk (hrecorded _ rfl) rfl
  | _ => exact h.set hk rfl rfl nofun

/-- **One step of a proxy** keeps the ledgers joined. -/
theorem Joined.step (h : Joined flavor s) (hstep : s.next flavor a = some s') :
    Joined flavor s' := by
  cases moves_of_next hstep with
  | @stack action stack haction hstack =>
    have hreserve : (∃ ctx, action = .reserve ctx) ∨ ∃ c now, action = .advance c now :=
      haction.imp_left fun ⟨ctx, hctx, _⟩ => ⟨ctx, hctx⟩
    refine ⟨?_, h.known.next hstack ?_, h.rows_withStack hreserve hstack, h.metered.append ?_⟩
    · refine (ServerState.allowlist_next ?_ ?_ ?_ hstack).trans h.allowlist <;>
        rcases haction with ⟨ctx, rfl, -⟩ | ⟨c, now, rfl⟩ <;> exact nofun
    · rintro ctx rfl
      rcases haction with ⟨ctx', hctx', hsame⟩ | ⟨c, now, hctx'⟩
      · cases hctx'
        exact hsame
      · cases hctx'
    · intro conn hmem
      obtain ⟨slot, -, rfl⟩ := List.mem_map.mp hmem
      rfl
  | metrics haction hmetrics =>
    exact ⟨h.allowlist, h.known, h.rows, h.metered.next haction hmetrics⟩
  | @onStack k peer old new call action stack hk hturn hrecorded hbegins hstack =>
    refine ⟨?_, h.known.next hstack ?_, h.rows_onStack hk hturn hbegins hstack,
      h.metered.call hk hturn hrecorded⟩
    · refine (ServerState.allowlist_next ?_ ?_ ?_ hstack).trans h.allowlist <;> intros <;>
        rintro rfl <;> cases hbegins
    · rintro ctx rfl
      cases hbegins
  | @onMetrics k peer old new action metrics hk hturn hreturned hmetrics =>
    obtain ⟨hclosed, hfinished⟩ := hturn.flags
    exact ⟨h.allowlist, h.known, h.rows_set hk hclosed hfinished,
      h.metered.turn hk hturn hmetrics⟩
  | @handOver k i peer hk hrecorded =>
    refine ⟨h.allowlist, h.known, h.rows_set hk ⟨rfl, rfl⟩ ⟨nofun, nofun⟩,
      h.metered.set hk rfl rfl fun _ j row hj hrow => ?_⟩
    obtain rfl := Option.some.inj hj
    simpa [recorded, hrow] using hrecorded

/-- The ledgers of a proxy are joined in every state it reaches. -/
theorem joined_of_reach (h : (proxySystem flavor config start).Reach s) : Joined flavor s := by
  refine Transition.System.Reach.invariant (I := Joined flavor) ?_ ?_ h
  · rintro _ rfl
    exact ⟨rfl, ⟨by simp [ProxyServing.start, StackState.start],
      by simp [ProxyServing.start, StackState.start]⟩, .nil,
      ⟨by simp [ProxyServing.start], by simp [ProxyServing.start],
        by simp [ProxyServing.start, MetricsRun.start]⟩⟩
  · exact fun s a s' _ hI hstep => hI.step hstep

/-! ## The stack and the metrics of a proxy -/

/-- The stack of a proxy runs as a built stack does. -/
theorem reach_stack (h : (proxySystem flavor config start).Reach s) :
    (builtSystem config start).Reach s.stack := by
  refine Transition.System.Reach.invariant
    (I := fun s : ProxyServing => (builtSystem config start).Reach s.stack) ?_ ?_ h
  · rintro _ rfl
    exact .init rfl
  · intro s a s' _ hI hstep
    cases moves_of_next hstep with
    | @stack action stack haction hstack =>
      refine .step hI ⟨hstack, fun i g hi => ?_⟩
      rcases haction with ⟨ctx, rfl, -⟩ | ⟨c, now, rfl⟩ <;> cases hi
    | @onStack k peer old new call action stack hk hturn hrecorded hbegins hstack =>
      refine .step hI ⟨hstack, fun i g hi => ?_⟩
      subst hi
      cases hbegins
    | metrics haction hmetrics => exact hI
    | onMetrics hk hturn hreturned hmetrics => exact hI
    | handOver hk hrecorded => exact hI

/-- The metrics of a proxy run as a collector does. -/
theorem reach_metrics (h : (proxySystem flavor config start).Reach s) :
    metricsSystem.Reach s.metrics := by
  refine Transition.System.Reach.invariant
    (I := fun s : ProxyServing => metricsSystem.Reach s.metrics) ?_ ?_ h
  · rintro _ rfl
    exact .init rfl
  · intro s a s' _ hI hstep
    cases moves_of_next hstep with
    | stack haction hstack => exact hI
    | onStack hk hturn hrecorded hbegins hstack => exact hI
    | metrics haction hmetrics => exact .step hI hmetrics
    | onMetrics hk hturn hreturned hmetrics => exact .step hI hmetrics
    | handOver hk hrecorded => exact hI

end ProxyServing

end Synclaire
