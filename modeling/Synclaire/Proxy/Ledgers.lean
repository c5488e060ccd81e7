import Synclaire.Proxy.Serving

set_option relaxedAutoImplicit false
set_option autoImplicit false

/-!
# The ledgers of a proxy

A connection is open at the guards before it is open in the metrics, and it is open in the metrics
before it is forwarded; on its way out the order is the same. So at every moment the connections
that are forwarded are at most those in the metrics, and these at most those for which the throttle
holds a slot. Whenever nothing is under way the numbers are equal.

## Main results

* `Synclaire.ProxyServing.ledgers_ordered` — the order of the ledgers, and the caps above them.
* `Synclaire.ProxyServing.ledgers_agree` — a settled proxy has the same number in each.
* `Synclaire.ProxyServing.refusals_of_admission` — which callbacks a proxy makes, and who refuses.
-/

namespace Synclaire

/-! ## What a row leaves of a gauge -/

namespace MetricsActivity

variable {a : MetricsActivity} {c : Counter}

/-- A row leaves something of a gauge only while it is busy. -/
theorem Coherent.net_le_isBusy (h : a.Coherent) (hc : c.isGauge = true) :
    a.net c ≤ (a.isBusy && decide (c.Concerns a.serverName a.peerIp)).toNat := by
  have hadded := h.added_add_pending c
  by_cases hcounts : c.Concerns a.serverName a.peerIp ∧ c.counts a.record = true
  · have hconnection : a.isConnection = true := by
      have hsort := Counter.ofFailures_of_counts hcounts.2
      have hgauge : c.ofFailures = false := by
        cases c <;> simp_all [Counter.isGauge, Counter.ofFailures]
      simpa [isConnection] using hsort.symm.trans hgauge
    by_cases hdone : a.closing = true ∧ a.pending = []
    · rw [h.net_eq hdone.2, if_neg fun hnet => hnet.2.2 ⟨hdone.1, hc⟩]
      exact Nat.zero_le _
    · have hbusy : a.isBusy = true := by
        simp only [isBusy, hconnection, Bool.true_and, Bool.not_eq_true', Bool.and_eq_false_iff,
          decide_eq_false_iff_not]
        rcases Classical.em (a.closing = true) with hclosing | hclosing
        · exact .inr fun hpending => hdone ⟨hclosing, hpending⟩
        · exact .inl (by simpa using hclosing)
      rw [if_pos hcounts] at hadded
      rw [hbusy, decide_eq_true hcounts.1]
      show a.added c - a.taken c ≤ 1
      omega
  · rw [if_neg hcounts] at hadded
    have hzero : a.net c = 0 := by
      unfold net
      omega
    rw [hzero]
    exact Nat.zero_le _

/-- A connection whose record is complete and whose close was not called is in its gauges. -/
theorem Coherent.net_of_open (h : a.Coherent) (hc : c.isGauge = true) (hopen : a.isOpen = true)
    (hpending : a.pending = []) : a.net c = (decide (c.Concerns a.serverName a.peerIp)).toNat := by
  simp only [isOpen, Bool.and_eq_true, Bool.not_eq_true'] at hopen
  have hrecord : a.record ≠ .failure := of_decide_eq_true hopen.1
  rw [h.net_eq hpending, Table.toNat_decide]
  refine if_congr ⟨fun hnet => hnet.1, fun hconcerns => ?_⟩ rfl rfl
  exact ⟨hconcerns, Counter.counts_of_isGauge hc hrecord, fun hclosed => by
    rw [hopen.2] at hclosed
    cases hclosed.1⟩

end MetricsActivity

namespace ProxyServing

variable {flavor : ProxyFlavor} {config : GuardStackConfig} {start : Instant}
  {s s' : ProxyServing} {a : ProxyStep} {c : Counter}

/-! ## The order of the ledgers -/

/-- The connections that a count of a proxy has to do with. -/
def concerned (flavor : ProxyFlavor) (c : Counter) (ip : IpAddr) : Bool :=
  c.Concerns (some flavor.serverName) ip

/-- **A gauge counts at least the connections that are forwarded.**

**Proof sketch.** Each of them has a row of its own, whose record is complete and which leaves one
of the gauge. -/
theorem Joined.forwarded_le_read (h : Joined flavor s) (hledger : s.metrics.Ledger)
    (hc : c.isGauge = true) :
    s.forwarded (concerned flavor c) ≤ c.read s.metrics.collector := by
  let counted (row : MetricsActivity) : Bool :=
    row.isOpen && row.pending = [] && decide (c.Concerns row.serverName row.peerIp)
  have hrows : s.forwarded (concerned flavor c) ≤ s.metrics.activities.countP counted := by
    refine Table.countP_le_countP
      (fun k i => ∃ conn, s.conns[k]? = some conn ∧ conn.stage.row = some i) ?_ ?_
    · intro k conn hconn hforwarded
      rw [Bool.and_eq_true] at hforwarded
      obtain ⟨i, hi⟩ : ∃ i, conn.stage = .forwarding i := by
        have := hforwarded.1
        unfold ProxyStage.isForwarding at this
        split at this
        · next i hstage => exact ⟨i, hstage⟩
        · cases this
      have hi' : conn.stage.row = some i := by rw [hi]; rfl
      obtain ⟨row, hrow, hof⟩ := h.metered.row k conn i hconn hi'
      refine ⟨i, row, hrow, ?_, conn, hconn, hi'⟩
      have hclosing : row.closing = false := hof.closing.trans (by rw [hi]; rfl)
      simpa [counted, MetricsActivity.isOpen, hof.connection, hclosing, hof.complete hforwarded.1,
        hof.serverName, hof.peerIp, concerned] using hforwarded.2
    · rintro k k' - - i - - ⟨conn, hconn, hi⟩ ⟨conn', hconn', hi'⟩
      exact h.metered.distinct k k' conn conn' i hconn hconn' hi hi'
  refine hrows.trans ?_
  rw [hledger.read, Table.countP_eq_tally]
  refine Table.tally_le_tally fun row hrow => ?_
  by_cases hcounted : (row.isOpen && row.pending = []) = true
  · rw [Bool.and_eq_true, decide_eq_true_eq] at hcounted
    rw [(hledger.coherent row hrow).net_of_open hc hcounted.1 hcounted.2]
    simp [counted, hcounted]
  · simp [counted, hcounted]

/-- The open sessions are those of the connections whose session is not closed. -/
theorem Joined.openSessions_eq (h : Joined flavor s) (P : IpAddr → Bool) :
    s.stack.openSessions (fun ctx => P ctx.peerIp) =
      s.conns.countP fun conn => !conn.stage.isClosed && P conn.peer.ip := by
  have hsame := h.known.sessions
  have hrows := h.rows
  unfold StackState.openSessions
  generalize s.conns = conns, s.stack.sessions = sessions at hrows hsame
  induction hrows with
  | nil => rfl
  | @cons conn slot conns slots hrow _ ih =>
    have hip : slot.session.context.peerIp = conn.peer.ip := by
      rw [hsame slot (List.mem_cons_self ..), hrow.peer]
    rw [List.countP_cons, List.countP_cons, ih fun slot' hmem =>
      hsame slot' (List.mem_cons_of_mem _ hmem)]
    simp [StackState.isOpen, hrow.guarded, hrow.closed, hip, Bool.and_comm]

/-- **A gauge counts at most the open sessions.**

**Proof sketch.** A row leaves something of the gauge only while it is busy. Then a connection has
it, whose session is not closed. -/
theorem Joined.read_le_openSessions (h : Joined flavor s) (hledger : s.metrics.Ledger)
    (hc : c.isGauge = true) :
    c.read s.metrics.collector ≤
      s.stack.openSessions fun ctx => concerned flavor c ctx.peerIp := by
  let counted (row : MetricsActivity) : Bool :=
    row.isBusy && decide (c.Concerns row.serverName row.peerIp)
  have hrows : c.read s.metrics.collector ≤ s.metrics.activities.countP counted := by
    rw [hledger.read, Table.countP_eq_tally]
    exact Table.tally_le_tally fun row hrow => (hledger.coherent row hrow).net_le_isBusy hc
  refine hrows.trans ?_
  rw [h.openSessions_eq (concerned flavor c)]
  refine Table.countP_le_countP
    (fun i k => ∃ conn, s.conns[k]? = some conn ∧ conn.stage.row = some i) ?_ ?_
  · intro i row hi hcounted
    rw [Bool.and_eq_true, decide_eq_true_eq] at hcounted
    obtain ⟨k, conn, hconn, hrow⟩ := h.metered.busy i row hi hcounted.1
    obtain ⟨row', hrow', hof⟩ := h.metered.row k conn i hconn hrow
    obtain rfl := Option.some.inj (hi.symm.trans hrow')
    refine ⟨k, conn, hconn, ?_, conn, hconn, hrow⟩
    have hopen : conn.stage.isClosed = false := by
      cases hstage : conn.stage <;> simp_all [ProxyStage.row, ProxyStage.isClosed]
    have hconcerns := hcounted.2
    rw [hof.serverName, hof.peerIp] at hconcerns
    simp [hopen, concerned, hconcerns]
  · rintro i i' - - k - - ⟨conn, hconn, hi⟩ ⟨conn', hconn', hi'⟩
    obtain rfl := Option.some.inj (hconn.symm.trans hconn')
    exact Option.some.inj (hi.symm.trans hi')

/-- A throttle of a running stack has the caps of the configuration, holds a slot for each open
session at least, and stays within its caps. -/
theorem throttle_covers {t : StackState BuiltinGuard} (h : (builtSystem config start).Reach t)
    {g : Throttle} (hg : .throttle g ∈ t.guards) :
    (t.openSessions ofAny ≤ g.global ∧ g.global ≤ g.config.maxConnectionsGlobal) ∧
      ∀ ip, t.openSessions (ofIp ip) ≤ g.heldBy ip ∧
        g.heldBy ip ≤ g.config.maxConnectionsPerIp := by
  obtain ⟨j, cap, hbuilt, hj⟩ := ServerState.exists_throttle h hg
  have hnew : BuiltinGuard.IsThrottle cap (.throttle (.new cap)) :=
    ⟨rfl, Nat.zero_le _, fun _ => Nat.zero_le _⟩
  obtain ⟨hcap, hwithin⟩ : BuiltinGuard.IsThrottle cap (.throttle g) :=
    ((meter_global cap).add_closes banChange_isThrottle hbuilt hnew rfl h _ hj).1
  have hglobal := (meter_global cap).openSessions_le banChange_isThrottle hbuilt hnew rfl h hj
  have hheld := fun ip =>
    (meter_heldBy cap ip).openSessions_le banChange_isThrottle hbuilt hnew rfl h hj
  exact ⟨⟨hglobal, hwithin.1⟩, fun ip => ⟨hheld ip, hwithin.2 ip⟩⟩

/-- The total of the metrics has to do with every address. -/
theorem concerned_active : concerned flavor .active = fun _ => true :=
  funext fun _ => decide_eq_true trivial

/-- The entry of the proxy has to do with every address. -/
theorem concerned_server : concerned flavor (.server flavor.serverName .active) = fun _ => true :=
  funext fun _ => decide_eq_true rfl

/-- The entry of an address has to do with it. -/
theorem concerned_ip (ip : IpAddr) : concerned flavor (.ip ip .active) = fun addr => addr = ip :=
  funext fun _ => decide_eq_decide.mpr eq_comm

/-- **The ledgers of a proxy are ordered**, at every moment of every run: the connections that are
forwarded are at most those open in the metrics, these are at most the open sessions, and these are
at most the slots that a throttle counts, which stay within its caps; for each address and in total,
and in the total of the metrics as in their entry for the proxy.

**Proof sketch.** A connection has a session from `reserve` to its close. The gauges count it at
most while it has a row, which it has later and gives up earlier, and at least while it is
forwarded, which begins when its record is complete and ends before its close is recorded. -/
theorem ledgers_ordered (h : (proxySystem flavor config start).Reach s)
    (hcounted : s.metrics.Counted) :
    (∀ n, n = s.metrics.collector.active.toNat ∨
        n = s.metrics.collector.ofServer flavor.serverName PerServerMetrics.active →
      s.forwarded (fun _ => true) ≤ n ∧ n ≤ s.stack.openSessions ofAny) ∧
    (∀ ip, s.forwarded (fun addr => addr = ip) ≤
        s.metrics.collector.ofIp ip PerIpMetrics.active ∧
      s.metrics.collector.ofIp ip PerIpMetrics.active ≤ s.stack.openSessions (ofIp ip)) ∧
    ∀ g, .throttle g ∈ s.stack.guards →
      (s.stack.openSessions ofAny ≤ g.global ∧ g.global ≤ g.config.maxConnectionsGlobal) ∧
        ∀ ip, s.stack.openSessions (ofIp ip) ≤ g.heldBy ip ∧
          g.heldBy ip ≤ g.config.maxConnectionsPerIp := by
  have hjoined := joined_of_reach h
  have hledger := MetricsRun.ledger_of_reach (reach_metrics h) hcounted
  have hsandwich : ∀ c : Counter, c.isGauge = true →
      s.forwarded (concerned flavor c) ≤ c.read s.metrics.collector ∧
        c.read s.metrics.collector ≤
          s.stack.openSessions fun ctx => concerned flavor c ctx.peerIp := fun c hc =>
    ⟨hjoined.forwarded_le_read hledger hc, hjoined.read_le_openSessions hledger hc⟩
  refine ⟨?_, fun ip => ?_, fun g hg => throttle_covers (reach_stack h) hg⟩
  · rintro n (rfl | rfl)
    · have := hsandwich .active rfl
      rwa [concerned_active] at this
    · have := hsandwich (.server flavor.serverName .active) rfl
      rwa [concerned_server] at this
  · have := hsandwich (.ip ip .active) rfl
    rwa [concerned_ip] at this

/-- A connection from `10.0.0.host` is reserved in call `c` of the stack, becomes connection `k`,
and is recorded in row `i` of the metrics. -/
def recordRun (host : UInt8) (c k i : ℕ) : List ProxyStep :=
  [.accept (.v4 (ipv4 10 0 0 host) 1001) none false 0, .advance c 0, .advance c 0, .establish k,
    .advance (c + 1) 0, .advance (c + 1) 0, .established k, .metric i, .metric i, .metric i,
    .metric i]

/-- The first connection is forwarded; the second is recorded and not forwarded yet. -/
def recordedState : ProxyServing :=
  Transition.System.after (next .sync) (.start ServerState.singleConfig 0)
    (recordRun 1 0 0 0 ++ [.handOver 0] ++ recordRun 2 2 1 1)

/-- It is open in the metrics, and the throttle counts it. -/
theorem ledgers_ordered_recordedState :
    (recordedState.forwarded (fun _ => true) ≤ 2 ∧ 2 ≤ recordedState.stack.openSessions ofAny) ∧
      recordedState.forwarded (fun _ => true) = 1 := by
  have hreach : (proxySystem .sync ServerState.singleConfig 0).Reach recordedState :=
    Transition.System.reach_after (.init rfl) fun _ _ _ _ hnext => hnext
  exact ⟨(ledgers_ordered hreach ⟨by decide +kernel, by decide +kernel⟩).1 2
    (.inl (by decide +kernel)), by decide +kernel⟩

/-- A settled proxy forwards what has an open session. -/
theorem Settled.openSessions_eq (hsettled : s.Settled) (h : Joined flavor s) (P : IpAddr → Bool) :
    s.stack.openSessions (fun ctx => P ctx.peerIp) = s.forwarded P := by
  rw [h.openSessions_eq P]
  refine List.countP_congr fun conn hconn => ?_
  have hstage : (!conn.stage.isClosed) = conn.stage.isForwarding := by
    rcases hsettled.conns conn hconn with hforwarding | hfinished
    · cases hconn' : conn.stage <;> simp_all [ProxyStage.isForwarding, ProxyStage.isClosed]
    · rw [hfinished]
      rfl
  rw [hstage]

/-- **The ledgers of a settled proxy agree**: when every connection is forwarded or finished and no
call of the stack is in progress, the gauges of the metrics, in total, for the proxy and for each
address, and the slots of a throttle, in total and for each address, are the numbers of connections
that are forwarded.

**Proof sketch.** The gauges are between the connections that are forwarded and the open sessions,
and these are the same here. An idle stack owes its throttle no close. -/
theorem ledgers_agree (h : (proxySystem flavor config start).Reach s)
    (hcounted : s.metrics.Counted) (hsettled : s.Settled) :
    (s.metrics.collector.active.toNat = s.forwarded (fun _ => true) ∧
      s.metrics.collector.ofServer flavor.serverName PerServerMetrics.active =
        s.forwarded (fun _ => true) ∧
      ∀ ip, s.metrics.collector.ofIp ip PerIpMetrics.active =
        s.forwarded fun addr => addr = ip) ∧
    ∀ g, .throttle g ∈ s.stack.guards →
      g.global = s.forwarded (fun _ => true) ∧
        ∀ ip, g.heldBy ip = s.forwarded fun addr => addr = ip := by
  have hjoined := joined_of_reach h
  have hledger := MetricsRun.ledger_of_reach (reach_metrics h) hcounted
  have hsessions := hsettled.openSessions_eq hjoined
  have hgauge : ∀ c : Counter, c.isGauge = true →
      c.read s.metrics.collector = s.forwarded (concerned flavor c) := fun c hc =>
    le_antisymm ((hjoined.read_le_openSessions hledger hc).trans (hsessions _).le)
      (hjoined.forwarded_le_read hledger hc)
  refine ⟨⟨?_, ?_, fun ip => ?_⟩, fun g hg => ?_⟩
  · have := hgauge .active rfl
    rwa [concerned_active] at this
  · have := hgauge (.server flavor.serverName .active) rfl
    rwa [concerned_server] at this
  · have := hgauge (.ip ip .active) rfl
    rwa [concerned_ip] at this
  · obtain ⟨hglobal, hheld⟩ := ServerState.throttle_slots (reach_stack h) hsettled.stack hg
    exact ⟨hglobal.trans (hsessions fun _ => true),
      fun ip => (hheld ip).trans (hsessions fun addr => addr = ip)⟩

/-- The first connection is finished, and the second is forwarded. -/
def forwardedState : ProxyServing :=
  Transition.System.after (next .sync) (.start ServerState.singleConfig 0)
    (recordRun 1 0 0 0 ++ [.handOver 0, .forwardEnds 0, .metric 0, .metric 0, .metric 0, .close 0,
      .advance 2 0, .advance 2 0, .drop 0] ++ recordRun 2 4 1 1 ++ [.handOver 1])

/-- Only the second one is in the ledgers. -/
theorem ledgers_agree_forwardedState :
    forwardedState.metrics.collector.active.toNat = forwardedState.forwarded (fun _ => true) ∧
      forwardedState.forwarded (fun _ => true) = 1 := by
  have hreach : (proxySystem .sync ServerState.singleConfig 0).Reach forwardedState :=
    Transition.System.reach_after (.init rfl) fun _ _ _ _ hnext => hnext
  exact ⟨(ledgers_agree hreach ⟨by decide +kernel, by decide +kernel⟩
    ⟨by unfold StackState.Idle; decide +kernel, by decide +kernel⟩).1.1, by decide +kernel⟩

end ProxyServing

/-! ## What the guards of a proxy see -/

/-- The call shows what the client sends, or that it does. -/
def StackFrame.showsContent : StackFrame → Bool
  | .payload _ _ _ => true
  | .activity _ => true
  | _ => false

/-- A callback of the admission: a reservation, an establishment or a close. -/
def Callback.isAdmission : Callback → Bool
  | .reserve => true
  | .established => true
  | .close => true
  | _ => false

/-- A guard that looks at what the client sends, or when. -/
def BuiltinGuard.readsContent : BuiltinGuard → Bool
  | .slowLoris _ => true
  | .udpAmplification _ => true
  | _ => false

/-- Whether a guard looks at content depends on its kind. -/
theorem BuiltinGuard.readsContent_congr {g g' : BuiltinGuard} (h : g.rank = g'.rank) :
    g.readsContent = g'.readsContent := by
  cases g <;> cases g' <;> first | rfl | cases h

/-- The action shows no content to the guards. -/
def StackAction.Admits {G : Type*} (a : StackAction G) : Prop :=
  (∀ k bytes, a ≠ .recordPayload k bytes) ∧ ∀ k, a ≠ .touch k

namespace StackState

/-- No call shows content, the guards received callbacks of the admission only, and the guards of
`stack` that look at content refused none. -/
structure Unread (stack : GuardStack BuiltinGuard) (s : StackState BuiltinGuard) : Prop where
  calls : ∀ call ∈ s.calls, call.frame.showsContent = false
  log : ∀ r ∈ s.log, r.callback.isAdmission = true ∧
    ∀ g, stack.guards[r.guard]? = some g → g.readsContent = true → r.result = .ok ()

/-- A visit of a call that shows no content shows none, and so does the call after it. -/
theorem Visit.isAdmission {g g' : BuiltinGuard} {ctx : GuardContext} {now : Instant} {i : ℕ}
    {frame frame' : StackFrame} {callback : Callback} {result : Except SynError Unit}
    {events : List GuardEvent} (h : Visit g ctx now i frame callback result g' events frame')
    (hframe : frame.showsContent = false) :
    callback.isAdmission = true ∧ frame'.showsContent = false := by
  cases h <;> first | exact ⟨rfl, rfl⟩ | cases hframe

/-- A guard that looks at content accepts whatever shows none. -/
theorem Visit.accepted {g g' : BuiltinGuard} {ctx : GuardContext} {now : Instant} {i : ℕ}
    {frame frame' : StackFrame} {callback : Callback} {result : Except SynError Unit}
    {events : List GuardEvent} (h : Visit g ctx now i frame callback result g' events frame')
    (hframe : frame.showsContent = false) (hg : g.readsContent = true) : result = .ok () := by
  have hadmits : (Guard.onReserve g ctx now).1 = .ok () ∧
      (Guard.onEstablished g ctx now).1 = .ok () := by
    cases g with
    | slowLoris g => exact ⟨rfl, rfl⟩
    | udpAmplification g => exact ⟨rfl, rfl⟩
    | _ => cases hg
  cases h with
  | reserveError hr => rw [hr] at hadmits; exact hadmits.1
  | establishedError hr => rw [hr] at hadmits; exact hadmits.2
  | payloadTouchError _ | payloadError _ | activityError _ => cases hframe
  | _ => rfl

/-- A call that begins by such an action shows no content. -/
theorem showsContent_first {action : StackAction BuiltinGuard} {k : ℕ} {call : SessionCall}
    (hbegins : action.begins = some (k, call)) (hadmits : action.Admits) (slot : SessionSlot) :
    (call.first slot).2.showsContent = false := by
  have hcall : (∀ bytes, call ≠ .recordPayload bytes) ∧ call ≠ .touch := by
    constructor
    · rintro bytes rfl
      cases action <;> cases hbegins
      exact hadmits.1 _ _ rfl
    · rintro rfl
      cases action <;> cases hbegins
      exact hadmits.2 _ rfl
  have hfirst := call.begins_first slot
  generalize (call.first slot).1 = slot' at hfirst
  generalize (call.first slot).2 = frame at hfirst
  cases hfirst <;> simp_all [StackFrame.showsContent]

/-- Calls that show no content go on to show none. -/
theorem Unread.calls_next {stack : GuardStack BuiltinGuard} {s s' : StackState BuiltinGuard}
    {action : StackAction BuiltinGuard} (h : Unread stack s) (hadmits : action.Admits)
    (hnext : s.next action = some s') : ∀ call ∈ s'.calls, call.frame.showsContent = false := by
  have hset : ∀ {c : ℕ} {call : StackCall} {frame : StackFrame}, frame.showsContent = false →
      ∀ call' ∈ s.calls.set c { call with frame }, call'.frame.showsContent = false := by
    intro c call frame hframe call' hmem
    rcases List.mem_or_eq_of_mem_set hmem with hmem | rfl
    · exact h.calls call' hmem
    · exact hframe
  have happend : ∀ {call : StackCall}, call.frame.showsContent = false →
      ∀ call' ∈ s.calls ++ [call], call'.frame.showsContent = false := fun hcall =>
    List.forall_mem_append.mpr ⟨h.calls, by simpa using hcall⟩
  cases steps_of_next hnext with
  | @begin _ k call slot hbegins hslot hdropped =>
    exact happend (showsContent_first hbegins hadmits slot)
  | pass => exact happend rfl
  | ask => exact happend rfl
  | grant hc hframe hi => exact hset rfl
  | finish hc hfinished => exact hset rfl
  | visit hc hg hvisit => exact hset (hvisit.isAdmission (h.calls _ (List.mem_of_getElem? hc))).2
  | other hbegins hsessions hcalls hlog =>
    rw [hcalls]
    exact h.calls

/-- **A step that shows no content** leaves it unread. -/
theorem Unread.next {stack : GuardStack BuiltinGuard} {s s' : StackState BuiltinGuard}
    {action : StackAction BuiltinGuard} (h : Unread stack s) (hadmits : action.Admits)
    (hnext : s.next action = some s')
    (hkind : ∀ (i : ℕ) (g b : BuiltinGuard), s.guards[i]? = some g → stack.guards[i]? = some b →
      b.rank = g.rank) : Unread stack s' := by
  refine ⟨h.calls_next hadmits hnext, ?_⟩
  rcases next_effect hnext with ⟨-, hlog⟩ | ⟨i, g, g', -, -, -, hlog⟩ |
    ⟨c, call, now, i, g, callback, result, g', events, frame, hc, hg, hvisit, -, hlog⟩
  · rw [hlog]
    exact h.log
  · rw [hlog]
    exact h.log
  · have hframe := h.calls call (List.mem_of_getElem? hc)
    rw [hlog]
    refine List.forall_mem_append.mpr ⟨h.log, ?_⟩
    rintro _ hr
    obtain rfl := List.mem_singleton.mp hr
    refine ⟨(hvisit.isAdmission hframe).1, fun b hb hreads => ?_⟩
    exact hvisit.accepted hframe ((BuiltinGuard.readsContent_congr (hkind i g b hg hb)) ▸ hreads)

end StackState

namespace ProxyServing

variable {flavor : ProxyFlavor} {config : GuardStackConfig} {start : Instant}
  {s s' : ProxyServing} {a : ProxyStep}

/-- A call on a session of a proxy shows no content. -/
theorem admits_of_stackTurn {n k : ℕ} {old new : ProxyStage} {call : SessionCall}
    {action : StackAction BuiltinGuard} (h : StackTurn n old call new)
    (hbegins : action.begins = some (k, call)) : action.Admits := by
  constructor
  · rintro k' bytes rfl
    cases hbegins
    cases h
  · rintro k' rfl
    cases hbegins
    cases h

/-- The stack of a proxy is unread in every state it reaches. -/
theorem unread_of_reach (h : (proxySystem flavor config start).Reach s) :
    StackState.Unread (buildGuardStack config start) s.stack := by
  refine Transition.System.Reach.invariant (I := fun s : ProxyServing =>
    StackState.Unread (buildGuardStack config start) s.stack) ?_ ?_ h
  · rintro _ rfl
    exact ⟨by simp [ProxyServing.start, StackState.start],
      by simp [ProxyServing.start, StackState.start]⟩
  · intro s a s' hr hI hstep
    have hkind : ∀ (i : ℕ) (g b : BuiltinGuard), s.stack.guards[i]? = some g →
        (buildGuardStack config start).guards[i]? = some b → b.rank = g.rank := by
      intro i g b hg hb
      have hrank := ServerState.rank_of_reach (reach_stack hr) hg
      rw [hb] at hrank
      exact Option.some.inj hrank
    cases moves_of_next hstep with
    | stack haction hstack =>
      refine hI.next ?_ hstack hkind
      rcases haction with ⟨ctx, rfl, -⟩ | ⟨c, now, rfl⟩ <;> exact ⟨by simp, by simp⟩
    | onStack hk hturn hrecorded hbegins hstack =>
      exact hI.next (admits_of_stackTurn hturn hbegins) hstack hkind
    | metrics haction hmetrics => exact hI
    | onMetrics hk hturn hreturned hmetrics => exact hI
    | handOver hk hrecorded => exact hI

/-- **A proxy shows its guards who connects, and nothing else**: in every run each callback is a
reservation, an establishment or a close, and the guards that look at what a client sends, or when
(`SlowLoris` and `UdpAmplificationGuard`), refuse nothing. -/
theorem refusals_of_admission (h : (proxySystem flavor config start).Reach s) :
    ∀ r ∈ s.stack.log, r.callback.isAdmission = true ∧
      ∀ g, (buildGuardStack config start).guards[r.guard]? = some g → g.readsContent = true →
        r.result = .ok () :=
  (unread_of_reach h).log

/-- A proxy that guards against slow clients. -/
def patientConfig : GuardStackConfig where
  slowLoris := some {}

/-- A connection that is forwarded for an hour, and ends. -/
def patientState : ProxyServing :=
  Transition.System.after (next .async) (.start patientConfig 0)
    (recordRun 1 0 0 0 ++ [.handOver 0, .forwardEnds 0, .metric 0, .metric 0, .metric 0, .close 0,
      .advance 2 3600000000000, .advance 2 3600000000000])

/-- The guard saw it come and go, and refused nothing. -/
theorem refusals_of_admission_patientState :
    (∀ r ∈ patientState.stack.log, r.result = .ok ()) ∧ patientState.stack.log.length = 3 := by
  have hreach : (proxySystem .async patientConfig 0).Reach patientState :=
    Transition.System.reach_after (.init rfl) fun _ _ _ _ hnext => hnext
  have hguards : ∀ r ∈ patientState.stack.log, r.guard = 0 := by decide +kernel
  refine ⟨fun r hr => ?_, by decide +kernel⟩
  exact (refusals_of_admission hreach r hr).2 (.slowLoris (.new {}))
    (by rw [hguards r hr]; rfl) rfl

end ProxyServing

end Synclaire
