import Synclaire.Metrics.Snapshot

set_option relaxedAutoImplicit false
set_option autoImplicit false

/-!
# What a snapshot shows

A snapshot is not the collector at one moment, but it is not arbitrary either. A recording call
first adds to a total, then to the entry of its server, then to that of its address; a snapshot
copies the entries first and loads the totals last. So the entries it shows never count more than
its totals. And each figure that it shows lies between what was surely recorded when it was called
and what may have been recorded by its return.

## Main definitions

* `Synclaire.OrderedFigures` — the entries count no more than the totals.
* `Synclaire.MetricsFigure.countsRow` — a figure counts a record.
* `Synclaire.MetricsRun.Within` — figures between the records of two moments.

## Main results

* `Synclaire.MetricsRun.Ledger.ordered` — the collector itself is ordered at every moment.
* `Synclaire.SnapshotRun.snapshot_ordered` — every snapshot is.
* `Synclaire.SnapshotRun.snapshot_regular` — a snapshot shows what was recorded around it.
-/

namespace Synclaire

open MetricsCollector

/-! ## One connection or failure -/

/-- The place in a record of the section that adds to a count. -/
def Counter.place (record : MetricsRecord) (serverName : Option Str) : Counter → ℕ
  | .total _ => 0
  | .failed => 0
  | .active => 1
  | .server _ _ => if record = .failure then 1 else 2
  | .ip _ _ => (if record = .failure then 1 else 2) + serverName.toList.length
  | .sum _ => (if record = .failure then 1 else 2) + serverName.toList.length

/-- **What the first sections of a record add**: one to the counts of its sort whose section is
among them. -/
theorem adds_take (record : MetricsRecord) (serverName : Option Str) (peerIp : IpAddr)
    (c : Counter) (n : ℕ) :
    Table.tally (·.adds c) ((record.sections serverName peerIp).take n) =
      if c.Concerns serverName peerIp ∧ c.counts record ∧ c.place record serverName < n
      then 1 else 0 := by
  cases record with
  | failure =>
    rcases c with k | _ | _ | ⟨name, k | _ | _⟩ | ⟨addr, field⟩ | field <;> cases serverName <;>
      rcases n with _ | _ | _ | n <;>
      simp [MetricsRecord.sections, recordFailure, serverSection, MetricsSection.adds,
        Counter.Concerns, Counter.counts, Counter.ofFailures, Counter.place]
  | connection kind =>
    simp only [sections_connection]
    rcases c with k | _ | _ | ⟨name, k | _ | _⟩ | ⟨addr, field⟩ | field <;> cases serverName <;>
      rcases n with _ | _ | _ | _ | n <;>
      simp [recordConnection, serverSection, MetricsSection.adds, Counter.Concerns,
        Counter.counts, Counter.ofFailures, Counter.place]

namespace MetricsActivity

variable {a : MetricsActivity}

/-- What is left of a figure. -/
def netOf (f : MetricsFigure) (a : MetricsActivity) : ℕ :=
  match f with
  | .count c => a.net c
  | .servers field => (a.serverName.map fun name => a.net (.server name field)).getD 0

/-- Nothing is taken from a count that is no gauge. -/
theorem Coherent.net_eq_added (h : a.Coherent) {c : Counter} (hc : c.isGauge = false) :
    a.net c = a.added c := by
  have htaken := h.taken_add_pending c
  simp only [hc, Bool.false_eq_true, and_false, if_false] at htaken
  unfold net
  omega

/-- What was added to the counts, by how many sections of the record have run. -/
theorem Coherent.exists_added (h : a.Coherent) :
    ∃ n, ∀ c, a.added c = if c.Concerns a.serverName a.peerIp ∧ c.counts a.record ∧
      c.place a.record a.serverName < n then 1 else 0 := by
  refine ⟨a.done.length, fun c => ?_⟩
  have hdone : a.done = (a.record.sections a.serverName a.peerIp ++
      if a.closing then recordConnectionClose a.serverName a.peerIp else []).take
        a.done.length := by
    rw [← h.sections, List.take_left]
  -- a close adds nothing
  have hclose : ∀ n, Table.tally (·.adds c)
      ((if a.closing then recordConnectionClose a.serverName a.peerIp else []).take n) = 0 := by
    intro n
    have hall : Table.tally (·.adds c)
        (if a.closing then recordConnectionClose a.serverName a.peerIp else []) = 0 := by
      split_ifs
      · exact adds_recordConnectionClose a.serverName a.peerIp c
      · rfl
    rw [← List.take_append_drop n
      (if a.closing then recordConnectionClose a.serverName a.peerIp else []),
      Table.tally_append] at hall
    omega
  unfold added
  conv_lhs => rw [hdone]
  rw [List.take_append, Table.tally_append, hclose, Nat.add_zero, adds_take]

/-- A count to which a record adds earlier than to another one that counts it. -/
theorem Coherent.net_le_net (h : a.Coherent) {c c' : Counter} (hc' : c'.isGauge = false)
    (hconcerns : c.Concerns a.serverName a.peerIp → c'.Concerns a.serverName a.peerIp)
    (hcounts : c.counts a.record = true → c'.counts a.record = true)
    (hplace : c.Concerns a.serverName a.peerIp → c.counts a.record = true →
      c'.place a.record a.serverName ≤ c.place a.record a.serverName) :
    a.net c ≤ a.net c' := by
  obtain ⟨n, hn⟩ := h.exists_added
  have hle : a.net c ≤ a.added c := Nat.sub_le _ _
  rw [h.net_eq_added hc', hn]
  rw [hn] at hle
  split_ifs at hle with hc
  · obtain ⟨h₁, h₂, h₃⟩ := hc
    rw [if_pos ⟨hconcerns h₁, hcounts h₂, Nat.lt_of_le_of_lt (hplace h₁ h₂) h₃⟩]
    exact hle
  · omega

/-- A count of connections to which a record adds later than to one of a family by kind. -/
theorem Coherent.net_le_kinds (h : a.Coherent) {c : Counter} (c' : ConnectionKind → Counter)
    (hgauge : ∀ k, (c' k).isGauge = false) (hfailure : c.counts .failure = false)
    (hconcerns : ∀ k, c.Concerns a.serverName a.peerIp → (c' k).Concerns a.serverName a.peerIp)
    (hcounts : ∀ k, (c' k).counts (.connection k) = true)
    (hplace : ∀ k, (c' k).place (.connection k) a.serverName ≤
      c.place (.connection k) a.serverName) :
    a.net c ≤ a.net (c' .tcp) + a.net (c' .tls) + a.net (c' .mtls) := by
  have hkind : ∀ k, a.record = .connection k → a.net c ≤ a.net (c' k) := by
    intro k hk
    refine h.net_le_net (hgauge k) (hconcerns k) (fun _ => ?_) fun _ _ => ?_
    · rw [hk, hcounts]
    · rw [hk]
      exact hplace k
  cases hrecord : a.record with
  | failure =>
    have hle : a.net c ≤ a.net (c' .tcp) := by
      refine h.net_le_net (hgauge .tcp) (hconcerns .tcp) (fun hc => ?_) fun _ hc => ?_ <;>
      · rw [hrecord, hfailure] at hc
        cases hc
    omega
  | connection k =>
    have hle := hkind k hrecord
    cases k <;> omega

/-- A figure of the servers, from a row with a name. -/
theorem netOf_servers {name : Str} (hname : a.serverName = some name) (field : ServerField) :
    a.netOf (.servers field) = a.net (.server name field) := by
  rw [netOf, hname]
  rfl

/-- A row without a name is in no figure of the servers. -/
theorem netOf_servers_of_none (hname : a.serverName = none) (field : ServerField) :
    a.netOf (.servers field) = 0 := by
  rw [netOf, hname]
  rfl

/-- A row leaves nothing in the entries of servers that it does not name. -/
theorem Coherent.net_server_eq_zero (h : a.Coherent) {name : Str} (hname : a.serverName ≠ some name)
    (field : ServerField) : a.net (.server name field) = 0 := by
  obtain ⟨n, hn⟩ := h.exists_added
  have hle : a.net (.server name field) ≤ a.added (.server name field) := Nat.sub_le _ _
  have hnot : ¬Counter.Concerns a.serverName a.peerIp (.server name field) :=
    fun hc => hname hc.symm
  rw [hn, if_neg fun hc => hnot hc.1] at hle
  omega

end MetricsActivity

/-! ## The collector at one moment -/

namespace MetricsRun

variable {s s' : MetricsRun}

/-- The sum over the servers is what every row leaves in the entry of its server. -/
theorem Ledger.sumServers_eq (h : s.Ledger) (field : ServerField) :
    s.collector.sumServers field.get = Table.tally (·.netOf (.servers field)) s.activities := by
  have hsum : s.collector.sumServers field.get =
      ∑ name ∈ s.collector.perServer.keys, Table.tally (·.net (.server name field)) s.activities :=
    Finset.sum_congr rfl fun name _ => h.read (.server name field)
  rw [hsum, ← Table.tally_sum]
  refine Table.tally_congr fun a ha => ?_
  have hrow := h.coherent a ha
  cases hname : a.serverName with
  | none =>
    rw [MetricsActivity.netOf_servers_of_none hname]
    exact Finset.sum_eq_zero fun name _ => hrow.net_server_eq_zero (by rw [hname]; simp) field
  | some n =>
    rw [MetricsActivity.netOf_servers hname]
    refine Finset.sum_eq_single n (fun name _ hne => ?_) fun hkey => ?_
    · exact hrow.net_server_eq_zero (by rw [hname]; simpa using Ne.symm hne) field
    · -- without an entry of the server no row has left anything in it
      have hread := h.read (.server n field)
      obtain ⟨i, hi⟩ := List.mem_iff_getElem?.mp ha
      have hle := Table.le_tally (fun b : MetricsActivity => b.net (.server n field)) hi
      have hlookup : s.collector.perServer.lookup n = none :=
        Finmap.lookup_eq_none.mpr fun hmem => hkey (Finmap.mem_keys.mpr hmem)
      rw [← hread, Counter.read, ofServer, hlookup] at hle
      exact Nat.le_zero.mp hle

/-- **A figure of the collector** is what every row leaves of it. -/
theorem Ledger.read_figure (h : s.Ledger) (f : MetricsFigure) :
    f.read s.collector = Table.tally (·.netOf f) s.activities := by
  cases f with
  | count c => exact h.read c
  | servers field => exact h.sumServers_eq field

end MetricsRun

/-- The entries count no more than the totals, and an entry has no more open connections than
connections. If every record has a server name, the entries of the addresses count no more than
those of the servers. -/
structure OrderedFigures (named : Prop) (v : MetricsFigure → ℕ) : Prop where
  servers_total : ∀ kind, v (.servers (.total kind)) ≤ v (.count (.total kind))
  servers_failures : v (.servers .failures) ≤ v (.count .failed)
  ips_connections : v (.count (.sum .connections)) ≤
    v (.count (.total .tcp)) + v (.count (.total .tls)) + v (.count (.total .mtls))
  ips_failures : v (.count (.sum .failures)) ≤ v (.count .failed)
  server_active : ∀ name, v (.count (.server name .active)) ≤
    v (.count (.server name (.total .tcp))) + v (.count (.server name (.total .tls))) +
      v (.count (.server name (.total .mtls)))
  ip_active : ∀ addr, v (.count (.ip addr .active)) ≤ v (.count (.ip addr .connections))
  named_connections : named → v (.count (.sum .connections)) ≤
    v (.servers (.total .tcp)) + v (.servers (.total .tls)) + v (.servers (.total .mtls))
  named_failures : named → v (.count (.sum .failures)) ≤ v (.servers .failures)

/-- Larger totals leave figures ordered. -/
theorem OrderedFigures.mono {named named' : Prop} {v v' : MetricsFigure → ℕ}
    (h : OrderedFigures named v) (hnamed : named' → named)
    (hmaps : ∀ f lock, f.source = MetricsLock.read lock → v' f = v f)
    (htotal : ∀ kind, v (.count (.total kind)) ≤ v' (.count (.total kind)))
    (hfailed : v (.count .failed) ≤ v' (.count .failed)) : OrderedFigures named' v' := by
  have hservers : ∀ field, v' (.servers field) = v (.servers field) :=
    fun field => hmaps _ .perServer rfl
  have hserver : ∀ name field, v' (.count (.server name field)) = v (.count (.server name field)) :=
    fun name field => hmaps _ .perServer rfl
  have hip : ∀ addr field, v' (.count (.ip addr field)) = v (.count (.ip addr field)) :=
    fun addr field => hmaps _ .perIp rfl
  have hsum : ∀ field, v' (.count (.sum field)) = v (.count (.sum field)) :=
    fun field => hmaps _ .perIp rfl
  have htcp := htotal .tcp
  have htls := htotal .tls
  have hmtls := htotal .mtls
  constructor
  · intro kind
    rw [hservers]
    exact (h.servers_total kind).trans (htotal kind)
  · rw [hservers]
    exact h.servers_failures.trans hfailed
  · rw [hsum]
    have := h.ips_connections
    omega
  · rw [hsum]
    exact h.ips_failures.trans hfailed
  · intro name
    simp only [hserver]
    exact h.server_active name
  · intro addr
    simp only [hip]
    exact h.ip_active addr
  · intro hn
    simp only [hsum, hservers]
    exact h.named_connections (hnamed hn)
  · intro hn
    simp only [hsum, hservers]
    exact h.named_failures (hnamed hn)

namespace MetricsRun

variable {s s' : MetricsRun}

/-- **The collector is ordered at every moment.**

**Proof sketch.** A figure is what every row leaves of it, and a row adds to the totals first, then
to the entry of its server, then to that of its address. -/
theorem Ledger.ordered (h : s.Ledger) :
    OrderedFigures (∀ a ∈ s.activities, a.serverName ≠ none) fun f => f.read s.collector := by
  have hle : ∀ {f f' : MetricsFigure}, (∀ a ∈ s.activities, a.netOf f ≤ a.netOf f') →
      f.read s.collector ≤ f'.read s.collector := by
    intro f f' hrow
    rw [h.read_figure, h.read_figure]
    exact Table.tally_le_tally hrow
  have hle_kinds : ∀ {f f₁ f₂ f₃ : MetricsFigure},
      (∀ a ∈ s.activities, a.netOf f ≤ a.netOf f₁ + a.netOf f₂ + a.netOf f₃) →
      f.read s.collector ≤
        f₁.read s.collector + f₂.read s.collector + f₃.read s.collector := by
    intro f f₁ f₂ f₃ hrow
    rw [h.read_figure, h.read_figure, h.read_figure, h.read_figure, ← Table.tally_add,
      ← Table.tally_add]
    exact Table.tally_le_tally hrow
  constructor
  · intro kind
    refine hle fun a ha => ?_
    cases hname : a.serverName with
    | none =>
      rw [MetricsActivity.netOf_servers_of_none hname]
      exact Nat.zero_le _
    | some name =>
      rw [MetricsActivity.netOf_servers hname]
      exact (h.coherent a ha).net_le_net rfl (fun _ => trivial) id fun _ _ => Nat.zero_le _
  · refine hle fun a ha => ?_
    cases hname : a.serverName with
    | none =>
      rw [MetricsActivity.netOf_servers_of_none hname]
      exact Nat.zero_le _
    | some name =>
      rw [MetricsActivity.netOf_servers hname]
      exact (h.coherent a ha).net_le_net rfl (fun _ => trivial) id fun _ _ => Nat.zero_le _
  · exact hle_kinds fun a ha => (h.coherent a ha).net_le_kinds .total (fun _ => rfl) rfl
      (fun _ _ => trivial) (fun _ => decide_eq_true rfl) fun _ => Nat.zero_le _
  · exact hle fun a ha =>
      (h.coherent a ha).net_le_net rfl (fun _ => trivial) id fun _ _ => Nat.zero_le _
  · intro name
    exact hle_kinds fun a ha => (h.coherent a ha).net_le_kinds (fun k => .server name (.total k))
      (fun _ => rfl) rfl (fun _ => id) (fun _ => decide_eq_true rfl) fun _ => le_rfl
  · intro addr
    exact hle fun a ha => (h.coherent a ha).net_le_net rfl id id fun _ _ => le_rfl
  · intro hnamed
    refine hle_kinds fun a ha => ?_
    obtain ⟨name, hname⟩ := Option.ne_none_iff_exists'.mp (hnamed a ha)
    simp only [MetricsActivity.netOf_servers hname]
    exact (h.coherent a ha).net_le_kinds (fun k => .server name (.total k)) (fun _ => rfl) rfl
      (fun _ _ => hname.symm) (fun _ => decide_eq_true rfl) fun _ => Nat.le_add_right _ _
  · intro hnamed
    refine hle fun a ha => ?_
    obtain ⟨name, hname⟩ := Option.ne_none_iff_exists'.mp (hnamed a ha)
    rw [MetricsActivity.netOf_servers hname]
    exact (h.coherent a ha).net_le_net rfl (fun _ => hname.symm) id fun _ _ =>
      Nat.le_add_right _ _

end MetricsRun

/-! ## What a step does to the collector -/

/-- A section changes only the map whose lock it takes. -/
theorem MetricsSection.figure_run {sect : MetricsSection} {lock : MetricsLock} {f : MetricsFigure}
    (hsource : f.source = lock.read) (hlock : sect.lock ≠ some lock) (m : MetricsCollector) :
    f.read (sect.run m) = f.read m := by
  have hmaps : (lock = .perServer → (sect.run m).perServer = m.perServer) ∧
      (lock = .perIp → (sect.run m).perIp = m.perIp) := by
    cases sect with
    | addTotal kind => cases kind <;> exact ⟨fun _ => rfl, fun _ => rfl⟩
    | lowerMinLatency ms | raiseMaxLatency ms =>
      rw [run]
      split_ifs <;> exact ⟨fun _ => rfl, fun _ => rfl⟩
    | _ => constructor <;> rintro rfl <;> first | rfl | exact absurd rfl hlock
  rcases f with (k | _ | _ | ⟨name, field⟩ | ⟨addr, field⟩ | field) | field <;> cases lock <;>
    cases hsource
  · simp only [MetricsFigure.read, Counter.read, ofServer, hmaps.1]
  · simp only [MetricsFigure.read, Counter.read, ofIp, hmaps.2]
  · simp only [MetricsFigure.read, Counter.read, sumIps, hmaps.2]
  · simp only [MetricsFigure.read, sumServers, hmaps.1]

/-- The sections of a latency change none of the counts. -/
theorem Counter.read_run_of_latency {serverName : Option Str} {peerIp : IpAddr} {latencyMs : UInt64}
    {sect : MetricsSection} (h : sect ∈ recordConnectionLatency serverName peerIp latencyMs)
    (m : MetricsCollector) (c : Counter) : c.read (sect.run m) = c.read m := by
  have hatomics := MetricsSection.read_run_atomics latencyMs c (m := m)
  simp only [recordConnectionLatency, serverSection, List.mem_append, List.mem_cons,
    List.not_mem_nil, or_false, Option.mem_toList, Option.map_eq_some_iff] at h
  rcases h with ((rfl | rfl | rfl | rfl) | ⟨name, -, rfl⟩) | rfl
  · exact hatomics.1
  · exact hatomics.2.1
  · exact hatomics.2.2.1
  · exact hatomics.2.2.2
  · exact MetricsSection.read_run_serverLatency name latencyMs c
  · exact MetricsSection.read_run_ipLatency peerIp latencyMs c

/-- A section takes nothing from a count that is no gauge. -/
theorem MetricsSection.takes_of_not_isGauge {c : Counter} (hc : c.isGauge = false)
    (sect : MetricsSection) : sect.takes c = 0 := by
  cases c with
  | server name field =>
    have hne : field ≠ .active := of_decide_eq_false hc
    cases sect <;> simp [takes, hne]
  | ip addr field =>
    have hne : field ≠ .active := of_decide_eq_false hc
    cases sect <;> simp [takes, hne]
  | sum field =>
    have hne : field ≠ .active := of_decide_eq_false hc
    cases sect <;> simp [takes, hne]
  | active => cases hc
  | _ => cases sect <;> rfl

namespace SnapshotRun

variable {s s' : SnapshotRun} {action : SnapshotAction}

/-- The collector counts its records, and every call runs its sections or reads in their order. -/
structure Sound (s : SnapshotRun) : Prop where
  ledger : s.run.Ledger
  delays : s.Proceeding
  sequenced : s.Sequenced

/-- Counts only grow. -/
theorem counted_of_next (hstep : s.next action = some s') (h : s'.run.Counted) :
    s.run.Counted := by
  cases moves_of_next hstep with
  | caller hfree hnext => exact h.of_next hnext
  | _ => exact ⟨h.connections, h.failures⟩

/-- The next section of a latency changes none of the counts. -/
theorem Sound.read_delay (h : s.Sound) {i : ℕ} {call : LatencyCall} {sect : MetricsSection}
    {rest : List MetricsSection} (hi : s.delays[i]? = some call)
    (hpending : call.pending = sect :: rest) (c : Counter) :
    c.read (sect.run s.run.collector) = c.read s.run.collector :=
  Counter.read_run_of_latency (h.delays.mem (List.mem_of_getElem? hi) hpending) s.run.collector c

/-- **What a step keeps**: the counts of the records and the order of sections and reads. -/
theorem Sound.step (h : s.Sound) (hcounted : s.run.Counted) (hstep : s.next action = some s') :
    s'.Sound := by
  refine ⟨?_, h.delays.step hstep, h.sequenced.step hstep⟩
  cases moves_of_next hstep with
  | caller hfree hnext => exact h.ledger.next hcounted hnext
  | delay hi hpending hfree =>
    exact ⟨h.ledger.coherent, fun c => (h.read_delay hi hpending c).trans (h.ledger.read c)⟩
  | _ => exact ⟨h.ledger.coherent, h.ledger.read⟩

/-- In every reachable state the collector counts its records. -/
theorem sound_of_reach (h : snapshotSystem.Reach s) (hcounted : s.run.Counted) : s.Sound := by
  revert hcounted
  refine h.invariant (I := fun s => s.run.Counted → s.Sound) ?_ ?_
  · rintro s rfl _
    refine ⟨MetricsRun.ledger_start, fun call hcall => ?_, fun call hcall => ?_⟩ <;> cases hcall
  · intro s action s' _ ih hstep hcounted
    have hbefore := counted_of_next hstep hcounted
    exact (ih hbefore).step hbefore hstep

/-- While a snapshot holds the lock of a map, nobody changes the map. -/
theorem figure_of_holds (hstep : s.next action = some s') {call : SnapshotCall}
    (hcall : call ∈ s.snapshots) {lock : MetricsLock} (hholds : call.holds lock = true)
    {f : MetricsFigure} (hsource : f.source = lock.read) :
    f.read s'.run.collector = f.read s.run.collector := by
  have hlock : ∀ {sect : MetricsSection}, s.isLocked sect.lock = false → sect.lock ≠ some lock := by
    intro sect hfree heq
    rw [heq, isLocked, Option.any_some, List.any_eq_false] at hfree
    exact hfree call hcall hholds
  cases moves_of_next hstep with
  | caller hfree hnext =>
    cases MetricsRun.moves_of_next hnext with
    | @advance i a sect rest hi hpending =>
      refine MetricsSection.figure_run hsource (hlock ?_) s.run.collector
      simpa [MetricsRun.lockOf, hi, hpending] using hfree
    | _ => rfl
  | delay hi hpending hfree => exact MetricsSection.figure_run hsource (hlock hfree) s.run.collector
  | _ => rfl

/-- A count that is no gauge only grows. -/
theorem Sound.read_le (h : s.Sound) (hcounted : s.run.Counted) (hstep : s.next action = some s')
    {c : Counter} (hc : c.isGauge = false) : c.read s.run.collector ≤ c.read s'.run.collector := by
  cases moves_of_next hstep with
  | caller hfree hnext =>
    cases MetricsRun.moves_of_next hnext with
    | @advance i a sect rest hi hpending =>
      have hrun := MetricsSection.read_run (h.ledger.fits_advance hcounted hi hpending) c
      rw [MetricsSection.takes_of_not_isGauge hc] at hrun
      show c.read s.run.collector ≤ c.read (sect.run s.run.collector)
      omega
    | _ => exact le_rfl
  | delay hi hpending hfree => exact (h.read_delay hi hpending c).ge
  | _ => exact le_rfl

end SnapshotRun

/-! ## Later moments -/

namespace MetricsActivity

/-- The call that records has returned. -/
def isRecorded (a : MetricsActivity) : Bool := a.closing || a.pending.isEmpty

/-- The call that closes has returned. -/
def isClosed (a : MetricsActivity) : Bool := a.closing && a.pending.isEmpty

/-- `b` is the row `a` at a later moment. -/
structure Later (a b : MetricsActivity) : Prop where
  record : b.record = a.record
  serverName : b.serverName = a.serverName
  peerIp : b.peerIp = a.peerIp
  closing : a.closing = true → b.closing = true
  recorded : a.isRecorded = true → b.isRecorded = true
  closed : a.isClosed = true → b.isClosed = true

/-- A row at the same moment. -/
theorem Later.refl (a : MetricsActivity) : Later a a := ⟨rfl, rfl, rfl, id, id, id⟩

/-- A row at a later moment still. -/
theorem Later.trans (a b c : MetricsActivity) (h : Later a b) (h' : Later b c) : Later a c where
  record := h'.record.trans h.record
  serverName := h'.serverName.trans h.serverName
  peerIp := h'.peerIp.trans h.peerIp
  closing hc := h'.closing (h.closing hc)
  recorded hr := h'.recorded (h.recorded hr)
  closed hc := h'.closed (h.closed hc)

/-- A close is called. -/
theorem later_close {a : MetricsActivity} (h : a.CanClose) : Later a a.close where
  record := rfl
  serverName := rfl
  peerIp := rfl
  closing _ := rfl
  recorded _ := rfl
  closed hclosed := by
    rw [isClosed, h.2.1] at hclosed
    cases hclosed

/-- A call runs its next section. -/
theorem later_advance {a : MetricsActivity} {sect : MetricsSection} {rest : List MetricsSection}
    (h : a.pending = sect :: rest) :
    Later a { a with done := a.done ++ [sect], pending := rest } where
  record := rfl
  serverName := rfl
  peerIp := rfl
  closing := id
  recorded hrecorded := by
    have hclosing : a.closing = true := by simpa [isRecorded, h] using hrecorded
    simp [isRecorded, hclosing]
  closed hclosed := by simp [isClosed, h] at hclosed

end MetricsActivity

/-- A step keeps every row. -/
theorem SnapshotRun.grows_of_next {s s' : SnapshotRun} {action : SnapshotAction}
    (hstep : s.next action = some s') :
    Table.Grows MetricsActivity.Later s.run.activities s'.run.activities := by
  cases moves_of_next hstep with
  | caller hfree hnext =>
    cases MetricsRun.moves_of_next hnext with
    | record record serverName peerIp => exact Table.grows_append MetricsActivity.Later.refl _ _
    | close hi hclose =>
      exact Table.grows_set MetricsActivity.Later.refl hi (MetricsActivity.later_close hclose)
    | advance hi hpending =>
      exact Table.grows_set MetricsActivity.Later.refl hi (MetricsActivity.later_advance hpending)
  | _ => exact Table.Grows.refl MetricsActivity.Later.refl _

/-! ## Snapshots are ordered -/

namespace SnapshotCall

variable {call : SnapshotCall} {m m' : MetricsCollector} {named named' : Prop}

/-- What a snapshot has copied is the map as long as it holds the lock, and what it would return is
ordered. -/
structure Fair (call : SnapshotCall) (m : MetricsCollector) (named : Prop) : Prop where
  held : ∀ lock, call.holds lock = true → ∀ f : MetricsFigure, f.source = lock.read →
    call.locals.metrics.read f = f.read m
  ordered : OrderedFigures named (call.finish m).read

/-- A snapshot that has not copied the second map has loaded none of the totals. -/
theorem totals_mem_of_ips_mem (h : call.pending <:+ snapshotReads) (hmem : .ips ∈ call.pending) :
    (∀ kind, .total kind ∈ call.pending) ∧ .failed ∈ call.pending := by
  have hall : ∀ l ∈ snapshotReads.tails, .ips ∈ l →
      (.total .tcp ∈ l ∧ .total .tls ∈ l ∧ .total .mtls ∈ l) ∧ .failed ∈ l := by decide
  obtain ⟨⟨htcp, htls, hmtls⟩, hfailed⟩ := hall call.pending ((List.mem_tails _ _).mpr h) hmem
  exact ⟨fun kind => by cases kind <;> assumption, hfailed⟩

/-- A map that is still to be copied, or was copied under a lock that is still held, will be shown
as it is. -/
theorem read_finish_of_map
    (hheld : ∀ lock, call.holds lock = true → ∀ f : MetricsFigure, f.source = lock.read →
      call.locals.metrics.read f = f.read m)
    (hleft : call.pending ≠ []) {f : MetricsFigure} {lock : MetricsLock}
    (hsource : f.source = lock.read) : (call.finish m).read f = f.read m := by
  rw [read_finish]
  split_ifs with hmem
  · rfl
  · rw [hsource] at hmem
    exact hheld lock (by simp [holds, hleft, hmem]) f hsource

/-- **Others go on recording**, but not in the maps that the snapshot has locked.

**Proof sketch.** As long as the second map is not copied, nothing but the first one was read, and
that one is as it was: the snapshot would show the collector as it is. After that neither map
changes any more, and the totals that are still to be loaded only grow. -/
theorem Fair.of_step (h : call.Fair m named) (hseq : call.pending <:+ snapshotReads)
    (hheld : ∀ lock, call.holds lock = true → ∀ f : MetricsFigure, f.source = lock.read →
      f.read m' = f.read m)
    (hnamed : named' → named) (hgrow : ∀ c : Counter, c.isGauge = false → c.read m ≤ c.read m')
    (hatomic : OrderedFigures named' fun f => f.read m') : call.Fair m' named' := by
  have hkept : ∀ lock, call.holds lock = true → ∀ f : MetricsFigure, f.source = lock.read →
      call.locals.metrics.read f = f.read m' :=
    fun lock hlock f hf => (h.held lock hlock f hf).trans (hheld lock hlock f hf).symm
  refine ⟨hkept, ?_⟩
  by_cases hdone : call.pending = []
  · rw [finish_of_done hdone]
    have hordered := h.ordered
    rw [finish_of_done hdone] at hordered
    exact hordered.mono hnamed (fun _ _ _ => rfl) (fun _ => le_rfl) le_rfl
  have hmap : ∀ f lock, f.source = MetricsLock.read lock → (call.finish m').read f = f.read m' :=
    fun f lock hf => read_finish_of_map hkept hdone hf
  by_cases hips : .ips ∈ call.pending
  · obtain ⟨htotals, hfailed⟩ := totals_mem_of_ips_mem hseq hips
    refine hatomic.mono id hmap (fun kind => ?_) ?_
    · rw [read_finish, MetricsFigure.source, if_pos (htotals kind)]
    · rw [read_finish, MetricsFigure.source, if_pos hfailed]
  · refine h.ordered.mono hnamed (fun f lock hf => ?_) (fun kind => ?_) ?_
    · have hnot : f.source ∉ call.pending := by
        rw [hf]
        cases lock with
        | perServer => exact fun hmem => hips (SnapshotRun.ips_mem_of_servers_mem hseq hmem)
        | perIp => exact hips
      rw [read_finish, read_finish, if_neg hnot, if_neg hnot]
    · rw [read_finish, read_finish]
      split_ifs
      · exact hgrow (.total kind) rfl
      · exact le_rfl
    · rw [read_finish, read_finish]
      split_ifs
      · exact hgrow .failed rfl
      · exact le_rfl

/-- The snapshot makes its next read. -/
theorem Fair.read (h : call.Fair m named) {r : SnapshotRead} {rest : List SnapshotRead}
    (hpending : call.pending = r :: rest) : Fair ⟨r.run m call.locals, rest⟩ m named := by
  constructor
  · intro lock hholds f hf
    show (r.run m call.locals).metrics.read f = f.read m
    rw [SnapshotRead.read_run]
    split_ifs with hr
    · rfl
    · refine h.held lock ?_ f hf
      rw [holds, Bool.and_eq_true, decide_eq_true_eq] at hholds ⊢
      rw [hpending]
      refine ⟨rfl, fun hmem => ?_⟩
      rcases List.mem_cons.mp hmem with heq | hmem
      · exact hr (hf.trans heq)
      · exact hholds.2 hmem
  · rw [finish_read hpending]
    exact h.ordered

/-- A snapshot that has read nothing would show the collector as it is. -/
theorem read_finish_start (m : MetricsCollector) (f : MetricsFigure) :
    (start.finish m).read f = f.read m := by
  rw [read_finish, if_pos]
  rcases f with ((_ | _ | _) | _ | _ | ⟨name, field⟩ | ⟨addr, field⟩ | field) | field <;>
    simp [MetricsFigure.source, start, snapshotReads]

/-- A snapshot is called. -/
theorem fair_start (hatomic : OrderedFigures named fun f => f.read m) : start.Fair m named := by
  constructor
  · intro lock hholds
    cases lock <;> cases hholds
  · exact hatomic.mono id (fun f _ _ => read_finish_start m f)
      (fun kind => (read_finish_start m _).ge) (read_finish_start m _).ge

end SnapshotCall

namespace SnapshotRun

variable {s s' : SnapshotRun} {action : SnapshotAction}

/-- Every record has a server name. -/
def Named (s : SnapshotRun) : Prop := ∀ a ∈ s.run.activities, a.serverName ≠ none

instance (s : SnapshotRun) : Decidable s.Named := inferInstanceAs (Decidable (∀ a ∈ _, _))

/-- Records keep their names. -/
theorem Named.of_next (hstep : s.next action = some s') (h : s'.Named) : s.Named := by
  intro a ha
  obtain ⟨i, hi⟩ := List.mem_iff_getElem?.mp ha
  obtain ⟨b, hb, hlater⟩ := grows_of_next hstep i a hi
  rw [← hlater.serverName]
  exact h b (List.mem_of_getElem? hb)

/-- **What a step keeps**: snapshots are ordered.

**Proof sketch.** A step of a snapshot changes nothing in what it would return, and to the other
snapshots it is as if nobody moved. Whoever records respects the locks. -/
theorem fair_step (hsound : s.Sound) (hcounted : s'.run.Counted)
    (h : ∀ call ∈ s.snapshots, call.Fair s.run.collector s.Named)
    (hstep : s.next action = some s') :
    ∀ call ∈ s'.snapshots, call.Fair s'.run.collector s'.Named := by
  have hbefore := counted_of_next hstep hcounted
  have hatomic := (hsound.step hbefore hstep).ledger.ordered
  have hkeep : ∀ call ∈ s.snapshots, call.Fair s'.run.collector s'.Named := by
    intro call hcall
    exact (h call hcall).of_step (hsound.sequenced call hcall)
      (fun lock hholds f hf => figure_of_holds hstep hcall hholds hf)
      (fun hnamed => Named.of_next hstep hnamed)
      (fun c hc => hsound.read_le hbefore hstep hc) hatomic
  cases moves_of_next hstep with
  | snapshot =>
    intro call hcall
    rcases List.mem_append.mp hcall with hcall | hcall
    · exact hkeep call hcall
    · obtain rfl := List.mem_singleton.mp hcall
      exact SnapshotCall.fair_start hatomic
  | @read j call r rest hj hpending hfree =>
    intro call' hcall'
    rcases List.mem_or_eq_of_mem_set hcall' with hcall' | rfl
    · exact hkeep call' hcall'
    · exact (h call (List.mem_of_getElem? hj)).read hpending
  | _ => exact hkeep

/-- In every reachable state snapshots are ordered. -/
theorem fair_of_reach (h : snapshotSystem.Reach s) (hcounted : s.run.Counted) :
    ∀ call ∈ s.snapshots, call.Fair s.run.collector s.Named := by
  revert hcounted
  refine h.invariant (I := fun s => s.run.Counted →
    ∀ call ∈ s.snapshots, call.Fair s.run.collector s.Named) ?_ ?_
  · rintro s rfl _ call hcall
    cases hcall
  · intro s action s' hreach ih hstep hcounted
    have hbefore := counted_of_next hstep hcounted
    exact fair_step (sound_of_reach hreach hbefore) hcounted (ih hbefore) hstep

/-- **The entries of a snapshot never count more than its totals**, however recording calls and any
number of snapshots interleave. In every snapshot that was returned, the connections of each kind
in the entries of the servers are at most the total of that kind; those in the entries of the
addresses are at most the totals together; failures likewise; and no entry has more open
connections than connections. If every record was given a server name, the entries of the
addresses count no more than those of the servers. -/
theorem snapshot_ordered (h : snapshotSystem.Reach s) (hcounted : s.run.Counted)
    {call : SnapshotCall} (hcall : call ∈ s.snapshots) (hdone : call.pending = []) :
    OrderedFigures s.Named call.locals.metrics.read := by
  have hordered := (fair_of_reach h hcounted call hcall).ordered
  rwa [SnapshotCall.finish_of_done hdone] at hordered

/-- The snapshot above makes its reads, and the second connection waits until it returns. -/
def tornActions : List SnapshotAction := List.replicate 10 (.read 0) ++ [.caller (.advance 1)]

/-- The state after them. -/
def tornRun : SnapshotRun := Transition.System.after next lockedRun tornActions

/-- What the snapshot has returned. -/
def tornCall : SnapshotCall := tornRun.snapshots.headD .start

/-- The state after them is reachable. -/
theorem tornRun_reach : snapshotSystem.Reach tornRun :=
  Transition.System.reach_after lockedRun_reach fun _ _ _ _ hnext => hnext

/-- The snapshot shows two connections in the totals, and one in the entry of the server. -/
theorem snapshot_ordered_tornRun :
    (tornCall.locals.metrics.read (.count (.total .tls)) = 1 ∧
      tornCall.locals.metrics.read (.servers (.total .tls)) = 0) ∧
    OrderedFigures tornRun.Named tornCall.locals.metrics.read :=
  ⟨by decide +kernel, snapshot_ordered tornRun_reach ⟨by decide +kernel, by decide +kernel⟩
    (by decide +kernel) (by decide +kernel)⟩

end SnapshotRun

/-! ## Snapshots are regular -/

namespace MetricsFigure

/-- The figure counts the record of a row. -/
def countsRow (f : MetricsFigure) (a : MetricsActivity) : Bool :=
  match f with
  | .count c => decide (c.Concerns a.serverName a.peerIp) && c.counts a.record
  | .servers field => a.serverName.any fun name => Counter.counts a.record (.server name field)

/-- A figure from which a close takes. -/
def isGauge : MetricsFigure → Bool
  | .count c => c.isGauge
  | .servers field => field = .active

/-- A figure counts the same rows later. -/
theorem countsRow_of_later {a b : MetricsActivity} (h : a.Later b) (f : MetricsFigure) :
    f.countsRow b = f.countsRow a := by
  cases f with
  | count c => simp only [countsRow, h.record, h.serverName, h.peerIp]
  | servers field => simp only [countsRow, h.record, h.serverName]

end MetricsFigure

namespace MetricsActivity

variable {b : MetricsActivity}

/-- A row that was recorded is in each count of its sort, and in a gauge until its close is
called. -/
theorem Coherent.one_le_net (h : b.Coherent) {c : Counter} (hrecorded : b.isRecorded = true)
    (hconcerns : c.Concerns b.serverName b.peerIp) (hcounts : c.counts b.record = true)
    (hopen : ¬(c.isGauge = true ∧ b.closing = true)) : 1 ≤ b.net c := by
  cases hclosing : b.closing with
  | true =>
    have hgauge : c.isGauge = false := by
      rw [← Bool.not_eq_true]
      exact fun hc => hopen ⟨hc, hclosing⟩
    rw [h.net_eq_added hgauge, h.added_of_closing hclosing, if_pos ⟨hconcerns, hcounts⟩]
  | false =>
    have hpending : b.pending = [] := by simpa [isRecorded, hclosing] using hrecorded
    rw [h.net_eq hpending, if_pos ⟨hconcerns, hcounts, by simp [hclosing]⟩]

/-- A row is once at most in a count of its sort, and in no other one. -/
theorem Coherent.net_le (h : b.Coherent) (c : Counter) :
    b.net c ≤ (decide (c.Concerns b.serverName b.peerIp) && c.counts b.record).toNat := by
  have hadded := h.added_add_pending c
  have hle : b.net c ≤ b.added c := Nat.sub_le _ _
  split_ifs at hadded with hc
  · rw [decide_eq_true hc.1, hc.2]
    exact hle.trans (Nat.le_of_add_right_le hadded.le)
  · omega

/-- A row whose close has returned is in no gauge. -/
theorem Coherent.net_eq_zero (h : b.Coherent) {c : Counter} (hclosed : b.isClosed = true)
    (hc : c.isGauge = true) : b.net c = 0 := by
  rw [isClosed, Bool.and_eq_true, List.isEmpty_iff] at hclosed
  rw [h.net_eq hclosed.2, if_neg fun hnet => hnet.2.2 ⟨hclosed.1, hc⟩]

/-- A recorded row in a figure, from below. -/
theorem Coherent.one_le_netOf (h : b.Coherent) {f : MetricsFigure} (hrecorded : b.isRecorded = true)
    (hcounts : f.countsRow b = true) (hopen : ¬(f.isGauge = true ∧ b.closing = true)) :
    1 ≤ b.netOf f := by
  cases f with
  | count c =>
    rw [MetricsFigure.countsRow, Bool.and_eq_true, decide_eq_true_eq] at hcounts
    exact h.one_le_net hrecorded hcounts.1 hcounts.2 hopen
  | servers field =>
    obtain ⟨name, hname, hcount⟩ := (Option.any_eq_true _ _).mp hcounts
    rw [netOf_servers hname]
    exact h.one_le_net hrecorded hname.symm hcount hopen

/-- A row in a figure, from above. -/
theorem Coherent.netOf_le (h : b.Coherent) (f : MetricsFigure) :
    b.netOf f + (f.isGauge && f.countsRow b && b.isClosed).toNat ≤ (f.countsRow b).toNat := by
  have hle : b.netOf f ≤ (f.countsRow b).toNat := by
    cases f with
    | count c => exact h.net_le c
    | servers field =>
      cases hname : b.serverName with
      | none =>
        rw [netOf_servers_of_none hname]
        exact Nat.zero_le _
      | some name =>
        rw [netOf_servers hname]
        refine (h.net_le _).trans ?_
        rw [MetricsFigure.countsRow, hname, Option.any_some, decide_eq_true (by rfl), Bool.true_and]
  by_cases hclosed : f.isGauge = true ∧ b.isClosed = true
  · have hzero : b.netOf f = 0 := by
      cases f with
      | count c => exact h.net_eq_zero hclosed.2 hclosed.1
      | servers field =>
        cases hname : b.serverName with
        | none => exact netOf_servers_of_none hname field
        | some name =>
          rw [netOf_servers hname]
          exact h.net_eq_zero hclosed.2 hclosed.1
    rw [hzero, hclosed.1, hclosed.2, Bool.true_and, Bool.and_true, Nat.zero_add]
  · have hnone : (f.isGauge && f.countsRow b && b.isClosed) = false := by
      rw [← Bool.not_eq_true, Bool.and_eq_true, Bool.and_eq_true]
      exact fun hall => hclosed ⟨hall.1.1, hall.2⟩
    rw [hnone]
    exact hle

end MetricsActivity

namespace MetricsRun

/-- The rows that a figure surely counts between two moments: they were recorded before the first
and, for a gauge, their close was not called before the second. -/
def surely (f : MetricsFigure) (s t : MetricsRun) : ℕ :=
  (s.activities.zip t.activities).countP fun ab =>
    f.countsRow ab.1 && ab.1.isRecorded && !(f.isGauge && ab.2.closing)

/-- The rows that a figure surely counts no longer: their close had returned. -/
def ceased (f : MetricsFigure) (s : MetricsRun) : ℕ :=
  s.activities.countP fun a => f.isGauge && f.countsRow a && a.isClosed

/-- The rows that a figure may count. -/
def atMost (f : MetricsFigure) (t : MetricsRun) : ℕ := t.activities.countP f.countsRow

/-- The value of a figure at some moment between two. -/
def Within (f : MetricsFigure) (s t : MetricsRun) (n : ℕ) : Prop :=
  surely f s t ≤ n ∧ n + ceased f s ≤ atMost f t

variable {s t t' : MetricsRun} {f : MetricsFigure} {n : ℕ}

/-- The value at the later moment. -/
theorem Ledger.within (h : t.Ledger)
    (hgrows : Table.Grows MetricsActivity.Later s.activities t.activities) (f : MetricsFigure) :
    Within f s t (f.read t.collector) := by
  rw [Within, h.read_figure]
  constructor
  · refine Table.countP_zip_le_tally (p := fun a b =>
      f.countsRow a && a.isRecorded && !(f.isGauge && b.closing)) hgrows fun a b hlater hb hp => ?_
    simp only [Bool.and_eq_true, Bool.not_eq_true', Bool.and_eq_false_imp] at hp
    obtain ⟨⟨hcounts, hrecorded⟩, hopen⟩ := hp
    refine (h.coherent b hb).one_le_netOf (hlater.recorded hrecorded) ?_ fun hgauge => ?_
    · rw [MetricsFigure.countsRow_of_later hlater]
      exact hcounts
    · rw [hopen hgauge.1] at hgauge
      cases hgauge.2
  · refine Table.tally_add_countP_le hgrows (fun a b hlater hb => ?_) fun b hb => ?_
    · refine le_trans (Nat.add_le_add_left ?_ _) ((h.coherent b hb).netOf_le f)
      rw [MetricsFigure.countsRow_of_later hlater]
      cases hclosed : a.isClosed with
      | false => simp
      | true => rw [hlater.closed hclosed]
    · exact Nat.le_of_add_right_le ((h.coherent b hb).netOf_le f)

/-- A value between two moments is between the first and one that is later still. -/
theorem Within.mono (h : Within f s t n)
    (hgrows : Table.Grows MetricsActivity.Later s.activities t.activities)
    (hgrows' : Table.Grows MetricsActivity.Later t.activities t'.activities) :
    Within f s t' n := by
  constructor
  · refine le_trans (Table.countP_zip_le_countP_zip (p := fun a b =>
      f.countsRow a && a.isRecorded && !(f.isGauge && b.closing)) hgrows hgrows'
      fun a b c hlater hp => ?_) h.1
    simp only [Bool.and_eq_true, Bool.not_eq_true', Bool.and_eq_false_imp] at hp ⊢
    refine ⟨hp.1, fun hgauge => ?_⟩
    rw [← Bool.not_eq_true]
    intro hclosing
    have hopen := hp.2 hgauge
    rw [hlater.closing hclosing] at hopen
    cases hopen
  · refine h.2.trans (hgrows'.countP_le fun a b hlater ha => ?_)
    rw [MetricsFigure.countsRow_of_later hlater]
    exact ha

end MetricsRun

namespace SnapshotRun

open MetricsRun

variable {s t t' : SnapshotRun} {action : SnapshotAction} {j : ℕ}

/-- What snapshot `j` would return lies between the moment `s` and now. -/
def Regular (s t : SnapshotRun) (j : ℕ) : Prop :=
  Table.Grows MetricsActivity.Later s.run.activities t.run.activities ∧
    ∀ call, t.snapshots[j]? = some call → ∀ f : MetricsFigure,
      Within f s.run t.run ((call.finish t.run.collector).read f)

/-- **What a step keeps**: what a snapshot would return lies between an earlier moment and now.

**Proof sketch.** A figure that was read stays, and more may have been recorded by now. A figure
that is still to be read is the collector's, which counts what is recorded now. A read changes
nothing in what would be returned. -/
theorem Regular.step (h : Regular s t j) (hsound : t'.Sound) (hstep : t.next action = some t') :
    Regular s t' j := by
  have hnow := grows_of_next hstep
  have hgrows := h.1.trans MetricsActivity.Later.trans hnow
  refine ⟨hgrows, ?_⟩
  have hkeep : ∀ call, t.snapshots[j]? = some call → ∀ f : MetricsFigure,
      Within f s.run t'.run ((call.finish t'.run.collector).read f) := by
    intro call hcall f
    rw [SnapshotCall.read_finish]
    split_ifs with hmem
    · exact hsound.ledger.within hgrows f
    · have hread := (h.2 call hcall f).mono h.1 hnow
      rwa [SnapshotCall.read_finish, if_neg hmem] at hread
  cases moves_of_next hstep with
  | snapshot =>
    intro call hcall f
    rcases Table.getElem?_append_singleton.mp hcall with hcall | ⟨-, rfl⟩
    · exact hkeep call hcall f
    · rw [SnapshotCall.read_finish_start]
      exact hsound.ledger.within hgrows f
  | @read j' call' r rest hj hpending hfree =>
    intro call hcall f
    rcases (Table.getElem?_set_eq_some hj).mp hcall with ⟨rfl, rfl⟩ | ⟨-, hcall⟩
    · rw [SnapshotCall.finish_read hpending]
      exact hkeep call' hj f
    · exact hkeep call hcall f
  | _ => exact hkeep

/-- **A snapshot shows what was recorded around it**, however recording calls and any number of
snapshots interleave: between the moment before it was called and its return, each figure that it
shows counts every record that had returned before (in a gauge, unless its close was called
meanwhile), and no more than the records called by then (in a gauge, without those whose close had
returned before). -/
theorem snapshot_regular {tr : List (Transition.Taken SnapshotRun SnapshotAction)}
    (h : snapshotSystem.Reach s) (hrun : snapshotSystem.Run s tr t) (hcounted : t.run.Counted)
    (hbefore : s.snapshots.length ≤ j) {call : SnapshotCall} (hcall : t.snapshots[j]? = some call)
    (hdone : call.pending = []) (f : MetricsFigure) :
    surely f s.run t.run ≤ call.locals.metrics.read f ∧
      call.locals.metrics.read f + ceased f s.run ≤ atMost f t.run := by
  have hstart : s.run.Counted → Regular s s j := by
    intro _
    refine ⟨Table.Grows.refl MetricsActivity.Later.refl _, fun call hnone => ?_⟩
    rw [List.getElem?_eq_none hbefore] at hnone
    cases hnone
  have hregular := hrun.invariant (I := fun t => t.run.Counted → Regular s t j)
    (fun t action t' hreach ih hstep hcounted =>
      (ih (counted_of_next hstep hcounted)).step
        (sound_of_reach (.step hreach hstep) hcounted) hstep) h hstart hcounted
  have hwithin := hregular.2 call hcall f
  rwa [SnapshotCall.finish_of_done hdone] at hwithin

/-- The run above from before the snapshot was called: one connection was recorded. -/
def calmRun : SnapshotRun := Transition.System.after next start (lockedActions.take 5)

/-- The steps from there on. -/
def calmActions : List SnapshotAction := lockedActions.drop 5 ++ tornActions

/-- The gauge of the snapshot has the first connection for sure, and shows both. -/
theorem snapshot_regular_calmRun :
    let t := (Transition.System.follow next calmRun calmActions).2
    surely (.count .active) calmRun.run t.run = 1 ∧
      tornCall.locals.metrics.read (.count .active) = 2 ∧
      surely (.count .active) calmRun.run t.run ≤
        tornCall.locals.metrics.read (.count .active) ∧
      tornCall.locals.metrics.read (.count .active) + ceased (.count .active) calmRun.run ≤
        atMost (.count .active) t.run := by
  have hreach : snapshotSystem.Reach calmRun :=
    Transition.System.reach_after (.init rfl) fun _ _ _ _ hnext => hnext
  have hrun := Transition.System.run_follow (M := snapshotSystem) (fun _ _ _ h => h) calmActions
    calmRun
  refine ⟨by decide +kernel, by decide +kernel, ?_⟩
  exact snapshot_regular hreach hrun ⟨by decide +kernel, by decide +kernel⟩ (j := 0)
    (by decide +kernel) (by decide +kernel) (by decide +kernel) _

end SnapshotRun

end Synclaire
