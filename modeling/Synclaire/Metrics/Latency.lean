import Synclaire.Metrics.Gauges

set_option relaxedAutoImplicit false
set_option autoImplicit false

/-!
# Latency samples

A latency is added to the totals of the process, to the entry of its server and to the entry of
its address. A connection or a failure makes the entries it does not find; a latency does not, and
what it finds no entry for is counted in the totals of the process only. As nothing lowers those,
the views never agree again.

## Main definitions

* `Synclaire.LatencyTotals` — a number of samples and their sum, in each of the three views.
* `Synclaire.MetricsCollector.LatencyConsistent` — the views agree.
* `Synclaire.latencySystem` — runs without a reset, where each call names a server and the sums
  fit their words.
* `Synclaire.MetricsOp.Attributed` — a latency finds the entries of its server and its address.

## Main results

* `Synclaire.latencyConsistent_apply`, `Synclaire.unattributed_apply` — what a single operation
  does.
* `Synclaire.latencyConsistent_iff` — the views agree all along a run, and at its end, iff every
  latency is attributed.
* `Synclaire.not_forall_latencyConsistent` — a latency before any connection.
-/

namespace Synclaire

open MetricsCollector

/-! ## The views -/

/-- A number of latency samples and their sum. -/
@[ext] structure LatencyTotals where
  sumMs : ℕ
  count : ℕ
  deriving DecidableEq

/-- One more sample. -/
def LatencyTotals.add (t : LatencyTotals) (latencyMs : UInt64) : LatencyTotals :=
  ⟨t.sumMs + latencyMs.toNat, t.count + 1⟩

/-- The samples in the entries of a map. -/
def latencyOf {K V : Type*} [DecidableEq K] (sumMs count : V → UInt64) (entries : FMap K V) :
    LatencyTotals :=
  ⟨FMap.total (fun e => (sumMs e).toNat) entries, FMap.total (fun e => (count e).toNat) entries⟩

namespace MetricsCollector

variable (m : MetricsCollector)

/-- The samples of the process. -/
def latencyTotals : LatencyTotals := ⟨m.latencySumMs.toNat, m.latencyCount.toNat⟩

/-- The samples of all addresses. -/
def latencyOfIps : LatencyTotals :=
  latencyOf PerIpMetrics.latencySumMs PerIpMetrics.latencyCount m.perIp

/-- The samples of all servers. -/
def latencyOfServers : LatencyTotals :=
  latencyOf PerServerMetrics.latencySumMs PerServerMetrics.latencyCount m.perServer

/-- Every sample of the process is one of an address and one of a server. -/
def LatencyConsistent : Prop :=
  m.latencyTotals = m.latencyOfIps ∧ m.latencyTotals = m.latencyOfServers

instance : Decidable m.LatencyConsistent := inferInstanceAs (Decidable (_ ∧ _))

/-- Some sample of the process is in no entry. -/
def Unattributed : Prop :=
  m.latencyOfIps.count < m.latencyTotals.count ∨ m.latencyOfServers.count < m.latencyTotals.count

/-- Views that agree leave no sample out. -/
theorem LatencyConsistent.not_unattributed {m : MetricsCollector} (h : m.LatencyConsistent) :
    ¬m.Unattributed := by
  unfold Unattributed
  rw [← h.1, ← h.2]
  simp

end MetricsCollector

/-! ## Runs -/

/-- A call that is no reset, names a server and keeps the sums below the size of a word. -/
def MetricsOp.InScope (m : MetricsCollector) : MetricsOp → Prop
  | .record _ serverName _ => serverName.isSome
  | .recordConnectionClose serverName _ => serverName.isSome
  | .recordConnectionLatency serverName _ latencyMs =>
    serverName.isSome ∧ m.latencySumMs.toNat + latencyMs.toNat < 2 ^ 64 ∧
      m.latencyCount.toNat + 1 < 2 ^ 64
  | .registerCallback => True
  | .snapshot => True
  | .triggerCallbacks => True
  | .reset => False

instance (m : MetricsCollector) : (op : MetricsOp) → Decidable (op.InScope m)
  | .record _ serverName _ => inferInstanceAs (Decidable (serverName.isSome = true))
  | .recordConnectionClose serverName _ => inferInstanceAs (Decidable (serverName.isSome = true))
  | .recordConnectionLatency _ _ _ => inferInstanceAs (Decidable (_ ∧ _ ∧ _))
  | .registerCallback => .isTrue trivial
  | .snapshot => .isTrue trivial
  | .triggerCallbacks => .isTrue trivial
  | .reset => .isFalse id

/-- The sequential runs of such calls. -/
def latencySystem : Transition.System MetricsCollector MetricsOp :=
  gaugeSystem.restrict fun m op _ => op.InScope m

/-- A latency finds an entry of its address and one of its server: a connection or a failure
recorded earlier made them. -/
def MetricsOp.Attributed (m : MetricsCollector) : MetricsOp → Prop
  | .recordConnectionLatency (some name) peerIp _ => peerIp ∈ m.perIp ∧ name ∈ m.perServer
  | _ => True

instance (m : MetricsCollector) : (op : MetricsOp) → Decidable (op.Attributed m)
  | .recordConnectionLatency (some _) _ _ => inferInstanceAs (Decidable (_ ∧ _))
  | .recordConnectionLatency none _ _ => .isTrue trivial
  | .record _ _ _ => .isTrue trivial
  | .recordConnectionClose _ _ => .isTrue trivial
  | .registerCallback => .isTrue trivial
  | .snapshot => .isTrue trivial
  | .triggerCallbacks => .isTrue trivial
  | .reset => .isTrue trivial

/-! ## The entries of a map -/

section Entries

variable {K V : Type*} [DecidableEq K] {sumMs count : V → UInt64} {entries : FMap K V} {k : K}
  {g : V → V}

/-- A connection or a failure brings no sample. -/
theorem latencyOf_upsert {v : V} (hv : sumMs v = 0 ∧ count v = 0)
    (hg : ∀ e, sumMs (g e) = sumMs e ∧ count (g e) = count e) :
    latencyOf sumMs count (FMap.upsert entries k g v) = latencyOf sumMs count entries := by
  ext
  · refine FMap.total_upsert_add (f := fun e => (sumMs e).toNat) (d := 0) ?_ fun e _ => ?_
    · rw [hv.1, UInt64.toNat_zero]
    · rw [(hg e).1, Nat.add_zero]
  · refine FMap.total_upsert_add (f := fun e => (count e).toNat) (d := 0) ?_ fun e _ => ?_
    · rw [hv.2, UInt64.toNat_zero]
    · rw [(hg e).2, Nat.add_zero]

/-- A close takes no sample. -/
theorem latencyOf_adjust (hg : ∀ e, sumMs (g e) = sumMs e ∧ count (g e) = count e) :
    latencyOf sumMs count (FMap.adjust entries k g) = latencyOf sumMs count entries := by
  ext
  · refine FMap.total_adjust_sub (f := fun e => (sumMs e).toNat) (fun _ => rfl) fun e _ => ?_
    rw [(hg e).1, Nat.add_zero]
  · refine FMap.total_adjust_sub (f := fun e => (count e).toNat) (fun _ => rfl) fun e _ => ?_
    rw [(hg e).2, Nat.add_zero]

/-- A word read from an entry does not wrap where the sum over the entries has room. -/
theorem toNat_add_of_total {f : V → UInt64} {e : V} {x : UInt64} (he : entries.lookup k = some e)
    (hfit : FMap.total (fun e => (f e).toNat) entries + x.toNat < 2 ^ 64) :
    (f e + x).toNat = (f e).toNat + x.toNat := by
  have hle := FMap.lookup_le_total (fun e => (f e).toNat) entries k
  rw [he, Option.map_some, Option.getD_some] at hle
  rw [UInt64.toNat_add]
  exact Nat.mod_eq_of_lt (by omega)

variable {latencyMs : UInt64}

/-- A latency is one more sample where its entry is found. -/
theorem latencyOf_delayed (hg : ∀ e, sumMs (g e) = sumMs e + latencyMs ∧ count (g e) = count e + 1)
    (hk : k ∈ entries)
    (hsum : (latencyOf sumMs count entries).sumMs + latencyMs.toNat < 2 ^ 64)
    (hcount : (latencyOf sumMs count entries).count + 1 < 2 ^ 64) :
    latencyOf sumMs count (FMap.adjust entries k g) =
      (latencyOf sumMs count entries).add latencyMs := by
  ext
  · refine FMap.total_adjust_add (f := fun e => (sumMs e).toNat) hk fun e he => ?_
    rw [(hg e).1]
    exact toNat_add_of_total he hsum
  · refine FMap.total_adjust_add (f := fun e => (count e).toNat) hk fun e he => ?_
    rw [(hg e).2]
    exact toNat_add_of_total (x := 1) he hcount

/-- A latency is at most one more sample, whatever wraps. -/
theorem count_latencyOf_delayed_le (hg : ∀ e, count (g e) = count e + 1) :
    (latencyOf sumMs count (FMap.adjust entries k g)).count ≤
      (latencyOf sumMs count entries).count + 1 := by
  refine FMap.total_adjust_le (f := fun e => (count e).toNat) fun e _ => ?_
  rw [hg e, UInt64.toNat_add]
  exact Nat.mod_le _ _

end Entries

/-! ## What the operations do to the views -/

variable {m : MetricsCollector}

/-- The samples in the three views. -/
def latencyViews (m : MetricsCollector) : LatencyTotals × LatencyTotals × LatencyTotals :=
  (m.latencyTotals, m.latencyOfIps, m.latencyOfServers)

/-- The views after a recorded connection. -/
theorem latencyViews_recordConnection (kind : ConnectionKind) (name : Str) (peerIp : IpAddr) :
    latencyViews (m.run (recordConnection kind (some name) peerIp)) = latencyViews m := by
  have hip : latencyOf PerIpMetrics.latencySumMs PerIpMetrics.latencyCount
      (FMap.upsert m.perIp peerIp .connected ⟨1, 1, 0, 0, 0⟩) = m.latencyOfIps :=
    latencyOf_upsert ⟨rfl, rfl⟩ fun _ => ⟨rfl, rfl⟩
  have hserver : latencyOf PerServerMetrics.latencySumMs PerServerMetrics.latencyCount
      (FMap.upsert m.perServer name (.connected kind) (.ofConnection kind)) =
        m.latencyOfServers := by
    refine latencyOf_upsert ?_ fun e => ?_
    · cases kind <;> exact ⟨rfl, rfl⟩
    · cases kind <;> exact ⟨rfl, rfl⟩
  unfold latencyViews
  rw [← hip, ← hserver]
  cases kind <;> rfl

/-- The views after a recorded failure. -/
theorem latencyViews_recordFailure (name : Str) (peerIp : IpAddr) :
    latencyViews (m.run (recordFailure (some name) peerIp)) = latencyViews m := by
  have hip : latencyOf PerIpMetrics.latencySumMs PerIpMetrics.latencyCount
      (FMap.upsert m.perIp peerIp .failed ⟨0, 0, 1, 0, 0⟩) = m.latencyOfIps :=
    latencyOf_upsert ⟨rfl, rfl⟩ fun _ => ⟨rfl, rfl⟩
  have hserver : latencyOf PerServerMetrics.latencySumMs PerServerMetrics.latencyCount
      (FMap.upsert m.perServer name .failed ⟨0, 0, 0, 0, 1, 0, 0⟩) = m.latencyOfServers :=
    latencyOf_upsert ⟨rfl, rfl⟩ fun _ => ⟨rfl, rfl⟩
  unfold latencyViews
  rw [← hip, ← hserver]
  rfl

/-- The views after a close. -/
theorem latencyViews_recordConnectionClose (name : Str) (peerIp : IpAddr) :
    latencyViews (m.run (recordConnectionClose (some name) peerIp)) = latencyViews m := by
  have hip : latencyOf PerIpMetrics.latencySumMs PerIpMetrics.latencyCount
      (FMap.adjust m.perIp peerIp .closed) = m.latencyOfIps := by
    refine latencyOf_adjust fun e => ?_
    unfold PerIpMetrics.closed
    split_ifs <;> exact ⟨rfl, rfl⟩
  have hserver : latencyOf PerServerMetrics.latencySumMs PerServerMetrics.latencyCount
      (FMap.adjust m.perServer name .closed) = m.latencyOfServers := by
    refine latencyOf_adjust fun e => ?_
    unfold PerServerMetrics.closed
    split_ifs <;> exact ⟨rfl, rfl⟩
  unfold latencyViews
  rw [← hip, ← hserver]
  rfl

/-- Only a latency changes the views. -/
theorem latencyViews_apply {op : MetricsOp} (hscope : op.InScope m)
    (hop : ∀ name peerIp latencyMs, op ≠ .recordConnectionLatency (some name) peerIp latencyMs) :
    latencyViews (m.apply op) = latencyViews m := by
  cases op with
  | record record serverName peerIp =>
    obtain ⟨name, rfl⟩ := Option.isSome_iff_exists.mp hscope
    cases record with
    | connection kind =>
      rw [MetricsCollector.apply, sections_connection]
      exact latencyViews_recordConnection kind name peerIp
    | failure => exact latencyViews_recordFailure name peerIp
  | recordConnectionClose serverName peerIp =>
    obtain ⟨name, rfl⟩ := Option.isSome_iff_exists.mp hscope
    exact latencyViews_recordConnectionClose name peerIp
  | recordConnectionLatency serverName peerIp latencyMs =>
    obtain ⟨name, rfl⟩ := Option.isSome_iff_exists.mp hscope.1
    exact absurd rfl (hop name peerIp latencyMs)
  | registerCallback => rfl
  | snapshot => rfl
  | triggerCallbacks => rfl
  | reset => exact hscope.elim

/-- What a latency writes, apart from the least and the greatest. -/
theorem run_recordConnectionLatency (name : Str) (peerIp : IpAddr) (latencyMs : UInt64) :
    ∃ lo hi, m.run (recordConnectionLatency (some name) peerIp latencyMs) =
      { m with
        latencySumMs := m.latencySumMs + latencyMs
        latencyCount := m.latencyCount + 1
        minLatencyMs := lo
        maxLatencyMs := hi
        perServer := FMap.adjust m.perServer name (.delayed latencyMs)
        perIp := FMap.adjust m.perIp peerIp (.delayed latencyMs) } := by
  refine ⟨if latencyMs < m.minLatencyMs then latencyMs else m.minLatencyMs,
    if m.maxLatencyMs < latencyMs then latencyMs else m.maxLatencyMs, ?_⟩
  by_cases hmin : latencyMs < m.minLatencyMs <;> by_cases hmax : m.maxLatencyMs < latencyMs <;>
    simp [MetricsCollector.run, recordConnectionLatency, serverSection, MetricsSection.run, hmin,
      hmax]

section Latency

variable {name : Str} {peerIp : IpAddr} {latencyMs : UInt64}

/-- The samples of the process after a latency. -/
theorem latencyTotals_latency
    (hscope : (MetricsOp.recordConnectionLatency (some name) peerIp latencyMs).InScope m) :
    (m.apply (.recordConnectionLatency (some name) peerIp latencyMs)).latencyTotals =
      m.latencyTotals.add latencyMs := by
  obtain ⟨-, hsum, hcount⟩ := hscope
  obtain ⟨lo, hi, hrun⟩ := run_recordConnectionLatency name peerIp latencyMs (m := m)
  rw [MetricsCollector.apply, hrun]
  ext
  · show (m.latencySumMs + latencyMs).toNat = m.latencySumMs.toNat + latencyMs.toNat
    rw [UInt64.toNat_add, Nat.mod_eq_of_lt hsum]
  · exact toNat_add_one hcount

/-- The samples of the addresses after a latency. -/
theorem latencyOfIps_latency :
    (m.apply (.recordConnectionLatency (some name) peerIp latencyMs)).latencyOfIps =
      latencyOf PerIpMetrics.latencySumMs PerIpMetrics.latencyCount
        (FMap.adjust m.perIp peerIp (.delayed latencyMs)) := by
  obtain ⟨lo, hi, hrun⟩ := run_recordConnectionLatency name peerIp latencyMs (m := m)
  rw [MetricsCollector.apply, hrun]
  rfl

/-- The samples of the servers after a latency. -/
theorem latencyOfServers_latency :
    (m.apply (.recordConnectionLatency (some name) peerIp latencyMs)).latencyOfServers =
      latencyOf PerServerMetrics.latencySumMs PerServerMetrics.latencyCount
        (FMap.adjust m.perServer name (.delayed latencyMs)) := by
  obtain ⟨lo, hi, hrun⟩ := run_recordConnectionLatency name peerIp latencyMs (m := m)
  rw [MetricsCollector.apply, hrun]
  rfl

/-- A latency that finds both entries is one more sample in each view. -/
theorem latencyConsistent_latency (h : m.LatencyConsistent)
    (hscope : (MetricsOp.recordConnectionLatency (some name) peerIp latencyMs).InScope m)
    (hip : peerIp ∈ m.perIp) (hserver : name ∈ m.perServer) :
    (m.apply (.recordConnectionLatency (some name) peerIp latencyMs)).LatencyConsistent := by
  have htotals := latencyTotals_latency hscope
  obtain ⟨-, hsum, hcount⟩ := hscope
  -- no entry wraps: the sums over the entries are those of the process
  have hsum' : m.latencyTotals.sumMs + latencyMs.toNat < 2 ^ 64 := hsum
  have hcount' : m.latencyTotals.count + 1 < 2 ^ 64 := hcount
  unfold LatencyConsistent
  rw [htotals, latencyOfIps_latency, latencyOfServers_latency]
  constructor
  · have hdelayed : ∀ e : PerIpMetrics,
        (e.delayed latencyMs).latencySumMs = e.latencySumMs + latencyMs ∧
          (e.delayed latencyMs).latencyCount = e.latencyCount + 1 := fun _ => ⟨rfl, rfl⟩
    rw [h.1] at hsum' hcount' ⊢
    exact (latencyOf_delayed hdelayed hip hsum' hcount').symm
  · have hdelayed : ∀ e : PerServerMetrics,
        (e.delayed latencyMs).latencySumMs = e.latencySumMs + latencyMs ∧
          (e.delayed latencyMs).latencyCount = e.latencyCount + 1 := fun _ => ⟨rfl, rfl⟩
    rw [h.2] at hsum' hcount' ⊢
    exact (latencyOf_delayed hdelayed hserver hsum' hcount').symm

/-- A latency that misses an entry is no sample of that view. -/
theorem unattributed_latency (h : m.LatencyConsistent)
    (hscope : (MetricsOp.recordConnectionLatency (some name) peerIp latencyMs).InScope m)
    (hmiss : ¬(peerIp ∈ m.perIp ∧ name ∈ m.perServer)) :
    (m.apply (.recordConnectionLatency (some name) peerIp latencyMs)).Unattributed := by
  unfold Unattributed
  rw [latencyTotals_latency hscope, latencyOfIps_latency, latencyOfServers_latency]
  rcases not_and_or.mp hmiss with hip | hserver
  · left
    rw [FMap.adjust_of_notMem hip]
    show m.latencyOfIps.count < m.latencyTotals.count + 1
    rw [h.1]
    exact Nat.lt_succ_self _
  · right
    rw [FMap.adjust_of_notMem hserver]
    show m.latencyOfServers.count < m.latencyTotals.count + 1
    rw [h.2]
    exact Nat.lt_succ_self _

/-- A latency makes up for no sample that was left out. -/
theorem unattributed_of_unattributed (h : m.Unattributed)
    (hscope : (MetricsOp.recordConnectionLatency (some name) peerIp latencyMs).InScope m) :
    (m.apply (.recordConnectionLatency (some name) peerIp latencyMs)).Unattributed := by
  unfold Unattributed
  rw [latencyTotals_latency hscope, latencyOfIps_latency, latencyOfServers_latency]
  refine h.imp (fun hip => ?_) (fun hserver => ?_)
  · exact Nat.lt_of_le_of_lt (count_latencyOf_delayed_le fun _ => rfl) (Nat.succ_lt_succ hip)
  · exact Nat.lt_of_le_of_lt (count_latencyOf_delayed_le fun _ => rfl) (Nat.succ_lt_succ hserver)

end Latency

/-! ## One operation -/

/-- A call is a latency for a server, or keeps every view. -/
theorem latency_or_latencyViews {op : MetricsOp} (hscope : op.InScope m) :
    (∃ name peerIp latencyMs, op = .recordConnectionLatency (some name) peerIp latencyMs) ∨
      op.Attributed m ∧ latencyViews (m.apply op) = latencyViews m := by
  by_cases hop : ∃ name peerIp latencyMs,
      op = .recordConnectionLatency (some name) peerIp latencyMs
  · exact .inl hop
  · have hother : ∀ name peerIp latencyMs,
        op ≠ .recordConnectionLatency (some name) peerIp latencyMs :=
      fun name peerIp latencyMs h => hop ⟨name, peerIp, latencyMs, h⟩
    refine .inr ⟨?_, latencyViews_apply hscope hother⟩
    unfold MetricsOp.Attributed
    split
    · exact absurd rfl (hother _ _ _)
    · trivial

/-- Views that agree still do where no view changes. -/
theorem latencyConsistent_of_latencyViews {m' : MetricsCollector} (h : m.LatencyConsistent)
    (hviews : latencyViews m' = latencyViews m) : m'.LatencyConsistent := by
  obtain ⟨htotals, hpair⟩ := Prod.mk.inj hviews
  obtain ⟨hips, hservers⟩ := Prod.mk.inj hpair
  unfold MetricsCollector.LatencyConsistent
  rw [htotals, hips, hservers]
  exact h

/-- A sample that was left out still is where no view changes. -/
theorem unattributed_of_latencyViews {m' : MetricsCollector} (h : m.Unattributed)
    (hviews : latencyViews m' = latencyViews m) : m'.Unattributed := by
  obtain ⟨htotals, hpair⟩ := Prod.mk.inj hviews
  obtain ⟨hips, hservers⟩ := Prod.mk.inj hpair
  unfold Unattributed
  rw [htotals, hips, hservers]
  exact h

/-- **A call that is no unattributed latency keeps the views in agreement.** -/
theorem latencyConsistent_apply (h : m.LatencyConsistent) {op : MetricsOp}
    (hscope : op.InScope m) (hattr : op.Attributed m) : (m.apply op).LatencyConsistent := by
  rcases latency_or_latencyViews hscope with ⟨name, peerIp, latencyMs, rfl⟩ | ⟨-, hviews⟩
  · exact latencyConsistent_latency h hscope hattr.1 hattr.2
  · exact latencyConsistent_of_latencyViews h hviews

/-- An unattributed latency leaves a sample out. -/
theorem unattributed_apply (h : m.LatencyConsistent) {op : MetricsOp} (hscope : op.InScope m)
    (hattr : ¬op.Attributed m) : (m.apply op).Unattributed := by
  rcases latency_or_latencyViews hscope with ⟨name, peerIp, latencyMs, rfl⟩ | ⟨hattr', -⟩
  · exact unattributed_latency h hscope hattr
  · exact absurd hattr' hattr

/-- **No call makes up for a sample that was left out.** -/
theorem unattributed_apply_of_unattributed (h : m.Unattributed) {op : MetricsOp}
    (hscope : op.InScope m) : (m.apply op).Unattributed := by
  rcases latency_or_latencyViews hscope with ⟨name, peerIp, latencyMs, rfl⟩ | ⟨-, hviews⟩
  · exact unattributed_of_unattributed h hscope
  · exact unattributed_of_latencyViews h hviews

/-! ## Whole runs -/

/-- Nothing is counted in a new collector. -/
theorem latencyConsistent_new : MetricsCollector.new.LatencyConsistent := by decide +kernel

/-- **The three views of the latencies agree all along a run, and at its end, iff every latency of
it found the entries of its server and its address.**

**Proof sketch.** An attributed call keeps the agreement. One that is not leaves a sample out of a
view, and no later call makes up for it: the run ends with a view that counts less than the
process. -/
theorem latencyConsistent_iff {m : MetricsCollector}
    {tr : List (Transition.Taken MetricsCollector MetricsOp)} (h : latencySystem.Run .new tr m) :
    ((∀ x ∈ tr, x.target.LatencyConsistent) ↔ ∀ x ∈ tr, x.label.Attributed x.source) ∧
      (m.LatencyConsistent ↔ ∀ x ∈ tr, x.label.Attributed x.source) := by
  constructor
  · refine h.forall_target_iff (P := MetricsCollector.LatencyConsistent)
      (G := fun m op _ => op.Attributed m) (fun m op m' _ hm hstep => ?_) (.init rfl)
      latencyConsistent_new
    obtain ⟨hstep, hscope⟩ := hstep
    obtain rfl := Option.some.inj hstep
    refine ⟨fun hm' => ?_, latencyConsistent_apply hm hscope⟩
    by_contra hattr
    exact hm'.not_unattributed (unattributed_apply hm hscope hattr)
  · have hend := h.forall_or_exists (P := MetricsCollector.LatencyConsistent)
      (Q := Unattributed) (G := fun m op => op.Attributed m)
      (fun m op m' hm hstep hattr => by
        obtain rfl := Option.some.inj hstep.1
        exact latencyConsistent_apply hm hstep.2 hattr)
      (fun m op m' hm hstep hattr => by
        obtain rfl := Option.some.inj hstep.1
        exact unattributed_apply hm hstep.2 hattr)
      (fun m op m' hm hstep => by
        obtain rfl := Option.some.inj hstep.1
        exact unattributed_apply_of_unattributed hm hstep.2)
      latencyConsistent_new
    rcases hend with ⟨hall, hm⟩ | ⟨⟨x, hx, hxattr⟩, hm⟩
    · exact iff_of_true hm hall
    · exact iff_of_false (fun hm' => hm'.not_unattributed hm) fun hall => hxattr (hall x hx)

/-- The step function of such runs. -/
def latencyStep (m : MetricsCollector) (op : MetricsOp) : Option MetricsCollector :=
  if op.InScope m then gaugeStep m op else none

/-- It takes the steps of the system. -/
theorem latencyStep_step (m : MetricsCollector) (op : MetricsOp) (m' : MetricsCollector)
    (h : latencyStep m op = some m') : latencySystem.step m op m' := by
  unfold latencyStep at h
  split_ifs at h with hscope
  exact ⟨h, hscope⟩

/-- A failure makes the entries, and a latency comes before the first connection. -/
def attributedOps : List MetricsOp :=
  [.record .failure (some "s".toList) (.v4 1),
    .recordConnectionLatency (some "s".toList) (.v4 1) 7,
    .record (.connection .tls) (some "t".toList) (.v4 1),
    .recordConnectionLatency (some "t".toList) (.v4 1) 5,
    .recordConnectionClose (some "t".toList) (.v4 1)]

/-- The views agree after these calls: two samples of twelve milliseconds in all. -/
theorem latencyConsistent_attributedOps :
    (Transition.System.follow latencyStep .new attributedOps).2.latencyTotals = ⟨12, 2⟩ ∧
      (Transition.System.follow latencyStep .new attributedOps).2.LatencyConsistent :=
  ⟨by decide +kernel, (latencyConsistent_iff
    (Transition.System.run_follow latencyStep_step attributedOps .new)).2.mpr
    (by decide +kernel)⟩

/-- **A latency before any connection is counted for no address and no server.** -/
theorem not_forall_latencyConsistent :
    ¬∀ m tr, latencySystem.Run .new tr m → m.LatencyConsistent := by
  intro h
  have hrun := Transition.System.run_follow latencyStep_step
    [.recordConnectionLatency (some "s".toList) (.v4 1) 7] .new
  exact absurd (h _ _ hrun) (by decide +kernel)

end Synclaire
