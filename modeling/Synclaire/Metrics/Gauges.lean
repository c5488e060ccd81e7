import Synclaire.Lib.Transition
import Synclaire.Metrics.Counters

set_option relaxedAutoImplicit false
set_option autoImplicit false

/-!
# The gauges of open connections

The number of open connections is kept once for the process and once for each address. A close
lowers the first whenever it is not zero, and the second only if the address has an open
connection. The two agree as long as no close is for an address without open connections while
other addresses have some.

## Main definitions

* `Synclaire.MetricsOp`, `Synclaire.gaugeSystem` — sequential runs of the public functions.
* `Synclaire.MetricsCollector.Consistent` — the gauge is the sum over the addresses.
* `Synclaire.MetricsOp.Harmless` — an operation that lowers both gauges or neither.

## Main results

* `Synclaire.consistent_apply_iff` — what a single operation does.
* `Synclaire.forall_consistent_iff` — the gauges agree all along a run iff every operation is
  harmless.
* `Synclaire.not_forall_consistent` — a close of an unknown address hides an open connection.
-/

namespace Synclaire

open MetricsCollector

/-! ## Sequential runs -/

/-- A call of a public function. -/
inductive MetricsOp
  | record (record : MetricsRecord) (serverName : Option Str) (peerIp : IpAddr)
  | recordConnectionClose (serverName : Option Str) (peerIp : IpAddr)
  | recordConnectionLatency (serverName : Option Str) (peerIp : IpAddr) (latencyMs : UInt64)
  | registerCallback
  | snapshot
  | triggerCallbacks
  | reset
  deriving DecidableEq

/-- The collector after a call that runs alone. -/
def MetricsCollector.apply (m : MetricsCollector) : MetricsOp → MetricsCollector
  | .record record serverName peerIp => m.run (record.sections serverName peerIp)
  | .recordConnectionClose serverName peerIp => m.run (recordConnectionClose serverName peerIp)
  | .recordConnectionLatency serverName peerIp latencyMs =>
    m.run (recordConnectionLatency serverName peerIp latencyMs)
  -- these only read the counters
  | .registerCallback => m
  | .snapshot => m
  | .triggerCallbacks => m
  | .reset => m.reset

/-- Every call is possible in every state. -/
def gaugeStep (m : MetricsCollector) (op : MetricsOp) : Option MetricsCollector := some (m.apply op)

/-- The sequential runs of a collector. -/
def gaugeSystem : Transition.System MetricsCollector MetricsOp := .ofFn .new gaugeStep

/-- The gauge of open connections is the sum of the gauges of the addresses. -/
def MetricsCollector.Consistent (m : MetricsCollector) : Prop :=
  m.active.toNat = m.sumIps PerIpMetrics.active

instance (m : MetricsCollector) : Decidable m.Consistent := inferInstanceAs (Decidable (_ = _))

/-- An operation that changes both gauges alike: a close is for an address with an open
connection, or nothing is open; and a connection does not wrap one gauge alone. -/
def MetricsOp.Harmless (m : MetricsCollector) : MetricsOp → Prop
  | .record (.connection _) _ peerIp =>
    m.active.toNat + 1 < 2 ^ 64 ∨ m.ofIp peerIp PerIpMetrics.active + 1 = 2 ^ 64
  | .recordConnectionClose _ peerIp =>
    0 < m.ofIp peerIp PerIpMetrics.active ∨ m.active = 0
  | _ => True

instance (m : MetricsCollector) : (op : MetricsOp) → Decidable (op.Harmless m)
  | .record (.connection _) _ _ => inferInstanceAs (Decidable (_ ∨ _))
  | .record .failure _ _ => .isTrue trivial
  | .recordConnectionClose _ _ => inferInstanceAs (Decidable (_ ∨ _))
  | .recordConnectionLatency _ _ _ => .isTrue trivial
  | .registerCallback => .isTrue trivial
  | .snapshot => .isTrue trivial
  | .triggerCallbacks => .isTrue trivial
  | .reset => .isTrue trivial

/-! ## What the operations do to the gauges -/

variable {m : MetricsCollector}

/-- The gauge after a recorded connection. -/
theorem active_run_recordConnection (kind : ConnectionKind) (serverName : Option Str)
    (peerIp : IpAddr) :
    (m.run (recordConnection kind serverName peerIp)).active = m.active + 1 := by
  cases kind <;> cases serverName <;> rfl

/-- The addresses after a recorded connection. -/
theorem perIp_run_recordConnection (kind : ConnectionKind) (serverName : Option Str)
    (peerIp : IpAddr) :
    (m.run (recordConnection kind serverName peerIp)).perIp =
      FMap.upsert m.perIp peerIp .connected ⟨1, 1, 0, 0, 0⟩ := by
  cases kind <;> cases serverName <;> rfl

/-- The gauge of an address is part of the sum. -/
theorem ofIp_le_sumIps (ip : IpAddr) (f : PerIpMetrics → UInt64) : m.ofIp ip f ≤ m.sumIps f :=
  FMap.lookup_le_total (fun e => (f e).toNat) m.perIp ip

/-- The sum of the gauges after a recorded connection. -/
theorem sumIps_active_recordConnection (kind : ConnectionKind) (serverName : Option Str)
    (peerIp : IpAddr) :
    (m.run (recordConnection kind serverName peerIp)).sumIps PerIpMetrics.active +
        m.ofIp peerIp PerIpMetrics.active =
      m.sumIps PerIpMetrics.active + (m.ofIp peerIp PerIpMetrics.active + 1) % 2 ^ 64 := by
  unfold sumIps ofIp
  rw [perIp_run_recordConnection, FMap.total_upsert]
  cases m.perIp.lookup peerIp with
  | none => rfl
  | some e => exact congrArg _ (UInt64.toNat_add e.active 1)

/-- The gauges after a recorded connection. -/
theorem consistent_recordConnection_iff (h : m.Consistent) (kind : ConnectionKind)
    (serverName : Option Str) (peerIp : IpAddr) :
    (m.run (recordConnection kind serverName peerIp)).Consistent ↔
      m.active.toNat + 1 < 2 ^ 64 ∨ m.ofIp peerIp PerIpMetrics.active + 1 = 2 ^ 64 := by
  have hsum := sumIps_active_recordConnection kind serverName peerIp (m := m)
  have hle := ofIp_le_sumIps peerIp PerIpMetrics.active (m := m)
  have hlt := m.active.toNat_lt
  have hactive : (m.run (recordConnection kind serverName peerIp)).active.toNat =
      (m.active.toNat + 1) % 2 ^ 64 := by
    rw [active_run_recordConnection]
    exact UInt64.toNat_add m.active 1
  unfold Consistent at h ⊢
  rw [hactive]
  -- either gauge wraps at the last word only
  rcases Nat.lt_or_ge (m.active.toNat + 1) (2 ^ 64) with hfit | hfull
  · rw [Nat.mod_eq_of_lt hfit]
    rw [Nat.mod_eq_of_lt (by omega)] at hsum
    omega
  · have hmax : m.active.toNat + 1 = 2 ^ 64 := by omega
    rw [hmax, Nat.mod_self]
    rcases Nat.lt_or_ge (m.ofIp peerIp PerIpMetrics.active + 1) (2 ^ 64) with hip | hip
    · rw [Nat.mod_eq_of_lt hip] at hsum
      omega
    · have hipmax : m.ofIp peerIp PerIpMetrics.active + 1 = 2 ^ 64 := by omega
      rw [hipmax, Nat.mod_self] at hsum
      omega

/-- The sum of the gauges after a close. -/
theorem sumIps_active_recordConnectionClose (serverName : Option Str) (peerIp : IpAddr) :
    (m.run (recordConnectionClose serverName peerIp)).sumIps PerIpMetrics.active +
        (if 0 < m.ofIp peerIp PerIpMetrics.active then 1 else 0) =
      m.sumIps PerIpMetrics.active := by
  have hrun : (m.run (recordConnectionClose serverName peerIp)).sumIps PerIpMetrics.active =
      ({ m with perIp := FMap.adjust m.perIp peerIp .closed } : MetricsCollector).sumIps
        PerIpMetrics.active := by
    cases serverName <;> rfl
  rw [hrun]
  refine m.sumIps_adjust (fun hnone => ?_) (fun e he => ?_)
  · simp [ofIp, hnone]
  · simp only [ofIp, he, Option.map_some, Option.getD_some]
    unfold PerIpMetrics.closed
    split_ifs with hpos hpos' hpos'
    · exact toNat_sub_one hpos'
    · exact absurd hpos hpos'
    · exact absurd hpos' hpos
    · rfl

/-- The gauges after a close. -/
theorem consistent_recordConnectionClose_iff (h : m.Consistent) (serverName : Option Str)
    (peerIp : IpAddr) :
    (m.run (recordConnectionClose serverName peerIp)).Consistent ↔
      0 < m.ofIp peerIp PerIpMetrics.active ∨ m.active = 0 := by
  have hsum := sumIps_active_recordConnectionClose serverName peerIp (m := m)
  have hle := ofIp_le_sumIps peerIp PerIpMetrics.active (m := m)
  have hactive : (m.run (recordConnectionClose serverName peerIp)).active =
      if m.active = 0 then 0 else m.active - 1 := by
    cases serverName <;> rfl
  have hzero : m.active = 0 ↔ m.active.toNat = 0 := UInt64.toNat_inj.symm
  unfold Consistent at h ⊢
  rw [hactive]
  split_ifs with hopen
  · -- nothing is open: neither gauge moves
    have := hzero.mp hopen
    rw [if_neg (by omega)] at hsum
    simp only [hopen, or_true, iff_true]
    show 0 = _
    omega
  · have hpos : 1 ≤ m.active.toNat := by
      have := mt hzero.mpr hopen
      omega
    have hsub := toNat_sub_one hpos
    split_ifs at hsum with hip
    · simp only [hip, true_or, iff_true]
      omega
    · simp only [hip, hopen, or_false, iff_false]
      omega

/-- The gauges after a recorded failure. -/
theorem consistent_recordFailure_iff (serverName : Option Str) (peerIp : IpAddr) :
    (m.run (recordFailure serverName peerIp)).Consistent ↔ m.Consistent := by
  have hsum : (m.run (recordFailure serverName peerIp)).sumIps PerIpMetrics.active =
      ({ m with perIp := FMap.upsert m.perIp peerIp .failed ⟨0, 0, 1, 0, 0⟩ } :
        MetricsCollector).sumIps PerIpMetrics.active := by
    cases serverName <;> rfl
  have hactive : (m.run (recordFailure serverName peerIp)).active = m.active := by
    cases serverName <;> rfl
  have hkeep : ({ m with perIp := FMap.upsert m.perIp peerIp .failed ⟨0, 0, 1, 0, 0⟩ } :
      MetricsCollector).sumIps PerIpMetrics.active = m.sumIps PerIpMetrics.active + 0 :=
    m.sumIps_upsert rfl fun _ _ => rfl
  unfold Consistent
  rw [hsum, hkeep, hactive, Nat.add_zero]

/-- The gauges after a recorded latency. -/
theorem consistent_recordConnectionLatency_iff (serverName : Option Str) (peerIp : IpAddr)
    (latencyMs : UInt64) :
    (m.run (recordConnectionLatency serverName peerIp latencyMs)).Consistent ↔ m.Consistent := by
  have hread := Counter.read_recordConnectionLatency m serverName peerIp latencyMs
  exact Iff.of_eq (congrArg₂ (· = ·) (hread .active) (hread (.sum .active)))

/-- **A single call keeps the gauges in agreement exactly when it is harmless.** -/
theorem consistent_apply_iff (h : m.Consistent) (op : MetricsOp) :
    (m.apply op).Consistent ↔ op.Harmless m := by
  cases op with
  | record record serverName peerIp =>
    cases record with
    | connection kind =>
      rw [MetricsCollector.apply, sections_connection]
      exact consistent_recordConnection_iff h kind serverName peerIp
    | failure =>
      exact (consistent_recordFailure_iff serverName peerIp).trans (iff_true_intro h)
  | recordConnectionClose serverName peerIp =>
    exact consistent_recordConnectionClose_iff h serverName peerIp
  | recordConnectionLatency serverName peerIp latencyMs =>
    exact (consistent_recordConnectionLatency_iff serverName peerIp latencyMs).trans
      (iff_true_intro h)
  | registerCallback => exact iff_true_intro h
  | snapshot => exact iff_true_intro h
  | triggerCallbacks => exact iff_true_intro h
  | reset => exact iff_true_intro (by simp [MetricsCollector.apply, reset, Consistent, sumIps])

/-- **The gauges agree all along a run iff every call of it is harmless.** -/
theorem forall_consistent_iff {m : MetricsCollector}
    {tr : List (Transition.Taken MetricsCollector MetricsOp)} (h : gaugeSystem.Run .new tr m) :
    (∀ x ∈ tr, x.target.Consistent) ↔ ∀ x ∈ tr, x.label.Harmless x.source := by
  refine h.forall_target_iff (P := MetricsCollector.Consistent)
    (G := fun m op _ => op.Harmless m) (fun m op m' _ hm hstep => ?_) (.init rfl) rfl
  obtain rfl := Option.some.inj hstep
  exact consistent_apply_iff hm op

/-- A double close and a reset with an open connection, none of which moves one gauge alone. -/
def harmlessOps : List MetricsOp :=
  [.record (.connection .tcp) (some "s".toList) (.v4 1),
    .recordConnectionClose (some "s".toList) (.v4 1),
    .recordConnectionClose (some "s".toList) (.v4 1),
    .record (.connection .tls) none (.v4 2), .reset,
    .recordConnectionClose none (.v4 2)]

/-- The gauges agree after each of these calls, of which the first opens a connection. -/
theorem forall_consistent_harmlessOps :
    (Transition.System.follow gaugeStep .new (harmlessOps.take 1)).2.active = 1 ∧
      ∀ x ∈ (Transition.System.follow gaugeStep .new harmlessOps).1, x.target.Consistent := by
  refine ⟨by decide +kernel, (forall_consistent_iff
    (Transition.System.run_follow (M := gaugeSystem) (fun _ _ _ h => h) harmlessOps .new)).mpr ?_⟩
  decide +kernel

/-- **A close of an unknown address hides an open connection**: one address has an open
connection, and the close is for another. -/
theorem not_forall_consistent : ¬∀ m, gaugeSystem.Reach m → m.Consistent := by
  intro h
  have hreach : gaugeSystem.Reach (Transition.System.after gaugeStep .new
      [.record (.connection .tcp) (some "s".toList) (.v4 1),
        .recordConnectionClose (some "s".toList) (.v4 2)]) :=
    Transition.System.reach_after (.init rfl) fun _ _ _ _ hstep => hstep
  exact absurd (h _ hreach) (by decide +kernel)

end Synclaire
