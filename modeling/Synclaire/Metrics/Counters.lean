import Synclaire.Metrics.Basic

set_option relaxedAutoImplicit false
set_option autoImplicit false

/-!
# The counts of a collector

What a `MetricsCollector` counts, read as natural numbers, and how much each section adds to and
takes from each count. Where nothing wraps and nothing is taken from an empty count, a section
does exactly that.

## Main definitions

* `Synclaire.Counter`, `Synclaire.Counter.read` — the counts and their values.
* `Synclaire.MetricsSection.adds`, `Synclaire.MetricsSection.takes` — the change by a section.

## Main results

* `Synclaire.MetricsSection.read_run` — a section adds and takes just that.
-/

namespace Synclaire

/-! ## Counts -/

/-- A count in the entry of a server. -/
inductive ServerField
  | total (kind : ConnectionKind)
  | active
  | failures
  deriving DecidableEq

/-- The count in an entry. -/
def ServerField.get : ServerField → PerServerMetrics → UInt64
  | .total kind => PerServerMetrics.total kind
  | .active => PerServerMetrics.active
  | .failures => PerServerMetrics.failures

/-- A count in the entry of an address. -/
inductive IpField
  | connections
  | active
  | failures
  deriving DecidableEq

/-- The count in an entry. -/
def IpField.get : IpField → PerIpMetrics → UInt64
  | .connections => PerIpMetrics.connections
  | .active => PerIpMetrics.active
  | .failures => PerIpMetrics.failures

/-- A count of the collector; `sum` is over all addresses. -/
inductive Counter
  | total (kind : ConnectionKind)
  | failed
  | active
  | server (name : Str) (field : ServerField)
  | ip (addr : IpAddr) (field : IpField)
  | sum (field : IpField)
  deriving DecidableEq

/-- The value of a count. -/
def Counter.read (m : MetricsCollector) : Counter → ℕ
  | .total kind => (m.total kind).toNat
  | .failed => m.failed.toNat
  | .active => m.active.toNat
  | .server name field => m.ofServer name field.get
  | .ip addr field => m.ofIp addr field.get
  | .sum field => m.sumIps field.get

/-- How much a section adds to a count. -/
def MetricsSection.adds : MetricsSection → Counter → ℕ
  | .addTotal kind, .total k => if k = kind then 1 else 0
  | .addActive, .active => 1
  | .serverConnected kind name, .server a field =>
    if a = name ∧ (field = .total kind ∨ field = .active) then 1 else 0
  | .ipConnected ip, .ip a field => if a = ip ∧ field ≠ .failures then 1 else 0
  | .ipConnected _, .sum field => if field ≠ .failures then 1 else 0
  | .addFailed, .failed => 1
  | .serverFailed name, .server a field => if a = name ∧ field = .failures then 1 else 0
  | .ipFailed ip, .ip a field => if a = ip ∧ field = .failures then 1 else 0
  | .ipFailed _, .sum field => if field = .failures then 1 else 0
  | _, _ => 0

/-- How much a section takes from a count. -/
def MetricsSection.takes : MetricsSection → Counter → ℕ
  | .subActive, .active => 1
  | .serverClosed name, .server a field => if a = name ∧ field = .active then 1 else 0
  | .ipClosed ip, .ip a field => if a = ip ∧ field = .active then 1 else 0
  | .ipClosed _, .sum field => if field = .active then 1 else 0
  | _, _ => 0

/-! ## Machine integers -/

/-- Adding one to a word that is not the last. -/
theorem toNat_add_one {x : UInt64} (h : x.toNat + 1 < 2 ^ 64) : (x + 1).toNat = x.toNat + 1 := by
  rw [UInt64.toNat_add]
  exact Nat.mod_eq_of_lt h

/-- Taking one from a word that is not zero. -/
theorem toNat_sub_one {x : UInt64} (h : 1 ≤ x.toNat) : (x - 1).toNat + 1 = x.toNat := by
  have hle : (1 : UInt64) ≤ x := h
  rw [UInt64.toNat_sub_of_le x 1 hle]
  exact Nat.sub_add_cancel h

/-! ## Entries -/

namespace MetricsCollector

variable (m : MetricsCollector)

/-- The entry of a server after an `upsert`. -/
theorem ofServer_upsert {name : Str} {g : PerServerMetrics → PerServerMetrics}
    {v : PerServerMetrics} {f : PerServerMetrics → UInt64} {d : ℕ} (hv : (f v).toNat = d)
    (hg : ∀ e, m.perServer.lookup name = some e → (f (g e)).toNat = (f e).toNat + d) (a : Str) :
    ({ m with perServer := FMap.upsert m.perServer name g v } : MetricsCollector).ofServer a f =
      m.ofServer a f + if a = name then d else 0 := by
  unfold ofServer
  rw [FMap.lookup_upsert]
  split_ifs with ha
  · subst ha
    cases he : m.perServer.lookup a with
    | none => simp [hv]
    | some e => simp [hg e he]
  · rfl

/-- The entry of an address after an `upsert`. -/
theorem ofIp_upsert {ip : IpAddr} {g : PerIpMetrics → PerIpMetrics} {v : PerIpMetrics}
    {f : PerIpMetrics → UInt64} {d : ℕ} (hv : (f v).toNat = d)
    (hg : ∀ e, m.perIp.lookup ip = some e → (f (g e)).toNat = (f e).toNat + d) (a : IpAddr) :
    ({ m with perIp := FMap.upsert m.perIp ip g v } : MetricsCollector).ofIp a f =
      m.ofIp a f + if a = ip then d else 0 := by
  unfold ofIp
  rw [FMap.lookup_upsert]
  split_ifs with ha
  · subst ha
    cases he : m.perIp.lookup a with
    | none => simp [hv]
    | some e => simp [hg e he]
  · rfl

/-- The sum over the addresses after an `upsert`. -/
theorem sumIps_upsert {ip : IpAddr} {g : PerIpMetrics → PerIpMetrics} {v : PerIpMetrics}
    {f : PerIpMetrics → UInt64} {d : ℕ} (hv : (f v).toNat = d)
    (hg : ∀ e, m.perIp.lookup ip = some e → (f (g e)).toNat = (f e).toNat + d) :
    ({ m with perIp := FMap.upsert m.perIp ip g v } : MetricsCollector).sumIps f =
      m.sumIps f + d :=
  FMap.total_upsert_add hv hg

/-- The entry of a server after an `adjust`. -/
theorem ofServer_adjust {name : Str} {g : PerServerMetrics → PerServerMetrics}
    {f : PerServerMetrics → UInt64} {d : ℕ} (hnone : m.perServer.lookup name = none → d = 0)
    (hg : ∀ e, m.perServer.lookup name = some e → (f (g e)).toNat + d = (f e).toNat) (a : Str) :
    ({ m with perServer := FMap.adjust m.perServer name g } : MetricsCollector).ofServer a f +
      (if a = name then d else 0) = m.ofServer a f := by
  unfold ofServer
  rw [FMap.lookup_adjust]
  split_ifs with ha
  · subst ha
    cases he : m.perServer.lookup a with
    | none => simp [hnone he]
    | some e => simp [hg e he]
  · rfl

/-- The entry of an address after an `adjust`. -/
theorem ofIp_adjust {ip : IpAddr} {g : PerIpMetrics → PerIpMetrics} {f : PerIpMetrics → UInt64}
    {d : ℕ} (hnone : m.perIp.lookup ip = none → d = 0)
    (hg : ∀ e, m.perIp.lookup ip = some e → (f (g e)).toNat + d = (f e).toNat) (a : IpAddr) :
    ({ m with perIp := FMap.adjust m.perIp ip g } : MetricsCollector).ofIp a f +
      (if a = ip then d else 0) = m.ofIp a f := by
  unfold ofIp
  rw [FMap.lookup_adjust]
  split_ifs with ha
  · subst ha
    cases he : m.perIp.lookup a with
    | none => simp [hnone he]
    | some e => simp [hg e he]
  · rfl

/-- The sum over the addresses after an `adjust`. -/
theorem sumIps_adjust {ip : IpAddr} {g : PerIpMetrics → PerIpMetrics} {f : PerIpMetrics → UInt64}
    {d : ℕ} (hnone : m.perIp.lookup ip = none → d = 0)
    (hg : ∀ e, m.perIp.lookup ip = some e → (f (g e)).toNat + d = (f e).toNat) :
    ({ m with perIp := FMap.adjust m.perIp ip g } : MetricsCollector).sumIps f + d =
      m.sumIps f :=
  FMap.total_adjust_sub hnone hg

end MetricsCollector

/-! ## Fields of an entry -/

/-- A connection in the entry of its server. -/
theorem ServerField.get_connected {field : ServerField} {kind : ConnectionKind}
    {e : PerServerMetrics}
    (hfit : (field.get e).toNat + (if field = .total kind ∨ field = .active then 1 else 0) <
      2 ^ 64) :
    (field.get (e.connected kind)).toNat =
      (field.get e).toNat + if field = .total kind ∨ field = .active then 1 else 0 := by
  cases field with
  | total k =>
    by_cases hk : k = kind
    · subst hk
      simp only [true_or, if_true] at hfit ⊢
      cases k <;> exact toNat_add_one hfit
    · cases kind <;> cases k <;> first | rfl | exact absurd rfl hk
  | active =>
    simp only [or_true, if_true] at hfit ⊢
    cases kind <;> exact toNat_add_one hfit
  | failures => cases kind <;> rfl

/-- A failure in the entry of its server. -/
theorem ServerField.get_failed {field : ServerField} {e : PerServerMetrics}
    (hfit : (field.get e).toNat + (if field = .failures then 1 else 0) < 2 ^ 64) :
    (field.get e.failed).toNat = (field.get e).toNat + if field = .failures then 1 else 0 := by
  cases field with
  | total k => cases k <;> rfl
  | active => rfl
  | failures => exact toNat_add_one hfit

/-- A close in the entry of its server. -/
theorem ServerField.get_closed {field : ServerField} {e : PerServerMetrics}
    (htake : (if field = .active then 1 else 0) ≤ (field.get e).toNat) :
    (field.get e.closed).toNat + (if field = .active then 1 else 0) = (field.get e).toNat := by
  unfold PerServerMetrics.closed
  cases field with
  | total k =>
    simp only [reduceCtorEq, if_false, Nat.add_zero]
    split_ifs <;> cases k <;> rfl
  | active =>
    have hpos : 0 < e.active := htake
    rw [if_pos hpos]
    exact toNat_sub_one htake
  | failures =>
    simp only [reduceCtorEq, if_false, Nat.add_zero]
    split_ifs <;> rfl

/-- A connection in the entry of its address. -/
theorem IpField.get_connected {field : IpField} {e : PerIpMetrics}
    (hfit : (field.get e).toNat + (if field ≠ .failures then 1 else 0) < 2 ^ 64) :
    (field.get e.connected).toNat = (field.get e).toNat + if field ≠ .failures then 1 else 0 := by
  cases field with
  | connections => exact toNat_add_one hfit
  | active => exact toNat_add_one hfit
  | failures => rfl

/-- A failure in the entry of its address. -/
theorem IpField.get_failed {field : IpField} {e : PerIpMetrics}
    (hfit : (field.get e).toNat + (if field = .failures then 1 else 0) < 2 ^ 64) :
    (field.get e.failed).toNat = (field.get e).toNat + if field = .failures then 1 else 0 := by
  cases field with
  | connections => rfl
  | active => rfl
  | failures => exact toNat_add_one hfit

/-- A close in the entry of its address. -/
theorem IpField.get_closed {field : IpField} {e : PerIpMetrics}
    (htake : (if field = .active then 1 else 0) ≤ (field.get e).toNat) :
    (field.get e.closed).toNat + (if field = .active then 1 else 0) = (field.get e).toNat := by
  unfold PerIpMetrics.closed
  cases field with
  | connections =>
    simp only [reduceCtorEq, if_false, Nat.add_zero]
    split_ifs <;> rfl
  | active =>
    have hpos : 0 < e.active := htake
    rw [if_pos hpos]
    exact toNat_sub_one htake
  | failures =>
    simp only [reduceCtorEq, if_false, Nat.add_zero]
    split_ifs <;> rfl

/-! ## Sections and counts -/

/-- A section neither wraps a count nor takes from an empty one. -/
structure MetricsSection.Fits (sect : MetricsSection) (m : MetricsCollector) : Prop where
  /-- No count wraps. -/
  adds : ∀ c : Counter, c.read m + sect.adds c < 2 ^ 64
  /-- Nothing is taken from an empty count. -/
  takes : ∀ c : Counter, sect.takes c ≤ c.read m

namespace MetricsSection.Fits

variable {m : MetricsCollector}

/-- A count in an entry that exists, with what the section adds to it. -/
theorem server_lt {sect : MetricsSection} (h : sect.Fits m) {name : Str} {e : PerServerMetrics}
    (he : m.perServer.lookup name = some e) (field : ServerField) :
    (field.get e).toNat + sect.adds (.server name field) < 2 ^ 64 := by
  simpa [Counter.read, MetricsCollector.ofServer, he] using h.adds (.server name field)

/-- A count in an entry that exists, with what the section adds to it. -/
theorem ip_lt {sect : MetricsSection} (h : sect.Fits m) {ip : IpAddr} {e : PerIpMetrics}
    (he : m.perIp.lookup ip = some e) (field : IpField) :
    (field.get e).toNat + sect.adds (.ip ip field) < 2 ^ 64 := by
  simpa [Counter.read, MetricsCollector.ofIp, he] using h.adds (.ip ip field)

end MetricsSection.Fits

namespace MetricsSection

variable {m : MetricsCollector}

attribute [local simp] Counter.read run takes adds

/-- The counts after an atomic total. -/
theorem read_run_addTotal {kind : ConnectionKind} (h : (addTotal kind).Fits m) (c : Counter) :
    c.read ((addTotal kind).run m) + (addTotal kind).takes c =
      c.read m + (addTotal kind).adds c := by
  cases c with
  | total k =>
    by_cases hk : k = kind
    · subst hk
      have hfit := h.adds (.total k)
      simp only [Counter.read, adds, if_true] at hfit
      simp only [Counter.read, takes, adds, if_true]
      cases k <;> exact toNat_add_one hfit
    · simp only [Counter.read, takes, adds, hk, if_false]
      cases k <;> cases kind <;> first | rfl | exact absurd rfl hk
  | _ => cases kind <;> rfl

/-- The counts after a connection was added to the entry of its server. -/
theorem read_run_serverConnected {kind : ConnectionKind} {name : Str}
    (h : (serverConnected kind name).Fits m) (c : Counter) :
    c.read ((serverConnected kind name).run m) + (serverConnected kind name).takes c =
      c.read m + (serverConnected kind name).adds c := by
  cases c with
  | server a field =>
    simp only [Counter.read, run, takes, adds, ite_and, Nat.add_zero]
    refine m.ofServer_upsert ?_ (fun e he => ServerField.get_connected ?_) a
    · cases field with
      | total k => cases k <;> cases kind <;> rfl
      | active => cases kind <;> rfl
      | failures => cases kind <;> rfl
    · simpa using h.server_lt he field
  | total k => cases k <;> rfl
  | _ => rfl

/-- The counts after a connection was added to the entry of its address. -/
theorem read_run_ipConnected {ip : IpAddr} (h : (ipConnected ip).Fits m) (c : Counter) :
    c.read ((ipConnected ip).run m) + (ipConnected ip).takes c =
      c.read m + (ipConnected ip).adds c := by
  cases c with
  | ip a field =>
    simp only [Counter.read, run, takes, adds, ite_and, Nat.add_zero]
    refine m.ofIp_upsert ?_ (fun e he => IpField.get_connected ?_) a
    · cases field <;> rfl
    · simpa using h.ip_lt he field
  | sum field =>
    simp only [Counter.read, run, takes, adds, Nat.add_zero]
    refine m.sumIps_upsert ?_ (fun e he => IpField.get_connected ?_)
    · cases field <;> rfl
    · simpa using h.ip_lt he field
  | total k => cases k <;> rfl
  | _ => rfl

/-- The counts after a failure was added to the entry of its server. -/
theorem read_run_serverFailed {name : Str} (h : (serverFailed name).Fits m) (c : Counter) :
    c.read ((serverFailed name).run m) + (serverFailed name).takes c =
      c.read m + (serverFailed name).adds c := by
  cases c with
  | server a field =>
    simp only [Counter.read, run, takes, adds, ite_and, Nat.add_zero]
    refine m.ofServer_upsert ?_ (fun e he => ServerField.get_failed ?_) a
    · cases field with
      | total k => cases k <;> rfl
      | active => rfl
      | failures => rfl
    · simpa using h.server_lt he field
  | total k => cases k <;> rfl
  | _ => rfl

/-- The counts after a failure was added to the entry of its address. -/
theorem read_run_ipFailed {ip : IpAddr} (h : (ipFailed ip).Fits m) (c : Counter) :
    c.read ((ipFailed ip).run m) + (ipFailed ip).takes c = c.read m + (ipFailed ip).adds c := by
  cases c with
  | ip a field =>
    simp only [Counter.read, run, takes, adds, ite_and, Nat.add_zero]
    refine m.ofIp_upsert ?_ (fun e he => IpField.get_failed ?_) a
    · cases field <;> rfl
    · simpa using h.ip_lt he field
  | sum field =>
    simp only [Counter.read, run, takes, adds, Nat.add_zero]
    refine m.sumIps_upsert ?_ (fun e he => IpField.get_failed ?_)
    · cases field <;> rfl
    · simpa using h.ip_lt he field
  | total k => cases k <;> rfl
  | _ => rfl

/-- The counts after a close took one from the open connections. -/
theorem read_run_subActive (h : subActive.Fits m) (c : Counter) :
    c.read (subActive.run m) + subActive.takes c = c.read m + subActive.adds c := by
  cases c with
  | active =>
    have htake : 1 ≤ m.active.toNat := h.takes .active
    have hne : m.active ≠ 0 := by
      intro hzero
      simp [hzero] at htake
    simp only [Counter.read, run, takes, adds, hne, if_false, Nat.add_zero]
    exact toNat_sub_one htake
  | total k => cases k <;> rfl
  | _ => rfl

/-- The counts after a close in the entry of its server. -/
theorem read_run_serverClosed {name : Str} (h : (serverClosed name).Fits m) (c : Counter) :
    c.read ((serverClosed name).run m) + (serverClosed name).takes c =
      c.read m + (serverClosed name).adds c := by
  cases c with
  | server a field =>
    have htake := h.takes (.server name field)
    simp only [Counter.read, MetricsCollector.ofServer, takes, true_and] at htake
    simp only [Counter.read, run, takes, adds, ite_and, Nat.add_zero]
    refine m.ofServer_adjust (fun he => ?_) (fun e he => ServerField.get_closed ?_) a
    · rw [he] at htake
      exact Nat.le_zero.mp htake
    · rwa [he] at htake
  | total k => cases k <;> rfl
  | _ => rfl

/-- The counts after a close in the entry of its address. -/
theorem read_run_ipClosed {ip : IpAddr} (h : (ipClosed ip).Fits m) (c : Counter) :
    c.read ((ipClosed ip).run m) + (ipClosed ip).takes c = c.read m + (ipClosed ip).adds c := by
  have htake : ∀ field, (if field = IpField.active then 1 else 0) ≤
      ((m.perIp.lookup ip).map fun e => (field.get e).toNat).getD 0 := by
    intro field
    simpa [MetricsCollector.ofIp] using h.takes (.ip ip field)
  have hnone : ∀ field, m.perIp.lookup ip = none →
      (if field = IpField.active then 1 else 0) = 0 := by
    intro field he
    have := htake field
    rw [he] at this
    exact Nat.le_zero.mp this
  have hsome : ∀ field e, m.perIp.lookup ip = some e →
      (if field = IpField.active then 1 else 0) ≤ (field.get e).toNat := by
    intro field e he
    have := htake field
    rwa [he] at this
  cases c with
  | ip a field =>
    simp only [Counter.read, run, takes, adds, ite_and, Nat.add_zero]
    exact m.ofIp_adjust (hnone field) (fun e he => IpField.get_closed (hsome field e he)) a
  | sum field =>
    simp only [Counter.read, run, takes, adds, Nat.add_zero]
    exact m.sumIps_adjust (hnone field) fun e he => IpField.get_closed (hsome field e he)
  | total k => cases k <;> rfl
  | _ => rfl

/-- A latency in the entry of a server is none of the counts. -/
theorem read_run_serverLatency (name : Str) (latencyMs : UInt64) (c : Counter) :
    c.read ((serverLatency name latencyMs).run m) = c.read m := by
  cases c with
  | server a field =>
    have hget : ∀ e : PerServerMetrics,
        (field.get (e.delayed latencyMs)).toNat + 0 = (field.get e).toNat := by
      intro e
      cases field with
      | total k => cases k <;> rfl
      | active => rfl
      | failures => rfl
    have h : ((serverLatency name latencyMs).run m).ofServer a field.get +
        (if a = name then 0 else 0) = m.ofServer a field.get :=
      m.ofServer_adjust (fun _ => rfl) (fun e _ => hget e) a
    rwa [ite_self, Nat.add_zero] at h
  | total k => cases k <;> rfl
  | _ => rfl

/-- A latency in the entry of an address is none of the counts. -/
theorem read_run_ipLatency (ip : IpAddr) (latencyMs : UInt64) (c : Counter) :
    c.read ((ipLatency ip latencyMs).run m) = c.read m := by
  have hget : ∀ (field : IpField) (e : PerIpMetrics),
      (field.get (e.delayed latencyMs)).toNat + 0 = (field.get e).toNat := by
    intro field e
    cases field <;> rfl
  cases c with
  | ip a field =>
    have h : ((ipLatency ip latencyMs).run m).ofIp a field.get + (if a = ip then 0 else 0) =
        m.ofIp a field.get :=
      m.ofIp_adjust (fun _ => rfl) (fun e _ => hget field e) a
    rwa [ite_self, Nat.add_zero] at h
  | sum field => exact m.sumIps_adjust (fun _ => rfl) fun e _ => hget field e
  | total k => cases k <;> rfl
  | _ => rfl

/-- The atomics of a latency are none of the counts. -/
theorem read_run_atomics (latencyMs : UInt64) (c : Counter) :
    c.read ((addLatency latencyMs).run m) = c.read m ∧
      c.read (countLatency.run m) = c.read m ∧
      c.read ((lowerMinLatency latencyMs).run m) = c.read m ∧
      c.read ((raiseMaxLatency latencyMs).run m) = c.read m := by
  simp only [run]
  split_ifs <;> cases c with
    | total k => cases k <;> exact ⟨rfl, rfl, rfl, rfl⟩
    | _ => exact ⟨rfl, rfl, rfl, rfl⟩

/-- **A section adds to each count what `adds` says and takes from it what `takes` says**, where
it fits.

**Proof sketch.** One case for each section. The atomics change by one; a map changes in one
entry, whose fields the lemmas above describe. -/
theorem read_run {sect : MetricsSection} (h : sect.Fits m) (c : Counter) :
    c.read (sect.run m) + sect.takes c = c.read m + sect.adds c := by
  cases sect with
  | addTotal kind => exact read_run_addTotal h c
  | addActive =>
    cases c with
    | active => exact toNat_add_one (h.adds .active)
    | total k => cases k <;> rfl
    | _ => rfl
  | serverConnected kind name => exact read_run_serverConnected h c
  | ipConnected ip => exact read_run_ipConnected h c
  | addFailed =>
    cases c with
    | failed => exact toNat_add_one (h.adds .failed)
    | total k => cases k <;> rfl
    | _ => rfl
  | serverFailed name => exact read_run_serverFailed h c
  | ipFailed ip => exact read_run_ipFailed h c
  | subActive => exact read_run_subActive h c
  | serverClosed name => exact read_run_serverClosed h c
  | ipClosed ip => exact read_run_ipClosed h c
  | addLatency latencyMs => exact (read_run_atomics latencyMs c).1
  | countLatency => exact (read_run_atomics 0 c).2.1
  | lowerMinLatency latencyMs => exact (read_run_atomics latencyMs c).2.2.1
  | raiseMaxLatency latencyMs => exact (read_run_atomics latencyMs c).2.2.2
  | serverLatency name latencyMs => exact read_run_serverLatency name latencyMs c
  | ipLatency ip latencyMs => exact read_run_ipLatency ip latencyMs c

end MetricsSection

/-- A latency changes none of the counts. -/
theorem Counter.read_recordConnectionLatency (m : MetricsCollector) (serverName : Option Str)
    (peerIp : IpAddr) (latencyMs : UInt64) (c : Counter) :
    c.read (m.run (MetricsCollector.recordConnectionLatency serverName peerIp latencyMs)) =
      c.read m := by
  have hatomics := fun m : MetricsCollector => MetricsSection.read_run_atomics latencyMs c (m := m)
  cases serverName with
  | none =>
    simp only [MetricsCollector.run, MetricsCollector.recordConnectionLatency,
      MetricsCollector.serverSection, Option.map_none, Option.toList_none, List.append_nil,
      List.cons_append, List.nil_append, List.foldl_cons, List.foldl_nil,
      MetricsSection.read_run_ipLatency, hatomics]
  | some name =>
    simp only [MetricsCollector.run, MetricsCollector.recordConnectionLatency,
      MetricsCollector.serverSection, Option.map_some, Option.toList_some, List.cons_append,
      List.nil_append, List.foldl_cons, List.foldl_nil, MetricsSection.read_run_ipLatency,
      MetricsSection.read_run_serverLatency, hatomics]

end Synclaire
