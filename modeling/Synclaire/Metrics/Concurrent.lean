import Synclaire.Lib.Table
import Synclaire.Lib.Transition
import Synclaire.Metrics.Counters

set_option relaxedAutoImplicit false
set_option autoImplicit false

/-!
# Metrics under concurrent calls

Any number of threads record connections, failures and closes, and their sections interleave. A
connection is closed once at most, and only after its record is complete. While calls are in
progress the three views of a collector disagree; whenever none is, they agree and have lost
nothing.

## Main definitions

* `Synclaire.MetricsActivity` — a connection or failure, and how far its calls have come.
* `Synclaire.MetricsRun`, `Synclaire.metricsSystem` — a collector and its callers.

## Main results

* `Synclaire.MetricsRun.ledger_of_reach` — every count is what the sections run so far add up to.
* `Synclaire.MetricsRun.Ledger.fits_advance` — no section wraps a count or takes from an empty one.
* `Synclaire.MetricsRun.counts_of_quiescent` — the three views when no call is in progress.
-/

namespace Synclaire

open MetricsCollector

/-! ## The callers -/

/-- A connection or failure: its names, whether its close was called, and the sections of its
calls that have run and that are still to run. -/
structure MetricsActivity where
  record : MetricsRecord
  serverName : Option Str
  peerIp : IpAddr
  closing : Bool
  done : List MetricsSection
  pending : List MetricsSection
  deriving DecidableEq

namespace MetricsActivity

/-- The record of something new is called. -/
def start (record : MetricsRecord) (serverName : Option Str) (peerIp : IpAddr) :
    MetricsActivity where
  record := record
  serverName := serverName
  peerIp := peerIp
  closing := false
  done := []
  pending := record.sections serverName peerIp

/-- A connection, not a failure. -/
def isConnection (a : MetricsActivity) : Bool := a.record ≠ .failure

/-- A connection that is not closed. -/
def isOpen (a : MetricsActivity) : Bool := a.isConnection && !a.closing

/-- A connection may be closed once its record is complete, and only once. -/
def CanClose (a : MetricsActivity) : Prop :=
  a.isConnection = true ∧ a.closing = false ∧ a.pending = []

instance (a : MetricsActivity) : Decidable a.CanClose := inferInstanceAs (Decidable (_ ∧ _))

/-- The close of a connection is called, with the names of its record. -/
def close (a : MetricsActivity) : MetricsActivity :=
  { a with closing := true, pending := recordConnectionClose a.serverName a.peerIp }

/-- How much the sections run so far have added to a count. -/
def added (c : Counter) (a : MetricsActivity) : ℕ := Table.tally (·.adds c) a.done

/-- How much they have taken from it. -/
def taken (c : Counter) (a : MetricsActivity) : ℕ := Table.tally (·.takes c) a.done

/-- What is left of it. -/
def net (c : Counter) (a : MetricsActivity) : ℕ := a.added c - a.taken c

end MetricsActivity

/-- A collector, and the connections and failures that its callers record. -/
structure MetricsRun where
  collector : MetricsCollector
  activities : List MetricsActivity
  deriving DecidableEq

/-- What callers do. -/
inductive MetricsAction
  | record (record : MetricsRecord) (serverName : Option Str) (peerIp : IpAddr)
  | close (i : ℕ)
  /-- The call in progress for `i` runs its next section. -/
  | advance (i : ℕ)
  deriving DecidableEq

namespace MetricsRun

/-- Nothing was recorded. -/
def start : MetricsRun := ⟨.new, []⟩

/-- The state after an action, if the action is possible. -/
def next (s : MetricsRun) : MetricsAction → Option MetricsRun
  | .record record serverName peerIp =>
    some { s with activities := s.activities ++ [.start record serverName peerIp] }
  | .close i =>
    match s.activities[i]? with
    | some a =>
      if a.CanClose then some { s with activities := s.activities.set i a.close } else none
    | none => none
  | .advance i =>
    match s.activities[i]? with
    | some a =>
      match a.pending with
      | sect :: rest =>
        some ⟨sect.run s.collector,
          s.activities.set i { a with done := a.done ++ [sect], pending := rest }⟩
      | [] => none
    | none => none

/-- The number of connections recorded. -/
def connections (s : MetricsRun) : ℕ := s.activities.countP MetricsActivity.isConnection

/-- The number of failures recorded. -/
def failures (s : MetricsRun) : ℕ := s.activities.countP fun a => !a.isConnection

/-- No call is in progress. -/
def Quiescent (s : MetricsRun) : Prop := ∀ a ∈ s.activities, a.pending = []

instance (s : MetricsRun) : Decidable s.Quiescent := inferInstanceAs (Decidable (∀ a ∈ _, _))

end MetricsRun

/-- The runs of a collector under concurrent calls. -/
def metricsSystem : Transition.System MetricsRun MetricsAction :=
  .ofFn .start MetricsRun.next

/-! ## One connection or failure -/

/-- A count of failures, not of connections. -/
def Counter.ofFailures : Counter → Bool
  | .total _ => false
  | .failed => true
  | .active => false
  | .server _ field => field = .failures
  | .ip _ field => field = .failures
  | .sum field => field = .failures

/-- The calls with a server name and an address have to do with the count. -/
def Counter.Concerns (serverName : Option Str) (peerIp : IpAddr) : Counter → Prop
  | .server name _ => some name = serverName
  | .ip addr _ => addr = peerIp
  | _ => True

instance (serverName : Option Str) (peerIp : IpAddr) :
    (c : Counter) → Decidable (c.Concerns serverName peerIp)
  | .server name _ => inferInstanceAs (Decidable (some name = serverName))
  | .ip addr _ => inferInstanceAs (Decidable (addr = peerIp))
  | .total _ => .isTrue trivial
  | .failed => .isTrue trivial
  | .active => .isTrue trivial
  | .sum _ => .isTrue trivial

/-- A count of the records of this sort. -/
def Counter.counts (record : MetricsRecord) : Counter → Bool
  | .total kind => .connection kind = record
  | .server _ (.total kind) => .connection kind = record
  | c => decide (record = .failure) = c.ofFailures

/-- A count from which a close takes. -/
def Counter.isGauge : Counter → Bool
  | .active => true
  | .server _ field => field = .active
  | .ip _ field => field = .active
  | .sum field => field = .active
  | _ => false

/-- A gauge counts connections. -/
theorem Counter.counts_of_isGauge {c : Counter} {record : MetricsRecord} (hc : c.isGauge = true)
    (hrecord : record ≠ .failure) : c.counts record = true := by
  rcases c with k | _ | _ | ⟨name, field⟩ | ⟨addr, field⟩ | field
  · cases hc
  · cases hc
  · simp [counts, ofFailures, hrecord]
  all_goals
    obtain rfl := of_decide_eq_true hc
    simp [counts, ofFailures, hrecord]

/-- A count of the records of a sort is a count of failures, or of connections. -/
theorem Counter.ofFailures_of_counts {c : Counter} {record : MetricsRecord}
    (hc : c.counts record = true) : c.ofFailures = decide (record = .failure) := by
  rcases c with k | _ | _ | ⟨name, k | _ | _⟩ | ⟨addr, field⟩ | field
  case total | server.total =>
    obtain rfl := of_decide_eq_true hc
    rfl
  all_goals exact (of_decide_eq_true hc).symm

/-- A record takes from no count. -/
theorem takes_sections (record : MetricsRecord) (serverName : Option Str) (peerIp : IpAddr)
    (c : Counter) :
    Table.tally (·.takes c) (record.sections serverName peerIp) = 0 := by
  cases record with
  | failure => cases serverName <;> cases c <;> rfl
  | connection kind =>
    rw [sections_connection]
    cases serverName <;> cases c <;> rfl

/-- A close adds to no count. -/
theorem adds_recordConnectionClose (serverName : Option Str) (peerIp : IpAddr) (c : Counter) :
    Table.tally (·.adds c) (recordConnectionClose serverName peerIp) = 0 := by
  cases serverName <;> cases c <;> rfl

/-- The section under the lock of the map by server. -/
theorem tally_serverSection (f : MetricsSection → ℕ) (serverName : Option Str)
    (sect : Str → MetricsSection) :
    Table.tally f (serverSection serverName sect) =
      (serverName.map fun n => f (sect n)).getD 0 := by
  cases serverName with
  | none => rfl
  | some n => exact Nat.add_zero _

/-- **What a record adds**: one to each count of its sort. -/
theorem adds_sections (record : MetricsRecord) (serverName : Option Str) (peerIp : IpAddr)
    (c : Counter) :
    Table.tally (·.adds c) (record.sections serverName peerIp) =
      if c.Concerns serverName peerIp ∧ c.counts record then 1 else 0 := by
  cases record with
  | failure =>
    simp only [MetricsRecord.sections, recordFailure, Table.tally_append, Table.tally_cons,
      Table.tally_nil, tally_serverSection]
    rcases c with k | _ | _ | ⟨name, k | _ | _⟩ | ⟨addr, field⟩ | field <;> cases serverName <;>
      simp [MetricsSection.adds, Counter.Concerns, Counter.counts, Counter.ofFailures]
  | connection kind =>
    simp only [sections_connection, recordConnection, Table.tally_append, Table.tally_cons,
      Table.tally_nil, tally_serverSection]
    rcases c with k | _ | _ | ⟨name, k | _ | _⟩ | ⟨addr, field⟩ | field <;> cases serverName <;>
      simp [MetricsSection.adds, Counter.Concerns, Counter.counts, Counter.ofFailures]

/-- **What a close takes**: one from each gauge. -/
theorem takes_recordConnectionClose (serverName : Option Str) (peerIp : IpAddr) (c : Counter) :
    Table.tally (·.takes c) (recordConnectionClose serverName peerIp) =
      if c.Concerns serverName peerIp ∧ c.isGauge then 1 else 0 := by
  simp only [recordConnectionClose, Table.tally_append, Table.tally_cons, Table.tally_nil,
    tally_serverSection]
  cases c <;> cases serverName <;>
    simp [MetricsSection.takes, Counter.Concerns, Counter.isGauge]

namespace MetricsActivity

/-- A row that a count may count: a failure or a connection. -/
def ofSort (c : Counter) (a : MetricsActivity) : Bool := c.ofFailures = !a.isConnection

/-- The sections run so far are the first ones of the record, or all of them and the first ones
of the close. -/
structure Coherent (a : MetricsActivity) : Prop where
  /-- The sections run and the ones to run are those of the calls. -/
  sections : a.done ++ a.pending = a.record.sections a.serverName a.peerIp ++
    if a.closing then recordConnectionClose a.serverName a.peerIp else []
  /-- A close begins when the record is complete. -/
  recorded : a.closing = true → a.record.sections a.serverName a.peerIp <+: a.done
  /-- Only connections are closed. -/
  connection : a.closing = true → a.isConnection = true

variable {a : MetricsActivity}

/-- What the record of a row adds to a count, all in all. -/
theorem Coherent.added_add_pending (h : a.Coherent) (c : Counter) :
    a.added c + Table.tally (·.adds c) a.pending =
      if c.Concerns a.serverName a.peerIp ∧ c.counts a.record then 1 else 0 := by
  have hall := congrArg (Table.tally (·.adds c)) h.sections
  have hclose : Table.tally (·.adds c)
      (if a.closing then recordConnectionClose a.serverName a.peerIp else []) = 0 := by
    split_ifs
    · exact adds_recordConnectionClose a.serverName a.peerIp c
    · rfl
  rwa [Table.tally_append, Table.tally_append, hclose, adds_sections] at hall

/-- What the close of a row takes from a count, all in all. -/
theorem Coherent.taken_add_pending (h : a.Coherent) (c : Counter) :
    a.taken c + Table.tally (·.takes c) a.pending =
      if a.closing = true ∧ c.Concerns a.serverName a.peerIp ∧ c.isGauge then 1 else 0 := by
  have hall := congrArg (Table.tally (·.takes c)) h.sections
  rw [Table.tally_append, Table.tally_append, takes_sections, Nat.zero_add] at hall
  refine hall.trans ?_
  cases a.closing with
  | false => simp
  | true => simp [takes_recordConnectionClose]

/-- The record of a row whose close was called has added all that it adds. -/
theorem Coherent.added_of_closing (h : a.Coherent) (hclosing : a.closing = true) (c : Counter) :
    a.added c = if c.Concerns a.serverName a.peerIp ∧ c.counts a.record then 1 else 0 := by
  obtain ⟨part, hpart⟩ := h.recorded hclosing
  have hall := h.added_add_pending c
  have hdone : a.added c = Table.tally (·.adds c) (a.record.sections a.serverName a.peerIp) +
      Table.tally (·.adds c) part := by
    rw [added, ← hpart, Table.tally_append]
  rw [adds_sections] at hdone
  omega

/-- What a section takes was added before, and not taken yet.

**Proof sketch.** A record takes nothing. A close takes one from a gauge at most, to which the
record, complete by then, added one. -/
theorem Coherent.taken_add_takes_le (h : a.Coherent) {sect : MetricsSection}
    {rest : List MetricsSection} (hpending : a.pending = sect :: rest) (c : Counter) :
    a.taken c + sect.takes c ≤ a.added c := by
  have htaken := h.taken_add_pending c
  rw [hpending, Table.tally_cons] at htaken
  by_cases hgauge : a.closing = true ∧ c.Concerns a.serverName a.peerIp ∧ c.isGauge = true
  · obtain ⟨hclosing, hconcerns, hc⟩ := hgauge
    have hrecord : a.record ≠ .failure := of_decide_eq_true (h.connection hclosing)
    rw [if_pos ⟨hclosing, hconcerns, hc⟩] at htaken
    rw [h.added_of_closing hclosing, if_pos ⟨hconcerns, Counter.counts_of_isGauge hc hrecord⟩]
    omega
  · rw [if_neg hgauge] at htaken
    omega

/-- What was added and what is still to add comes to one at most. -/
theorem Coherent.added_add_pending_le (h : a.Coherent) (c : Counter) :
    a.added c + Table.tally (·.adds c) a.pending ≤ (a.ofSort c).toNat := by
  rw [h.added_add_pending c]
  split_ifs with hcounts
  · have hsort : a.ofSort c = true := by
      simpa [ofSort, isConnection] using Counter.ofFailures_of_counts hcounts.2
    rw [hsort]
    rfl
  · exact Nat.zero_le _

/-- A new record is coherent. -/
theorem coherent_start (record : MetricsRecord) (serverName : Option Str) (peerIp : IpAddr) :
    (start record serverName peerIp).Coherent where
  sections := (List.append_nil _).symm
  recorded hclosing := absurd hclosing Bool.false_ne_true
  connection hclosing := absurd hclosing Bool.false_ne_true

/-- A close keeps coherence. -/
theorem Coherent.close (h : a.Coherent) (hclose : a.CanClose) : a.close.Coherent := by
  obtain ⟨hconn, hclosing, hpending⟩ := hclose
  have hdone : a.done = a.record.sections a.serverName a.peerIp := by
    have := h.sections
    simpa [hclosing, hpending] using this
  constructor
  · simp [MetricsActivity.close, hdone]
  · intro _
    exact ⟨[], by simp [MetricsActivity.close, hdone]⟩
  · intro _
    exact hconn

/-- Running the next section keeps coherence. -/
theorem Coherent.advance (h : a.Coherent) {sect : MetricsSection} {rest : List MetricsSection}
    (hpending : a.pending = sect :: rest) :
    ({ a with done := a.done ++ [sect], pending := rest } : MetricsActivity).Coherent := by
  constructor
  · rw [← h.sections, hpending]
    simp
  · intro hclosing
    exact (h.recorded hclosing).trans (List.prefix_append a.done [sect])
  · exact h.connection

/-- What is left of a count after the next section. -/
theorem Coherent.net_advance (h : a.Coherent) {sect : MetricsSection}
    {rest : List MetricsSection} (hpending : a.pending = sect :: rest) (c : Counter) :
    net c { a with done := a.done ++ [sect], pending := rest } + sect.takes c =
      net c a + sect.adds c := by
  have htaken := h.taken_add_takes_le hpending c
  unfold net taken added at *
  simp only [Table.tally_append_singleton]
  omega

end MetricsActivity

/-! ## The ledger -/

namespace MetricsRun

/-- Every count of the collector is what the sections run so far have left of it. -/
structure Ledger (s : MetricsRun) : Prop where
  coherent : ∀ a ∈ s.activities, a.Coherent
  read : ∀ c : Counter, c.read s.collector = Table.tally (·.net c) s.activities

/-- Fewer than `2 ^ 64` connections and fewer than `2 ^ 64` failures were recorded. -/
structure Counted (s : MetricsRun) : Prop where
  connections : s.connections < 2 ^ 64
  failures : s.failures < 2 ^ 64

/-- The records of one sort are counted. -/
theorem Counted.tally_lt {s : MetricsRun} (h : s.Counted) (c : Counter) :
    Table.tally (fun a => (a.ofSort c).toNat) s.activities < 2 ^ 64 := by
  rw [← Table.countP_eq_tally]
  cases hsort : c.ofFailures with
  | false =>
    have : MetricsActivity.ofSort c = MetricsActivity.isConnection := by
      funext a
      simp [MetricsActivity.ofSort, hsort]
    rw [this]
    exact h.connections
  | true =>
    have : MetricsActivity.ofSort c = fun a => !a.isConnection := by
      funext a
      simp [MetricsActivity.ofSort, hsort]
    rw [this]
    exact h.failures

/-- **No section wraps a count or takes from an empty one.**

**Proof sketch.** A count is the sum of what is left of each row. The row of the section has
taken less than it added, and no row leaves more than one. -/
theorem Ledger.fits_advance {s : MetricsRun} (h : s.Ledger) (hcounted : s.Counted) {i : ℕ}
    {a : MetricsActivity} (hi : s.activities[i]? = some a) {sect : MetricsSection}
    {rest : List MetricsSection} (hpending : a.pending = sect :: rest) :
    sect.Fits s.collector := by
  have hrow := h.coherent a (List.mem_of_getElem? hi)
  constructor
  · intro c
    rw [h.read c]
    refine Nat.lt_of_le_of_lt (Table.tally_add_le_tally hi (fun b hb => ?_) ?_)
      (hcounted.tally_lt c)
    · have := (h.coherent b hb).added_add_pending_le c
      unfold MetricsActivity.net
      omega
    · have := hrow.added_add_pending_le c
      rw [hpending, Table.tally_cons] at this
      unfold MetricsActivity.net
      omega
  · intro c
    rw [h.read c]
    have htaken := hrow.taken_add_takes_le hpending c
    have hle := Table.le_tally (fun b : MetricsActivity => b.net c) hi
    refine Nat.le_trans ?_ hle
    show sect.takes c ≤ a.added c - a.taken c
    omega

/-- The counts of a new collector are zero. -/
theorem ledger_start : start.Ledger where
  coherent a ha := absurd ha List.not_mem_nil
  read c := by
    cases c with
    | total kind => cases kind <;> rfl
    | _ => rfl

/-- What an action does to the collector and the rows. -/
inductive Moves (s : MetricsRun) : MetricsAction → MetricsRun → Prop
  | record (record : MetricsRecord) (serverName : Option Str) (peerIp : IpAddr) :
      Moves s (.record record serverName peerIp)
        { s with activities := s.activities ++ [.start record serverName peerIp] }
  | close {i : ℕ} {a : MetricsActivity} (hi : s.activities[i]? = some a) (hclose : a.CanClose) :
      Moves s (.close i) { s with activities := s.activities.set i a.close }
  | advance {i : ℕ} {a : MetricsActivity} {sect : MetricsSection} {rest : List MetricsSection}
      (hi : s.activities[i]? = some a) (hpending : a.pending = sect :: rest) :
      Moves s (.advance i) ⟨sect.run s.collector,
        s.activities.set i { a with done := a.done ++ [sect], pending := rest }⟩

/-- Every step is one of these. -/
theorem moves_of_next {s s' : MetricsRun} {action : MetricsAction}
    (hstep : s.next action = some s') : s.Moves action s' := by
  cases action with
  | record record serverName peerIp =>
    obtain rfl := Option.some.inj hstep
    exact .record record serverName peerIp
  | close i =>
    unfold next at hstep
    cases hi : s.activities[i]? with
    | none => simp [hi] at hstep
    | some a =>
      simp only [hi] at hstep
      split_ifs at hstep with hclose
      obtain rfl := Option.some.inj hstep
      exact .close hi hclose
  | advance i =>
    unfold next at hstep
    cases hi : s.activities[i]? with
    | none => simp [hi] at hstep
    | some a =>
      simp only [hi] at hstep
      cases hpending : a.pending with
      | nil => simp [hpending] at hstep
      | cons sect rest =>
        simp only [hpending, Option.some.injEq] at hstep
        subst hstep
        exact .advance hi hpending

/-- No step loses a row of some sort. -/
theorem countP_le_of_next {s s' : MetricsRun} {action : MetricsAction}
    (hstep : s.next action = some s') {p : MetricsActivity → Bool}
    (hclose : ∀ a : MetricsActivity, p a.close = p a)
    (hadvance : ∀ (a : MetricsActivity) done pending,
      p { a with done := done, pending := pending } = p a) :
    s.activities.countP p ≤ s'.activities.countP p := by
  cases moves_of_next hstep with
  | record record serverName peerIp =>
    rw [Table.countP_append_singleton]
    exact Nat.le_add_right _ _
  | @close i a hi _ => exact (Table.countP_set_of_eq p hi (hclose a)).ge
  | @advance i a sect rest hi _ => exact (Table.countP_set_of_eq p hi (hadvance a _ _)).ge

/-- Counts only grow. -/
theorem Counted.of_next {s s' : MetricsRun} {action : MetricsAction}
    (hstep : s.next action = some s') (h : s'.Counted) : s.Counted where
  connections := Nat.lt_of_le_of_lt
    (countP_le_of_next hstep (fun _ => rfl) (fun _ _ _ => rfl)) h.connections
  failures := Nat.lt_of_le_of_lt
    (countP_le_of_next hstep (fun _ => rfl) (fun _ _ _ => rfl)) h.failures

/-- Rows that change nothing in the counts keep the ledger. -/
theorem Ledger.set {s : MetricsRun} (h : s.Ledger) {i : ℕ} {a b : MetricsActivity}
    {collector : MetricsCollector} (hi : s.activities[i]? = some a) (hb : b.Coherent)
    (hread : ∀ c : Counter, c.read collector + a.net c = c.read s.collector + b.net c) :
    Ledger ⟨collector, s.activities.set i b⟩ := by
  constructor
  · intro x hx
    obtain ⟨j, hj⟩ := List.mem_iff_getElem?.mp hx
    rcases (Table.getElem?_set_eq_some hi).mp hj with ⟨-, rfl⟩ | ⟨-, hj⟩
    · exact hb
    · exact h.coherent x (List.mem_of_getElem? hj)
  · intro c
    have htally := Table.tally_set (fun x : MetricsActivity => x.net c) hi b
    have := hread c
    have := h.read c
    show c.read collector = Table.tally (fun x : MetricsActivity => x.net c) (s.activities.set i b)
    omega

/-- The ledger is kept by every step. -/
theorem Ledger.next {s s' : MetricsRun} (h : s.Ledger) (hcounted : s.Counted)
    {action : MetricsAction} (hstep : s.next action = some s') : s'.Ledger := by
  cases moves_of_next hstep with
  | record record serverName peerIp =>
    constructor
    · intro a ha
      rcases List.mem_append.mp ha with ha | ha
      · exact h.coherent a ha
      · obtain rfl := List.mem_singleton.mp ha
        exact MetricsActivity.coherent_start record serverName peerIp
    · intro c
      rw [Table.tally_append_singleton]
      exact h.read c
  | @close i a hi hclose =>
    exact h.set hi ((h.coherent a (List.mem_of_getElem? hi)).close hclose) fun c => rfl
  | @advance i a sect rest hi hpending =>
    have hrow := h.coherent a (List.mem_of_getElem? hi)
    refine h.set hi (hrow.advance hpending) fun c => ?_
    have hrun := MetricsSection.read_run (h.fits_advance hcounted hi hpending) c
    have hnet := hrow.net_advance hpending c
    omega

/-- **Every count is what the sections run so far add up to**, in every state that concurrent
calls reach. -/
theorem ledger_of_reach {s : MetricsRun} (h : metricsSystem.Reach s) (hcounted : s.Counted) :
    s.Ledger := by
  revert hcounted
  refine h.invariant (I := fun s => s.Counted → s.Ledger) ?_ ?_
  · intro s hs _
    obtain rfl : s = start := hs
    exact ledger_start
  · intro s action s' _ ih hstep hcounted
    have hcounted' := Counted.of_next hstep hcounted
    exact (ih hcounted').next hcounted' hstep

end MetricsRun

/-! ## No call in progress -/

namespace MetricsActivity

variable {a : MetricsActivity}

/-- What is left of a count when no call for the row is in progress: the row is in the counts of
its sort, and in a gauge until it is closed. -/
theorem Coherent.net_eq (h : a.Coherent) (hpending : a.pending = []) (c : Counter) :
    a.net c = if c.Concerns a.serverName a.peerIp ∧ c.counts a.record = true ∧
      ¬(a.closing = true ∧ c.isGauge = true) then 1 else 0 := by
  have hadded := h.added_add_pending c
  have htaken := h.taken_add_pending c
  rw [hpending, Table.tally_nil, Nat.add_zero] at hadded htaken
  unfold net
  rw [hadded, htaken]
  by_cases hconcerns : c.Concerns a.serverName a.peerIp
  · by_cases hclosed : a.closing = true ∧ c.isGauge = true
    · simp only [hconcerns, hclosed, true_and, and_self, not_true, and_false, if_true, if_false]
      split_ifs <;> rfl
    · simp only [hconcerns, hclosed, true_and, not_false_eq_true, and_true, if_false,
        Nat.sub_zero]
  · simp only [hconcerns, false_and, and_false, if_false]

/-- A connection is in one of the totals, and in those of its address. -/
theorem Coherent.net_totals (h : a.Coherent) (hpending : a.pending = []) :
    a.net (.total .tcp) + a.net (.total .tls) + a.net (.total .mtls) =
      a.net (.sum .connections) := by
  simp only [h.net_eq hpending]
  cases a.record with
  | failure => rfl
  | connection kind =>
    cases kind <;> simp [Counter.Concerns, Counter.counts, Counter.isGauge, Counter.ofFailures]

/-- A failure is in the count of the failed ones, and in those of its address. -/
theorem Coherent.net_failed (h : a.Coherent) (hpending : a.pending = []) :
    a.net .failed = a.net (.sum .failures) := by
  simp only [h.net_eq hpending]
  rfl

/-- An open connection is in the gauge, and in that of its address. -/
theorem Coherent.net_active (h : a.Coherent) (hpending : a.pending = []) :
    a.net .active = a.net (.sum .active) := by
  simp only [h.net_eq hpending]
  rfl

/-- The total of a kind in the entry of a server, from one row. -/
theorem Coherent.net_server_total (h : a.Coherent) (hpending : a.pending = []) (name : Str)
    (kind : ConnectionKind) :
    a.net (.server name (.total kind)) =
      (decide (a.record = .connection kind ∧ a.serverName = some name)).toNat := by
  rw [h.net_eq hpending, Table.toNat_decide]
  refine if_congr ?_ rfl rfl
  simp only [Counter.Concerns, Counter.counts, decide_eq_true_eq, Counter.isGauge, reduceCtorEq,
    decide_false, Bool.false_eq_true, and_false, not_false_eq_true, and_true]
  rw [@eq_comm _ (some name), @eq_comm _ (MetricsRecord.connection kind), and_comm]

/-- The failures in the entry of a server, from one row. -/
theorem Coherent.net_server_failures (h : a.Coherent) (hpending : a.pending = []) (name : Str) :
    a.net (.server name .failures) =
      (decide (a.record = .failure ∧ a.serverName = some name)).toNat := by
  rw [h.net_eq hpending, Table.toNat_decide]
  refine if_congr ?_ rfl rfl
  simp only [Counter.Concerns, Counter.counts, Counter.ofFailures, decide_true, decide_eq_true_eq,
    Counter.isGauge, reduceCtorEq, decide_false, Bool.false_eq_true, and_false, not_false_eq_true,
    and_true]
  rw [@eq_comm _ (some name), and_comm]

/-- The open connections in the entry of a server, from one row. -/
theorem Coherent.net_server_active (h : a.Coherent) (hpending : a.pending = []) (name : Str) :
    a.net (.server name .active) =
      (decide (a.isOpen = true ∧ a.serverName = some name)).toNat := by
  rw [h.net_eq hpending, Table.toNat_decide]
  refine if_congr ?_ rfl rfl
  simp only [Counter.Concerns, Counter.counts, Counter.ofFailures, reduceCtorEq, decide_false,
    decide_eq_false_iff_not, decide_not, Bool.not_eq_eq_eq_not, Bool.not_true, Counter.isGauge,
    decide_true, and_true, Bool.not_eq_true, isOpen, isConnection, ne_eq, Bool.and_eq_true]
  rw [@eq_comm _ (some name), and_comm]

end MetricsActivity

namespace MetricsRun

/-- The number of records of one sort that were given a server name. -/
def recorded (s : MetricsRun) (record : MetricsRecord) (name : Str) : ℕ :=
  s.activities.countP fun a => a.record = record ∧ a.serverName = some name

/-- The number of connections given a server name that are not closed. -/
def stillOpen (s : MetricsRun) (name : Str) : ℕ :=
  s.activities.countP fun a => a.isOpen = true ∧ a.serverName = some name

/-- A count of the collector, from what every row leaves of it. -/
theorem Ledger.read_eq_countP {s : MetricsRun} (h : s.Ledger) {c : Counter}
    {p : MetricsActivity → Bool} (hrow : ∀ a ∈ s.activities, a.net c = (p a).toNat) :
    c.read s.collector = s.activities.countP p := by
  rw [h.read c, Table.countP_eq_tally]
  exact Table.tally_congr hrow

/-- Two counts to which every row leaves the same. -/
theorem Ledger.read_eq_read {s : MetricsRun} (h : s.Ledger) {c c' : Counter}
    (hrow : ∀ a ∈ s.activities, a.net c = a.net c') : c.read s.collector = c'.read s.collector := by
  rw [h.read c, h.read c']
  exact Table.tally_congr hrow

/-- **Metrics lose no update**: whenever no call is in progress, the totals, the gauge and the
failures equal the sums over the addresses, and the entry of every server holds exactly the
records and the open connections that were given its name.

**Proof sketch.** In every reachable state a count is what the sections run so far add up to
(`ledger_of_reach`), row by row. With no call in progress, a row has run its record and, if it is
closed, its close; what these leave of two counts is compared row by row. -/
theorem counts_of_quiescent {s : MetricsRun} (h : metricsSystem.Reach s) (hcounted : s.Counted)
    (hquiet : s.Quiescent) :
    (s.collector.tcpTotal.toNat + s.collector.tlsTotal.toNat + s.collector.mtlsTotal.toNat =
        s.collector.sumIps PerIpMetrics.connections ∧
      s.collector.failed.toNat = s.collector.sumIps PerIpMetrics.failures ∧
      s.collector.active.toNat = s.collector.sumIps PerIpMetrics.active) ∧
    ∀ name : Str,
      s.collector.ofServer name PerServerMetrics.tcp = s.recorded (.connection .tcp) name ∧
      s.collector.ofServer name PerServerMetrics.tls = s.recorded (.connection .tls) name ∧
      s.collector.ofServer name PerServerMetrics.mtls = s.recorded (.connection .mtls) name ∧
      s.collector.ofServer name PerServerMetrics.failures = s.recorded .failure name ∧
      s.collector.ofServer name PerServerMetrics.active = s.stillOpen name := by
  have hledger := ledger_of_reach h hcounted
  have hrow : ∀ a ∈ s.activities, a.Coherent ∧ a.pending = [] := fun a ha =>
    ⟨hledger.coherent a ha, hquiet a ha⟩
  have htotal : ∀ kind name, Counter.read s.collector (.server name (.total kind)) =
      s.recorded (.connection kind) name := by
    intro kind name
    exact hledger.read_eq_countP fun a ha =>
      (hrow a ha).1.net_server_total (hrow a ha).2 name kind
  refine ⟨⟨?_, ?_, ?_⟩, fun name => ⟨htotal .tcp name, htotal .tls name, htotal .mtls name, ?_, ?_⟩⟩
  · have hsum : Table.tally (fun a : MetricsActivity => a.net (.total .tcp) +
        a.net (.total .tls) + a.net (.total .mtls)) s.activities =
          Table.tally (·.net (.sum .connections)) s.activities :=
      Table.tally_congr fun a ha => (hrow a ha).1.net_totals (hrow a ha).2
    rw [Table.tally_add, Table.tally_add, ← hledger.read, ← hledger.read, ← hledger.read,
      ← hledger.read] at hsum
    exact hsum
  · have : Counter.read s.collector .failed = Counter.read s.collector (.sum .failures) :=
      hledger.read_eq_read fun a ha => (hrow a ha).1.net_failed (hrow a ha).2
    exact this
  · have : Counter.read s.collector .active = Counter.read s.collector (.sum .active) :=
      hledger.read_eq_read fun a ha => (hrow a ha).1.net_active (hrow a ha).2
    exact this
  · have : Counter.read s.collector (.server name .failures) = s.recorded .failure name :=
      hledger.read_eq_countP fun a ha => (hrow a ha).1.net_server_failures (hrow a ha).2 name
    exact this
  · have : Counter.read s.collector (.server name .active) = s.stillOpen name :=
      hledger.read_eq_countP fun a ha => (hrow a ha).1.net_server_active (hrow a ha).2 name
    exact this

/-- Two connections and a failure of one server, the first connection closed in between. -/
def interleavedActions : List MetricsAction :=
  [.record (.connection .tcp) (some "proxy".toList) (.v4 1),
    .record (.connection .tls) (some "proxy".toList) (.v4 2),
    .advance 0, .advance 1, .advance 1, .advance 0, .advance 0, .advance 1, .advance 0,
    .close 0, .record .failure (some "proxy".toList) (.v4 2),
    .advance 0, .advance 2, .advance 1, .advance 2, .advance 0, .advance 0, .advance 2]

/-- The state after them. -/
def interleavedRun : MetricsRun := Transition.System.after next start interleavedActions

/-- One of the two connections is still open in all three views. -/
theorem counts_of_quiescent_interleavedRun :
    interleavedRun.collector.active.toNat = interleavedRun.collector.sumIps PerIpMetrics.active ∧
      interleavedRun.collector.ofServer "proxy".toList PerServerMetrics.active = 1 := by
  have hreach : metricsSystem.Reach interleavedRun :=
    Transition.System.reach_after (.init rfl) fun _ _ _ _ hnext => hnext
  have h := counts_of_quiescent hreach ⟨by decide +kernel, by decide +kernel⟩ (by decide +kernel)
  refine ⟨h.1.2.2, (h.2 "proxy".toList).2.2.2.2.trans ?_⟩
  decide +kernel

end MetricsRun

end Synclaire
