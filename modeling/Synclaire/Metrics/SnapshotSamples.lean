import Synclaire.Metrics.Snapshot

set_option relaxedAutoImplicit false
set_option autoImplicit false

/-!
# The latencies that a snapshot shows

A latency is added to the sum and to the number of samples in the entry of its server under one
lock, and in that of its address under another one; a snapshot copies an entry under the same lock.
So what it shows of the latencies of a server, and of an address, is what was there at one moment:
the average is that of the latencies added until then, and the number of samples is theirs.

The average of the process has no such moment: the sum and the number are loaded one after the
other.

## Main definitions

* `Synclaire.LatencyKey` — a server or an address, with its entry and what is shown of that.
* `Synclaire.LatencyKey.samples` — the latencies added to an entry along a run.
* `Synclaire.SnapshotRun.ShowsSamples` — the two moments at which a snapshot copies the maps.

## Main results

* `Synclaire.SnapshotRun.entry_of_next` — what every step does to an entry.
* `Synclaire.SnapshotRun.snapshot_samples` — a snapshot shows the latencies of two moments.
* `Synclaire.SnapshotRun.average_unevenRun` — the average of the process may be above every latency.
-/

namespace Synclaire

open MetricsCollector

/-! ## Entries -/

/-- The sum and the number of the latencies in the entry of a server. -/
def PerServerMetrics.latencies (e : PerServerMetrics) : UInt64 × UInt64 :=
  (e.latencySumMs, e.latencyCount)

/-- The sum and the number of the latencies in the entry of an address. -/
def PerIpMetrics.latencies (e : PerIpMetrics) : UInt64 × UInt64 := (e.latencySumMs, e.latencyCount)

section Entries

variable {K V : Type*} [DecidableEq K] {latencies : V → UInt64 × UInt64} {entries : FMap K V}
  {k a : K} {f : V → V}

/-- What `latencies` reads from the entry of `k`; zeros without one. -/
def latenciesAt (latencies : V → UInt64 × UInt64) (entries : FMap K V) (k : K) : UInt64 × UInt64 :=
  ((entries.lookup k).map latencies).getD (0, 0)

/-- An entry that is made without latencies, or changed in something else, shows the same ones. -/
theorem latenciesAt_upsert {v : V} (hv : latencies v = (0, 0))
    (hf : ∀ e, latencies (f e) = latencies e) :
    latenciesAt latencies (FMap.upsert entries k f v) a = latenciesAt latencies entries a := by
  rw [latenciesAt, latenciesAt, FMap.lookup_upsert]
  split_ifs with hak
  · subst hak
    cases entries.lookup a with
    | none => exact hv
    | some e => exact hf e
  · rfl

/-- An entry that is changed in something else has the same latencies. -/
theorem latenciesAt_adjust (hf : ∀ e, latencies (f e) = latencies e) :
    latenciesAt latencies (FMap.adjust entries k f) a = latenciesAt latencies entries a := by
  rw [latenciesAt, latenciesAt, FMap.lookup_adjust]
  split_ifs with hak
  · subst hak
    cases entries.lookup a with
    | none => rfl
    | some e => exact hf e
  · rfl

/-- A latency is added to the entry of its key, if there is one. -/
theorem latenciesAt_delayed {latencyMs : UInt64}
    (hf : ∀ e, latencies (f e) = ((latencies e).1 + latencyMs, (latencies e).2 + 1)) :
    latenciesAt latencies (FMap.adjust entries k f) a =
      if a = k ∧ (entries.lookup a).isSome then
        ((latenciesAt latencies entries a).1 + latencyMs, (latenciesAt latencies entries a).2 + 1)
      else latenciesAt latencies entries a := by
  rw [latenciesAt, latenciesAt, FMap.lookup_adjust]
  by_cases hak : a = k
  · subst hak
    cases entries.lookup a with
    | none => simp
    | some e => simp [hf]
  · simp [hak]

end Entries

/-- Whose latencies an entry counts. -/
inductive LatencyKey
  | server (name : Str)
  | ip (addr : IpAddr)
  deriving DecidableEq

namespace LatencyKey

/-- The sum and the number of the latencies in the entry; zeros without one. -/
def entry (m : MetricsCollector) : LatencyKey → UInt64 × UInt64
  | .server name => latenciesAt PerServerMetrics.latencies m.perServer name
  | .ip addr => latenciesAt PerIpMetrics.latencies m.perIp addr

/-- The section that adds a latency to the entry. -/
def latencySection (latencyMs : UInt64) : LatencyKey → MetricsSection
  | .server name => .serverLatency name latencyMs
  | .ip addr => .ipLatency addr latencyMs

/-- The lock of the entry. -/
def lock : LatencyKey → MetricsLock
  | .server _ => .perServer
  | .ip _ => .perIp

/-- There is an entry. -/
def isIn (m : MetricsCollector) : LatencyKey → Bool
  | .server name => (m.perServer.lookup name).isSome
  | .ip addr => (m.perIp.lookup addr).isSome

/-- The average and, for a server, the number of samples that a snapshot shows; zero where it shows
no entry. -/
def shownIn (shown : ConnectionMetrics) : LatencyKey → Float × Option UInt64
  | .server name =>
    ((shown.perServer.lookup name).map fun e =>
      (e.avgLatencyMs, some e.latencySampleCount)).getD (0, some 0)
  | .ip addr => ((shown.perIp.lookup addr).map fun e => (e.avgLatencyMs, none)).getD (0, none)

/-- What is to be shown of a sum and a number of latencies. -/
def ofLatencies (latencies : UInt64 × UInt64) : LatencyKey → Float × Option UInt64
  | .server _ => (avgLatencyMs latencies.1 latencies.2, some latencies.2)
  | .ip _ => (avgLatencyMs latencies.1 latencies.2, none)

/-- **What one read shows of an entry.** -/
theorem shownIn_run (m : MetricsCollector) (l : SnapshotLocals) (k : LatencyKey)
    (r : SnapshotRead) :
    k.shownIn (r.run m l).metrics =
      if k.lock.read = r then k.ofLatencies (k.entry m) else k.shownIn l.metrics := by
  cases k with
  | server name =>
    cases r with
    | servers =>
      simp only [shownIn, SnapshotRead.run, FMap.lookup_mapValues, lock, MetricsLock.read, entry,
        latenciesAt, if_true]
      cases m.perServer.lookup name <;> rfl
    | total kind => cases kind <;> rfl
    | _ => rfl
  | ip addr =>
    cases r with
    | ips =>
      simp only [shownIn, SnapshotRead.run, FMap.lookup_mapValues, lock, MetricsLock.read, entry,
        latenciesAt, if_true]
      cases m.perIp.lookup addr <;> rfl
    | total kind => cases kind <;> rfl
    | _ => rfl

/-- What a snapshot would show of an entry: what it has copied, or else the entry. -/
theorem shownIn_finish (call : SnapshotCall) (m : MetricsCollector) (k : LatencyKey) :
    k.shownIn (call.finish m) =
      if k.lock.read ∈ call.pending then k.ofLatencies (k.entry m)
      else k.shownIn call.locals.metrics :=
  SnapshotCall.finish_of_run (shownIn · k) (fun r l => shownIn_run m l k r) call

/-- A snapshot that has read nothing would show the entry. -/
theorem shownIn_finish_start (m : MetricsCollector) (k : LatencyKey) :
    k.shownIn (SnapshotCall.start.finish m) = k.ofLatencies (k.entry m) := by
  rw [shownIn_finish, if_pos]
  cases k <;> simp [lock, MetricsLock.read, SnapshotCall.start, snapshotReads]

/-- A latency is added to its own entry, if there is one, and to no other. -/
theorem entry_latencySection (m : MetricsCollector) (k k' : LatencyKey) (latencyMs : UInt64) :
    k.entry ((k'.latencySection latencyMs).run m) =
      if k = k' ∧ k.isIn m then ((k.entry m).1 + latencyMs, (k.entry m).2 + 1) else k.entry m := by
  cases k with
  | server name =>
    cases k' with
    | server name' =>
      refine (latenciesAt_delayed fun e => rfl).trans (if_congr ?_ rfl rfl)
      rw [LatencyKey.server.injEq, isIn]
    | ip addr' => exact (if_neg (by simp)).symm
  | ip addr =>
    cases k' with
    | server name' => exact (if_neg (by simp)).symm
    | ip addr' =>
      refine (latenciesAt_delayed fun e => rfl).trans (if_congr ?_ rfl rfl)
      rw [LatencyKey.ip.injEq, isIn]

/-- **Every other section leaves the latencies of an entry.** -/
theorem entry_run {sect : MetricsSection}
    (h : ∀ (k : LatencyKey) (latencyMs : UInt64), sect ≠ k.latencySection latencyMs)
    (m : MetricsCollector) (k : LatencyKey) : k.entry (sect.run m) = k.entry m := by
  cases sect with
  | serverLatency name latencyMs => exact absurd rfl (h (.server name) latencyMs)
  | ipLatency addr latencyMs => exact absurd rfl (h (.ip addr) latencyMs)
  | serverConnected kind name =>
    cases k with
    | ip addr => rfl
    | server name' =>
      exact latenciesAt_upsert (by cases kind <;> rfl) fun e => by cases kind <;> rfl
  | serverFailed name =>
    cases k with
    | ip addr => rfl
    | server name' => exact latenciesAt_upsert rfl fun e => rfl
  | serverClosed name =>
    cases k with
    | ip addr => rfl
    | server name' =>
      refine latenciesAt_adjust fun e => ?_
      rw [PerServerMetrics.closed]
      split_ifs <;> rfl
  | ipConnected addr | ipFailed addr =>
    cases k with
    | server name => rfl
    | ip addr' => exact latenciesAt_upsert rfl fun e => rfl
  | ipClosed addr =>
    cases k with
    | server name => rfl
    | ip addr' =>
      refine latenciesAt_adjust fun e => ?_
      rw [PerIpMetrics.closed]
      split_ifs <;> rfl
  | addTotal kind => cases kind <;> cases k <;> rfl
  | lowerMinLatency latencyMs | raiseMaxLatency latencyMs =>
    rw [MetricsSection.run]
    split_ifs <;> rfl
  | _ => cases k <;> rfl

/-- A section adds one latency to one entry. -/
theorem latencySection_inj {k k' : LatencyKey} {latencyMs latencyMs' : UInt64} :
    k.latencySection latencyMs = k'.latencySection latencyMs' ↔
      k = k' ∧ latencyMs = latencyMs' := by
  cases k <;> cases k' <;> simp [latencySection]

/-- The latency that a step adds to an entry: that of a call whose next section is the one for the
entry, which is there. -/
def added (k : LatencyKey) (x : Transition.Taken SnapshotRun SnapshotAction) : Option UInt64 :=
  match x.label with
  | .delay i =>
    match x.source.delays[i]? with
    | some call =>
      if call.pending.head? = some (k.latencySection call.latencyMs) ∧
          k.isIn x.source.run.collector then some call.latencyMs
      else none
    | none => none
  | _ => none

/-- The latencies added to an entry along a run. -/
def samples (k : LatencyKey) (tr : List (Transition.Taken SnapshotRun SnapshotAction)) :
    List UInt64 :=
  tr.filterMap k.added

/-- One more step. -/
theorem samples_concat (k : LatencyKey) (tr : List (Transition.Taken SnapshotRun SnapshotAction))
    (x : Transition.Taken SnapshotRun SnapshotAction) :
    k.samples (tr ++ [x]) = k.samples tr ++ (k.added x).toList := by
  rw [samples, samples, List.filterMap_append]
  cases hx : k.added x <;> simp [hx]

/-- The sum and the number of some latencies, as words. -/
def totals (latencies : List UInt64) : UInt64 × UInt64 :=
  (.ofNat (Table.tally UInt64.toNat latencies), .ofNat latencies.length)

/-- One more latency. -/
theorem totals_concat (latencies : List UInt64) (latencyMs : UInt64) :
    totals (latencies ++ [latencyMs]) =
      ((totals latencies).1 + latencyMs, (totals latencies).2 + 1) := by
  rw [totals, Table.tally_append_singleton, List.length_append, UInt64.ofNat_add,
    UInt64.ofNat_add, UInt64.ofNat_toNat]
  rfl

end LatencyKey

/-! ## Calls -/

namespace SnapshotRun

/-- No call but a latency call adds latencies. -/
def OthersAddNone (s : SnapshotRun) : Prop :=
  ∀ a ∈ s.run.activities, ∀ sect ∈ a.pending, ∀ (k : LatencyKey) (latencyMs : UInt64),
    sect ≠ k.latencySection latencyMs

/-- The sections of a record or a close add no latency. -/
theorem ne_latencySection {record : MetricsRecord} {serverName : Option Str} {peerIp : IpAddr}
    {sect : MetricsSection} (h : sect ∈ record.sections serverName peerIp ++
      recordConnectionClose serverName peerIp) (k : LatencyKey) (latencyMs : UInt64) :
    sect ≠ k.latencySection latencyMs := by
  rintro rfl
  cases record with
  | failure =>
    cases serverName <;> cases k <;>
      simp [MetricsRecord.sections, recordFailure, recordConnectionClose, serverSection,
        LatencyKey.latencySection] at h
  | connection kind =>
    rw [sections_connection] at h
    cases serverName <;> cases k <;>
      simp [recordConnection, recordConnectionClose, serverSection,
        LatencyKey.latencySection] at h

variable {s s' t : SnapshotRun} {action : SnapshotAction}

/-- **What every step keeps**: no other call begins to add latencies. -/
theorem OthersAddNone.step (h : s.OthersAddNone) (hstep : s.next action = some s') :
    s'.OthersAddNone := by
  cases moves_of_next hstep with
  | caller hfree hnext =>
    cases MetricsRun.moves_of_next hnext with
    | record record serverName peerIp =>
      intro a ha
      rcases List.mem_append.mp ha with ha | ha
      · exact h a ha
      · obtain rfl := List.mem_singleton.mp ha
        exact fun sect hsect =>
          ne_latencySection (List.mem_append_left (recordConnectionClose serverName peerIp) hsect)
    | @close i a hi hclose =>
      intro b hb
      rcases List.mem_or_eq_of_mem_set hb with hb | rfl
      · exact h b hb
      · exact fun sect hsect => ne_latencySection
          (List.mem_append_right (MetricsRecord.failure.sections a.serverName a.peerIp) hsect)
    | @advance i a sect rest hi hpending =>
      intro b hb
      rcases List.mem_or_eq_of_mem_set hb with hb | rfl
      · exact h b hb
      · intro sect' hsect'
        refine h a (List.mem_of_getElem? hi) sect' ?_
        rw [hpending]
        exact .tail _ hsect'
  | _ => exact h

/-- In every reachable state no other call adds latencies. -/
theorem othersAddNone_of_reach (h : snapshotSystem.Reach s) : s.OthersAddNone := by
  refine h.invariant (fun s hs => ?_) fun s action s' _ hI hstep => hI.step hstep
  obtain rfl := hs
  simp [OthersAddNone, start, MetricsRun.start]

/-- The next section of a latency call, if it is one for an entry, adds the latency of the call. -/
theorem Proceeding.latencyMs_eq (h : s.Proceeding) {call : LatencyCall} (hcall : call ∈ s.delays)
    {k : LatencyKey} {latencyMs : UInt64} {rest : List MetricsSection}
    (hpending : call.pending = k.latencySection latencyMs :: rest) :
    latencyMs = call.latencyMs := by
  have hmem := h.mem hcall hpending
  cases k <;> cases call.serverName <;>
    simp_all [recordConnectionLatency, serverSection, LatencyKey.latencySection]

/-! ## Entries along a run -/

/-- **What every step does to the latencies of an entry**: it adds the one that `added` says. -/
theorem entry_of_next (hreach : snapshotSystem.Reach s) (hstep : s.next action = some s')
    (k : LatencyKey) {latencies : List UInt64}
    (h : k.entry s.run.collector = LatencyKey.totals latencies) :
    k.entry s'.run.collector =
      LatencyKey.totals (latencies ++ (k.added ⟨s, action, s'⟩).toList) := by
  cases moves_of_next hstep with
  | caller hfree hnext =>
    refine Eq.trans ?_ (h.trans (by simp [LatencyKey.added]))
    cases MetricsRun.moves_of_next hnext with
    | @advance i a sect rest hi hpending =>
      refine LatencyKey.entry_run
        (othersAddNone_of_reach hreach a (List.mem_of_getElem? hi) sect ?_) _ k
      rw [hpending]
      exact .head _
    | _ => rfl
  | @delay i call sect rest hi hpending hfree =>
    have hcall := List.mem_of_getElem? hi
    by_cases hsect : ∀ (k : LatencyKey) (latencyMs : UInt64), sect ≠ k.latencySection latencyMs
    · refine (LatencyKey.entry_run hsect s.run.collector k).trans ?_
      rw [h]
      simp [LatencyKey.added, hi, hpending, hsect k call.latencyMs]
    · push Not at hsect
      obtain ⟨k', latencyMs, rfl⟩ := hsect
      obtain rfl := (proceeding_of_reach hreach).latencyMs_eq hcall hpending
      refine (LatencyKey.entry_latencySection s.run.collector k k' call.latencyMs).trans ?_
      by_cases hk : k = k' ∧ k.isIn s.run.collector = true
      · rw [if_pos hk, h, ← LatencyKey.totals_concat]
        simp [LatencyKey.added, hi, hpending, ← hk.1, hk.2]
      · rw [if_neg hk, h]
        have hnot : ¬(k' = k ∧ k.isIn s.run.collector = true) := fun hk' => hk ⟨hk'.1.symm, hk'.2⟩
        simp [LatencyKey.added, hi, hpending, LatencyKey.latencySection_inj, hnot]
  | _ => exact h.trans (by simp [LatencyKey.added])

/-! ## What a snapshot shows -/

/-- The two moments of a run `tr₀ ++ tr` at which a snapshot copies the maps: both are after `tr₀`,
and the map by server is the first. It shows the latencies added to each entry until then. -/
structure ShowsSamples (tr₀ tr : List (Transition.Taken SnapshotRun SnapshotAction))
    (shown : ConnectionMetrics)
    (moments : MetricsLock → List (Transition.Taken SnapshotRun SnapshotAction)) : Prop where
  within : ∀ lock, moments lock <+: tr
  ordered : moments .perServer <+: moments .perIp
  shown : ∀ k : LatencyKey, k.shownIn shown =
    k.ofLatencies (LatencyKey.totals (k.samples (tr₀ ++ moments k.lock)))

/-- A snapshot in row `j` that began after `tr₀`: what it would show is of two moments of the run so
far. -/
structure Sampled (tr₀ : List (Transition.Taken SnapshotRun SnapshotAction)) (j : ℕ)
    (tr : List (Transition.Taken SnapshotRun SnapshotAction)) (t : SnapshotRun) : Prop where
  entry : ∀ k : LatencyKey, k.entry t.run.collector = LatencyKey.totals (k.samples (tr₀ ++ tr))
  shown : ∀ call, t.snapshots[j]? = some call →
    ∃ moments, ShowsSamples tr₀ tr (call.finish t.run.collector) moments

variable {tr₀ tr : List (Transition.Taken SnapshotRun SnapshotAction)} {j : ℕ}

/-- Others go on: the moment of a map that is still to be copied moves on, that of a map that was
copied stays. -/
theorem ShowsSamples.concat {call : SnapshotCall} {m m' : MetricsCollector}
    {x : Transition.Taken SnapshotRun SnapshotAction}
    {moments : MetricsLock → List (Transition.Taken SnapshotRun SnapshotAction)}
    (h : ShowsSamples tr₀ tr (call.finish m) moments) (hseq : call.pending <:+ snapshotReads)
    (hentry : ∀ k : LatencyKey,
      k.entry m' = LatencyKey.totals (k.samples (tr₀ ++ (tr ++ [x])))) :
    ∃ moments', ShowsSamples tr₀ (tr ++ [x]) (call.finish m') moments' := by
  have hprefix : ∀ lock, moments lock <+: tr ++ [x] :=
    fun lock => (h.within lock).trans (List.prefix_append tr [x])
  refine ⟨fun lock => if lock.read ∈ call.pending then tr ++ [x] else moments lock,
    fun lock => ?_, ?_, fun k => ?_⟩
  · split_ifs
    · exact List.prefix_rfl
    · exact hprefix lock
  · split_ifs with hservers hips hips
    · exact List.prefix_rfl
    · exact absurd (ips_mem_of_servers_mem hseq hservers) hips
    · exact hprefix .perServer
    · exact h.ordered
  · have hk := h.shown k
    rw [LatencyKey.shownIn_finish] at hk ⊢
    split_ifs at hk ⊢
    · rw [hentry]
    · exact hk

/-- **What every step keeps** of the entries and of what a snapshot shows. -/
theorem Sampled.step (h : s.Sampled tr₀ j tr) (hreach : snapshotSystem.Reach s)
    (hstep : s.next action = some s') : s'.Sampled tr₀ j (tr ++ [⟨s, action, s'⟩]) := by
  have hentry : ∀ k : LatencyKey, k.entry s'.run.collector =
      LatencyKey.totals (k.samples (tr₀ ++ (tr ++ [⟨s, action, s'⟩]))) := by
    intro k
    rw [← List.append_assoc, LatencyKey.samples_concat]
    exact entry_of_next hreach hstep k (h.entry k)
  have hkeep : ∀ call, s.snapshots[j]? = some call → ∃ moments,
      ShowsSamples tr₀ (tr ++ [⟨s, action, s'⟩]) (call.finish s'.run.collector) moments := by
    intro call hcall
    obtain ⟨moments, hshows⟩ := h.shown call hcall
    exact hshows.concat (sequenced_of_reach hreach call (List.mem_of_getElem? hcall)) hentry
  refine ⟨hentry, ?_⟩
  cases moves_of_next hstep with
  | snapshot =>
    intro call hcall
    rcases Table.getElem?_append_singleton.mp hcall with hcall | ⟨-, rfl⟩
    · exact hkeep call hcall
    · refine ⟨fun _ => tr ++ [_], fun _ => List.prefix_rfl, List.prefix_rfl, fun k => ?_⟩
      rw [LatencyKey.shownIn_finish_start, hentry]
  | @read j' call' r rest hj hpending hfree =>
    intro call hcall
    rcases (Table.getElem?_set_eq_some hj).mp hcall with ⟨rfl, rfl⟩ | ⟨-, hcall⟩
    · rw [SnapshotCall.finish_read hpending]
      exact hkeep call' hj
    · exact hkeep call hcall
  | _ => exact hkeep

/-- The entries along a run from the start. -/
theorem entry_of_run (hrun : snapshotSystem.Run start tr s) (k : LatencyKey) :
    k.entry s.run.collector = LatencyKey.totals (k.samples tr) := by
  have hstart : ∀ k : LatencyKey,
      k.entry start.run.collector = LatencyKey.totals (k.samples []) := by
    intro k
    cases k <;> rfl
  have hentry := hrun.invariant_taken
    (I := fun tr t => ∀ k : LatencyKey, k.entry t.run.collector = LatencyKey.totals (k.samples tr))
    (fun tr t action t' hreach ih hstep k => by
      rw [LatencyKey.samples_concat]
      exact entry_of_next hreach hstep k (ih k))
    (.init rfl) hstart
  exact hentry k

/-- **A snapshot shows the latencies of two moments**, however calls and snapshots interleave: its
copies of the entries of the servers are of one moment between the call and the return, and those
of the addresses of a later one. The average that it shows for an entry is that of all latencies
added to the entry before the moment, and the number of samples that it shows for a server is
theirs.

**Proof sketch.** By induction on the run (`Sampled.step`): as long as a map is not copied, its
moment is now. -/
theorem snapshot_samples (hrun₀ : snapshotSystem.Run start tr₀ s)
    (hrun : snapshotSystem.Run s tr t) (hbefore : s.snapshots.length ≤ j) {call : SnapshotCall}
    (hcall : t.snapshots[j]? = some call) (hdone : call.pending = []) :
    ∃ moments, ShowsSamples tr₀ tr call.locals.metrics moments := by
  have hstart : s.Sampled tr₀ j [] := by
    refine ⟨fun k => ?_, fun call hnone => ?_⟩
    · rw [List.append_nil]
      exact entry_of_run hrun₀ k
    · rw [List.getElem?_eq_none hbefore] at hnone
      cases hnone
  have hsampled := hrun.invariant_taken (I := fun tr t => t.Sampled tr₀ j tr)
    (fun tr t action t' hreach ih hstep => ih.step hreach hstep) (hrun₀.reach (.init rfl)) hstart
  obtain ⟨moments, hshows⟩ := hsampled.shown call hcall
  rw [SnapshotCall.finish_of_done hdone] at hshows
  exact ⟨moments, hshows⟩

/-- Two latencies of a server, of three and four milliseconds, are recorded after a connection to
it. -/
def sampledActions : List SnapshotAction :=
  [.caller (.record (.connection .tcp) (some "proxy".toList) (.v4 1))] ++
    List.replicate 4 (.caller (.advance 0)) ++
    [.latency (some "proxy".toList) (.v4 1) 3, .latency (some "proxy".toList) (.v4 1) 4] ++
    List.replicate 6 (.delay 0) ++ List.replicate 6 (.delay 1)

/-- A snapshot copies the maps while a third latency is added. -/
def thirdActions : List SnapshotAction :=
  [.latency (some "proxy".toList) (.v4 1) 9, .delay 2, .delay 2, .delay 2, .delay 2, .snapshot,
    .read 0] ++ List.replicate 10 (.read 0) ++ [.delay 2]

/-- The run of these actions. -/
def sampledRun : List (Transition.Taken SnapshotRun SnapshotAction) × SnapshotRun :=
  Transition.System.follow next start sampledActions

/-- The run of the snapshot after that. -/
def thirdRun : List (Transition.Taken SnapshotRun SnapshotAction) × SnapshotRun :=
  Transition.System.follow next sampledRun.2 thirdActions

/-- The snapshot when it has returned. -/
def sampledCall : SnapshotCall := thirdRun.2.snapshots.headD .start

/-- The snapshot shows two samples of the server and their average, though the totals of the process
have the third latency already, and the entry of the server has it in the end. -/
theorem snapshot_samples_sampledCall :
    thirdRun.2.run.collector.latencyCount = 3 ∧
      (LatencyKey.server "proxy".toList).samples (sampledRun.1 ++ thirdRun.1) = [3, 4, 9] ∧
      (LatencyKey.server "proxy".toList).shownIn sampledCall.locals.metrics = (3.5, some 2) ∧
      ∃ moments, ShowsSamples sampledRun.1 thirdRun.1 sampledCall.locals.metrics moments := by
  have hrun₀ : snapshotSystem.Run start sampledRun.1 sampledRun.2 :=
    Transition.System.run_follow (fun _ _ _ h => h) sampledActions start
  have hrun : snapshotSystem.Run sampledRun.2 thirdRun.1 thirdRun.2 :=
    Transition.System.run_follow (fun _ _ _ h => h) thirdActions sampledRun.2
  exact ⟨by decide +kernel, by decide +kernel, by decide +kernel,
    snapshot_samples hrun₀ hrun (j := 0) (by decide +kernel) (by decide +kernel)
      (by decide +kernel)⟩

/-- A latency of one millisecond is counted; one of nine is added between the loads of the number
and of the sum. -/
def unevenActions : List SnapshotAction :=
  [.latency none (.v4 1) 1, .delay 0, .delay 0, .snapshot, .read 0, .read 0, .read 0,
    .latency none (.v4 1) 9, .delay 1] ++ List.replicate 8 (.read 0)

/-- The state after them. -/
def unevenRun : SnapshotRun := Transition.System.after next start unevenActions

/-- **The average of the process may be above every latency**: it is that of no set of calls. -/
theorem average_unevenRun :
    unevenRun.delays.map LatencyCall.latencyMs = [1, 9] ∧
      ∀ call ∈ unevenRun.snapshots, call.pending = [] ∧ call.locals.metrics.avgLatencyMs = 10 := by
  decide +kernel

end SnapshotRun

end Synclaire
