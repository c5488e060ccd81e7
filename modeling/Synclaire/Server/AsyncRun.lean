import Synclaire.Server.SyncRun

set_option relaxedAutoImplicit false
set_option autoImplicit false

/-!
# The accept loop and the tasks of the async server

The accept loop takes a permit of a semaphore for each connection and moves it into the task
that handles the connection. The permit goes back when the task drops it: after the handler, a
timeout, or the unwinding of a panic. At a shutdown the loop waits until it gets all permits.

## Main definitions

* `Synclaire.AsyncRun` — `run_internal`, the semaphore and the tasks.
* `Synclaire.AsyncRun.next`, `Synclaire.AsyncRun.system` — the step function and the runs.
* `Synclaire.AsyncRun.admitted` — the connections admitted past the limit and not finished.

## Main results

* `Synclaire.AsyncRun.accounted_of_reach` — permits and admitted connections add up to the limit.
* `Synclaire.admitted_le_and_drained` — the limit and the drained state, for both servers.

## Implementation notes

The semaphore is its number of free permits: `try_acquire_owned` takes one if there is one, a
dropped permit goes back, and `acquire_many` waits until that many are free.
-/

namespace Synclaire

/-- `tokio::sync::Semaphore::MAX_PERMITS`, which is `usize::MAX >> 3`; `Semaphore::new` panics
beyond it. -/
def maxPermits : ℕ := 0x1fffffffffffffff

/-- Where `run_internal` is. -/
inductive AcceptLoop
  /-- The listener is being set up. -/
  | starting
  /-- Waiting for a connection or for the shutdown signal. -/
  | waiting
  | accepted (peer : SocketAddr)
  /-- The connection has a permit, and is to be reserved at the guards. -/
  | permitted (peer : SocketAddr)
  /-- The loop was left; all permits are to be acquired. -/
  | draining
  | acquiring (permits : ℕ)
  | returned (result : Except SynError Unit)
  /-- `Semaphore::new` has panicked. -/
  | panicked
  deriving DecidableEq

/-- How the future in a task ends. -/
inductive TaskEnd
  | completed (outcome : HandlerOutcome)
  | timedOut
  deriving DecidableEq

/-- Where the task of a connection is. -/
inductive Task
  | running (peer : SocketAddr)
  /-- The future has ended; the permit is to be dropped. -/
  | ending (peer : SocketAddr) (how : TaskEnd)
  | finished
  deriving DecidableEq

/-- An `AsyncServer` that runs. -/
structure AsyncRun where
  /-- The free permits of the semaphore; those it will have, before it is created. -/
  permits : ℕ
  loop : AcceptLoop
  tasks : List Task
  deriving DecidableEq

/-- A step of a running server. -/
inductive AsyncAction
  /-- The listener is bound, or that fails. -/
  | setUp (result : Except SynError Unit)
  /-- `listener.accept` returns. -/
  | accept (result : Except SynError SocketAddr)
  /-- `signal.changed` returns, with the value there; none if the sender was dropped. -/
  | signal (value : Option Bool)
  /-- The accept loop calls `try_acquire_owned`, or `acquire_many`. -/
  | advance
  /-- `guards.reserve` returns. -/
  | reserve (result : Except SynError Unit)
  /-- The future of task `k` completes. -/
  | complete (k : ℕ) (env : ConnectionEnv)
  /-- The connection timeout of task `k` passes. -/
  | timeout (k : ℕ)
  /-- Task `k` drops its permit. -/
  | drop (k : ℕ)
  deriving DecidableEq

/-- The connection of the task has its permit. -/
def Task.hasPermit : Task → Bool
  | .running _ | .ending _ _ => true
  | .finished => false

/-- The connection of the loop has its permit. -/
def AcceptLoop.admits : AcceptLoop → ℕ
  | .permitted _ => 1
  | _ => 0

namespace AsyncRun

/-- A new server. -/
def start (setup : ServerSetup) : AsyncRun := ⟨setup.config.maxConnections, .starting, []⟩

/-- The state after an action, if the action is possible. -/
def next (setup : ServerSetup) (s : AsyncRun) : AsyncAction → Option AsyncRun
  | .setUp result =>
    match s.loop with
    | .starting =>
      match result with
      | .ok _ =>
        if maxPermits < setup.config.maxConnections then some { s with loop := .panicked }
        else some { s with loop := .waiting }
      | .error err => some { s with loop := .returned (.error err) }
    | _ => none
  | .accept result =>
    match s.loop with
    | .waiting =>
      match result with
      | .ok peer => some { s with loop := .accepted peer }
      | .error err => some { s with loop := .returned (.error err) }
    | _ => none
  | .signal value =>
    match s.loop with
    | .waiting =>
      if setup.untilShutdown then
        match value with
        | some false => some s
        | _ => some { s with loop := .draining }
      else none
    | _ => none
  | .advance =>
    match s.loop with
    | .accepted peer =>
      if 0 < s.permits then some { s with permits := s.permits - 1, loop := .permitted peer }
      else some { s with loop := .waiting }
    | .draining =>
      if setup.config.maxConnections < UInt32.size then
        some { s with loop := .acquiring setup.config.maxConnections }
      else
        let err := SynError.runtime "max_connections exceeds async shutdown limit".toList
        some { s with loop := .returned (.error err) }
    | .acquiring permits =>
      -- the permits are dropped again before `Ok` is returned
      if permits ≤ s.permits then some { s with loop := .returned (.ok ()) } else none
    | _ => none
  | .reserve result =>
    match s.loop with
    | .permitted peer =>
      match result with
      | .ok _ => some { s with loop := .waiting, tasks := s.tasks ++ [.running peer] }
      | .error _ => some { s with permits := s.permits + 1, loop := .waiting }
    | _ => none
  | .complete k env =>
    match s.tasks[k]? with
    | some (.running peer) =>
      let outcome := handleAsyncConnection setup.tlsBackend setup.config env
      some { s with tasks := s.tasks.set k (.ending peer (.completed outcome)) }
    | _ => none
  | .timeout k =>
    match s.tasks[k]? with
    | some (.running peer) => some { s with tasks := s.tasks.set k (.ending peer .timedOut) }
    | _ => none
  | .drop k =>
    match s.tasks[k]? with
    | some (.ending _ _) =>
      some { s with permits := s.permits + 1, tasks := s.tasks.set k .finished }
    | _ => none

/-- The runs of an async server. -/
def system (setup : ServerSetup) : Transition.System AsyncRun AsyncAction :=
  .ofFn (start setup) (next setup)

/-- The connections admitted past the limit and not finished: about to be reserved, or with a
task that has not ended. -/
def admitted (s : AsyncRun) : ℕ := s.loop.admits + s.tasks.countP Task.hasPermit

/-! ## What a step does -/

/-- The steps, one by one. -/
inductive Steps (setup : ServerSetup) (s : AsyncRun) : AsyncRun → Prop
  /-- The accept loop moves without a connection that has a permit. -/
  | move {loop : AcceptLoop} (hbefore : s.loop.admits = 0) (hafter : loop.admits = 0)
      (hacquiring : ∀ permits, loop = .acquiring permits → permits = setup.config.maxConnections)
      (hok : loop = .returned (.ok ()) →
        ∃ permits, s.loop = .acquiring permits ∧ permits ≤ s.permits) :
      Steps setup s { s with loop }
  | stay : Steps setup s s
  | permit {peer : SocketAddr} (hloop : s.loop = .accepted peer) (hfree : 0 < s.permits) :
      Steps setup s { s with permits := s.permits - 1, loop := .permitted peer }
  | spawn {peer : SocketAddr} (hloop : s.loop = .permitted peer) :
      Steps setup s { s with loop := .waiting, tasks := s.tasks ++ [.running peer] }
  | refuse {peer : SocketAddr} (hloop : s.loop = .permitted peer) :
      Steps setup s { s with permits := s.permits + 1, loop := .waiting }
  | ends {k : ℕ} {peer : SocketAddr} {how : TaskEnd} (htask : s.tasks[k]? = some (.running peer)) :
      Steps setup s { s with tasks := s.tasks.set k (.ending peer how) }
  | drop {k : ℕ} {peer : SocketAddr} {how : TaskEnd}
      (htask : s.tasks[k]? = some (.ending peer how)) :
      Steps setup s { s with permits := s.permits + 1, tasks := s.tasks.set k .finished }

variable {setup : ServerSetup} {s s' : AsyncRun}

/-- A move of the accept loop that neither begins nor ends the wait for all permits. -/
theorem Steps.move_of_ne {loop : AcceptLoop} (hbefore : s.loop.admits = 0)
    (hafter : loop.admits = 0) (hacquiring : ∀ permits, loop ≠ .acquiring permits)
    (hok : loop ≠ .returned (.ok ())) : Steps setup s { s with loop } :=
  .move hbefore hafter (fun permits h => absurd h (hacquiring permits)) fun h => absurd h hok

/-- The steps are all that a server does. -/
theorem steps_of_next {a : AsyncAction} (h : next setup s a = some s') : Steps setup s s' := by
  cases a with
  | setUp result =>
    simp only [next] at h
    split at h
    · rename_i hloop
      have hbefore : s.loop.admits = 0 := by rw [hloop]; rfl
      cases result with
      | ok _ =>
        simp only at h
        split_ifs at h
        · cases h
          exact .move_of_ne hbefore rfl nofun nofun
        · cases h
          exact .move_of_ne hbefore rfl nofun nofun
      | error err =>
        cases h
        exact .move_of_ne hbefore rfl nofun nofun
    · cases h
  | accept result =>
    simp only [next] at h
    split at h
    · rename_i hloop
      have hbefore : s.loop.admits = 0 := by rw [hloop]; rfl
      cases result with
      | ok peer =>
        cases h
        exact .move_of_ne hbefore rfl nofun nofun
      | error err =>
        cases h
        exact .move_of_ne hbefore rfl nofun nofun
    · cases h
  | signal value =>
    simp only [next] at h
    split at h
    · rename_i hloop
      split_ifs at h
      split at h
      · cases h
        exact .stay
      · cases h
        exact .move_of_ne (by rw [hloop]; rfl) rfl nofun nofun
    · cases h
  | advance =>
    simp only [next] at h
    split at h
    · rename_i peer hloop
      split_ifs at h with hfree
      · cases h
        exact .permit hloop hfree
      · cases h
        exact .move_of_ne (by rw [hloop]; rfl) rfl nofun nofun
    · rename_i hloop
      split_ifs at h with hsize
      · cases h
        exact .move (by rw [hloop]; rfl) rfl (fun permits h => by cases h; rfl) nofun
      · cases h
        exact .move_of_ne (by rw [hloop]; rfl) rfl nofun nofun
    · rename_i permits hloop
      split_ifs at h with hfree
      cases h
      exact .move (by rw [hloop]; rfl) rfl nofun fun _ => ⟨permits, hloop, hfree⟩
    · cases h
  | reserve result =>
    simp only [next] at h
    split at h
    · rename_i peer hloop
      cases result with
      | ok _ =>
        cases h
        exact .spawn hloop
      | error err =>
        cases h
        exact .refuse hloop
    · cases h
  | complete k env =>
    simp only [next] at h
    split at h
    · rename_i peer htask
      cases h
      exact .ends htask
    · cases h
  | timeout k =>
    simp only [next] at h
    split at h
    · rename_i peer htask
      cases h
      exact .ends htask
    · cases h
  | drop k =>
    simp only [next] at h
    split at h
    · rename_i peer how htask
      cases h
      exact .drop htask
    · cases h

/-! ## Permits and admitted connections -/

/-- What holds in every run: the free permits and the admitted connections add up to the limit;
the loop waits for as many permits as there are; and when it has returned `Ok`, no connection
is admitted. -/
structure Accounted (setup : ServerSetup) (s : AsyncRun) : Prop where
  total : s.permits + s.admitted = setup.config.maxConnections
  acquiring : ∀ permits, s.loop = .acquiring permits → permits = setup.config.maxConnections
  drained : s.loop = .returned (.ok ()) → s.admitted = 0

/-- Every step keeps the accounts. -/
theorem Accounted.step (hs : s.Accounted setup) (h : Steps setup s s') : s'.Accounted setup := by
  have htotal := hs.total
  cases h with
  | move hbefore hafter hacquiring hok =>
    simp only [admitted, hbefore] at htotal
    refine ⟨?_, hacquiring, fun h => ?_⟩
    · simp only [admitted, hafter]
      exact htotal
    · obtain ⟨permits, hloop, hle⟩ := hok h
      have hall := hs.acquiring permits hloop
      simp only [admitted, hafter]
      omega
  | stay => exact hs
  | permit hloop hfree =>
    refine ⟨?_, nofun, nofun⟩
    simp only [admitted, hloop, AcceptLoop.admits] at htotal ⊢
    omega
  | spawn hloop =>
    refine ⟨?_, nofun, nofun⟩
    simp only [admitted, hloop, AcceptLoop.admits, Table.countP_append_singleton,
      show ∀ peer, (Task.running peer).hasPermit = true from fun _ => rfl,
      Bool.toNat_true] at htotal ⊢
    omega
  | refuse hloop =>
    refine ⟨?_, nofun, nofun⟩
    simp only [admitted, hloop, AcceptLoop.admits] at htotal ⊢
    omega
  | @ends k peer how htask =>
    have hsame := Table.countP_set_of_eq (y := .ending peer how) Task.hasPermit htask rfl
    refine ⟨?_, hs.acquiring, fun h => ?_⟩
    · simp only [admitted, hsame]
      exact htotal
    · simp only [admitted, hsame]
      exact hs.drained h
  | drop htask =>
    have hcount := Table.countP_set Task.hasPermit htask .finished
    simp only [show ∀ peer how, (Task.ending peer how).hasPermit = true from fun _ _ => rfl,
      show Task.finished.hasPermit = false from rfl, Bool.toNat_true, Bool.toNat_false] at hcount
    refine ⟨?_, hs.acquiring, fun h => ?_⟩
    · simp only [admitted] at htotal ⊢
      omega
    · have hdrained := hs.drained h
      simp only [admitted] at hdrained ⊢
      omega

/-- The accounts are right in every reachable state. -/
theorem accounted_of_reach (h : (system setup).Reach s) : s.Accounted setup := by
  refine h.invariant ?_ ?_
  · rintro _ rfl
    exact ⟨rfl, nofun, fun _ => rfl⟩
  · rintro s a s' - hs hstep
    exact hs.step (steps_of_next hstep)

/-- The connections admitted and not finished stay within the limit, and when the server returns
`Ok` there are none. -/
theorem admitted_le (h : (system setup).Reach s) :
    s.admitted ≤ setup.config.maxConnections ∧
      (s.loop = .returned (.ok ()) → s.admitted = 0) := by
  have hs := accounted_of_reach h
  refine ⟨?_, hs.drained⟩
  have htotal := hs.total
  omega

end AsyncRun

/-! ## Both servers -/

/-- **The connection limit and the drain**: in every reachable state of either server the
connections admitted and not finished are within `max_connections`, and there are none when the
server has returned `Ok`.

**Proof sketch.** In the sync server the counter counts all of them, and the loop admits one only
after its own increment found the counter within the limit; it returns `Ok` with the counter at
zero. In the async server each of them has a permit, and the loop returns `Ok` with all permits
free. -/
theorem admitted_le_and_drained (setup : ServerSetup) :
    (∀ s : SyncRun, (SyncRun.system setup).Reach s →
      s.admitted ≤ setup.config.maxConnections ∧
        (s.thread = .returned (.ok ()) → s.admitted = 0)) ∧
    ∀ s : AsyncRun, (AsyncRun.system setup).Reach s →
      s.admitted ≤ setup.config.maxConnections ∧
        (s.loop = .returned (.ok ()) → s.admitted = 0) :=
  ⟨fun _ h => SyncRun.admitted_le h, fun _ h => AsyncRun.admitted_le h⟩

/-- A connection is accepted, permitted and handled, and the server is shut down. -/
def drainedRun : List AsyncAction :=
  [.setUp (.ok ()), .accept (.ok (.v4 (ipv4 10 0 0 1) 1001)), .advance, .reserve (.ok ()),
    .signal (some true), .advance, .timeout 0, .drop 0, .advance]

/-- Both servers after a connection: the sync one has it queued, the async one has returned. -/
theorem admitted_le_and_drained_one_connection :
    (Transition.System.after (SyncRun.next ⟨⟨1, 1, false, .tcp⟩, true, true⟩)
      (SyncRun.start ⟨⟨1, 1, false, .tcp⟩, true, true⟩) (SyncRun.panicRun.take 6)).admitted ≤ 1 ∧
    (Transition.System.after (AsyncRun.next ⟨⟨1, 1, false, .tcp⟩, true, true⟩)
      (AsyncRun.start ⟨⟨1, 1, false, .tcp⟩, true, true⟩) drainedRun).admitted = 0 := by
  have h := admitted_le_and_drained ⟨⟨1, 1, false, .tcp⟩, true, true⟩
  exact ⟨(h.1 _ (Transition.System.reach_after (.init rfl) fun _ _ _ _ hnext => hnext)).1,
    (h.2 _ (Transition.System.reach_after (.init rfl) fun _ _ _ _ hnext => hnext)).2
      (by decide +kernel)⟩

end Synclaire
