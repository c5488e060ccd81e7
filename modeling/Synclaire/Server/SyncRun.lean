import Synclaire.Lib.Table
import Synclaire.Lib.Transition
import Synclaire.Server.Handling
import Synclaire.Values

set_option relaxedAutoImplicit false
set_option autoImplicit false

/-!
# The accept loop and the worker pool of the sync server

One thread accepts connections, counts them in `active_connections` and sends them as jobs to a
pool of workers. A worker handles one job after the other and takes each from the count when it
is done. A handler that panics ends its worker, and its job stays counted.

## Main definitions

* `Synclaire.SyncRun` — `run_internal`, the counter, the queue and the workers.
* `Synclaire.SyncRun.next`, `Synclaire.SyncRun.system` — the step function and the runs.
* `Synclaire.SyncRun.admitted` — the connections admitted past the limit and not finished.
* `Synclaire.SyncRun.Settled` — nothing is being admitted, queued or handled.

## Main results

* `Synclaire.SyncRun.accounted_of_reach` — the counter counts the connections in progress and
  those that panics have lost.
* `Synclaire.SyncRun.admitted_le` — the limit, and the drained state after `Ok`.
* `Synclaire.SyncRun.intact_iff` — the counter and the workers are intact iff no handler has
  panicked.
* `Synclaire.SyncRun.exists_returned` — an intact server can shut down.

## Implementation notes

The counter is an integer, so that a `fetch_sub` below zero would show. Only one worker at a time
waits in `recv`, with the lock of the receiver, and the others wait for the lock: whichever gets
the next job is a waiting worker. The last worker that ends drops the receiver, and the jobs in
it. A function that returns drops the pool, which joins the workers.
-/

namespace Synclaire

/-- Where `run_internal` is. -/
inductive AcceptThread
  /-- The listener is being set up. -/
  | starting
  /-- At the head of the loop, where the shutdown signal is read. -/
  | looping
  | accepting
  | accepted (peer : SocketAddr)
  /-- `fetch_add` returned, `permit` being one more than its result. -/
  | counted (peer : SocketAddr) (permit : ℤ)
  /-- Admitted; `execute` is to be called. -/
  | sending (peer : SocketAddr)
  /-- `execute` has failed; the count is to be taken back. -/
  | unsent
  /-- The loop was left; waiting for the count to be zero. -/
  | draining
  /-- The function has its result; the sender was dropped and the workers are joined. -/
  | leaving (result : Except SynError Unit)
  | returned (result : Except SynError Unit)
  deriving DecidableEq

/-- Where a worker of the pool is. -/
inductive Worker
  /-- Waiting for the lock or for a job. -/
  | waiting
  | running (peer : SocketAddr)
  /-- `handle_sync_connection` has returned; the count is to be taken back. -/
  | finishing (peer : SocketAddr)
  | panicked
  /-- The channel was closed and empty. -/
  | exited
  deriving DecidableEq

/-- What `listener.accept` returns. -/
inductive AcceptOutcome
  | stream (peer : SocketAddr)
  | wouldBlock (message : Str)
  | error (message : Str)
  deriving DecidableEq

/-- A `SyncServer` that runs. -/
structure SyncRun where
  /-- `active_connections`. -/
  active : ℤ
  stop : Bool
  thread : AcceptThread
  /-- The jobs in the channel. -/
  queue : List SocketAddr
  workers : List Worker
  /-- The jobs that were dropped with the receiver. -/
  discarded : ℕ
  deriving DecidableEq

/-- A step of a running server. -/
inductive SyncAction
  /-- The listener is bound and made non-blocking, or that fails. -/
  | setUp (result : Except SynError Unit)
  /-- `SyncServerShutdown::shutdown`. -/
  | requestShutdown
  | accept (outcome : AcceptOutcome)
  /-- The accept thread goes on. -/
  | advance
  /-- Worker `w` receives a job. -/
  | take (w : ℕ)
  /-- `handle_sync_connection` of worker `w` ends. -/
  | handle (w : ℕ) (env : ConnectionEnv)
  /-- Worker `w` takes the count back. -/
  | finish (w : ℕ)
  /-- Worker `w` finds the channel closed. -/
  | exit (w : ℕ)
  deriving DecidableEq

namespace Worker

/-- The worker handles a connection that is counted. -/
def isBusy : Worker → Bool
  | running _ | finishing _ => true
  | _ => false

/-- The worker thread has not ended. -/
def isAlive : Worker → Bool
  | waiting | running _ | finishing _ => true
  | _ => false

/-- The worker is gone after a panic. -/
def isPanicked : Worker → Bool
  | panicked => true
  | _ => false

/-- The worker has left its loop. -/
def isExited : Worker → Bool
  | exited => true
  | _ => false

end Worker

namespace AcceptThread

/-- A connection of the thread is in the count. -/
def counts : AcceptThread → ℕ
  | counted _ _ | sending _ | unsent => 1
  | _ => 0

/-- A connection of the thread was admitted. -/
def admits : AcceptThread → ℕ
  | sending _ | unsent => 1
  | _ => 0

/-- The pool was not dropped. -/
def isServing : AcceptThread → Bool
  | leaving _ | returned _ => false
  | _ => true

end AcceptThread

namespace SyncRun

/-- A new server, `ThreadPool::new` included. -/
def start (setup : ServerSetup) : SyncRun where
  active := 0
  stop := false
  thread := .starting
  queue := []
  workers := List.replicate (max 1 setup.config.workerThreads) .waiting
  discarded := 0

/-- Some worker has the receiver. -/
def hasReceiver (s : SyncRun) : Bool := s.workers.any Worker.isAlive

/-- The receiver is dropped with the last worker, and with it the jobs in the channel. -/
def dropReceiver (s : SyncRun) : SyncRun :=
  if s.hasReceiver then s
  else { s with queue := [], discarded := s.discarded + s.queue.length }

/-- The accept thread goes on, where it does not depend on the listener. -/
def advance (setup : ServerSetup) (s : SyncRun) : Option SyncRun :=
  match s.thread with
  | .looping =>
    if setup.untilShutdown ∧ s.stop then some { s with thread := .draining }
    else some { s with thread := .accepting }
  | .accepted peer =>
    let permit := s.active + 1
    some { s with active := permit, thread := .counted peer permit }
  | .counted peer permit =>
    if setup.config.maxConnections < permit then
      some { s with active := s.active - 1, thread := .looping }
    else some { s with thread := .sending peer }
  | .sending peer =>
    if s.hasReceiver then some { s with queue := s.queue ++ [peer], thread := .looping }
    else some { s with thread := .unsent }
  | .unsent =>
    some { s with
      active := s.active - 1
      thread := .leaving (.error (.runtime "sending on a closed channel".toList)) }
  | .draining => if 0 < s.active then some s else some { s with thread := .leaving (.ok ()) }
  | .leaving result =>
    if s.hasReceiver then none else some { s with thread := .returned result }
  | _ => none

/-- The state after an action, if the action is possible. -/
def next (setup : ServerSetup) (s : SyncRun) : SyncAction → Option SyncRun
  | .setUp result =>
    match s.thread with
    | .starting =>
      match result with
      | .ok _ => some { s with thread := .looping }
      | .error err => some { s with thread := .leaving (.error err) }
    | _ => none
  | .requestShutdown => some { s with stop := true }
  | .accept outcome =>
    match s.thread with
    | .accepting =>
      match outcome with
      | .stream peer => some { s with thread := .accepted peer }
      | .wouldBlock message =>
        if setup.untilShutdown then some { s with thread := .looping }
        else some { s with thread := .leaving (.error (.io message)) }
      | .error message => some { s with thread := .leaving (.error (.io message)) }
    | _ => none
  | .advance => advance setup s
  | .take w =>
    match s.workers[w]?, s.queue with
    | some .waiting, peer :: queue =>
      some { s with queue, workers := s.workers.set w (.running peer) }
    | _, _ => none
  | .handle w env =>
    match s.workers[w]? with
    | some (.running peer) =>
      match handleSyncConnection setup.tlsBackend setup.config env with
      | .returned _ => some { s with workers := s.workers.set w (.finishing peer) }
      | .panicked => some (dropReceiver { s with workers := s.workers.set w .panicked })
    | _ => none
  | .finish w =>
    match s.workers[w]? with
    | some (.finishing _) =>
      some { s with active := s.active - 1, workers := s.workers.set w .waiting }
    | _ => none
  | .exit w =>
    match s.workers[w]?, s.queue with
    | some .waiting, [] =>
      if s.thread.isServing then none else some { s with workers := s.workers.set w .exited }
    | _, _ => none

/-- The runs of a sync server. -/
def system (setup : ServerSetup) : Transition.System SyncRun SyncAction :=
  .ofFn (start setup) (next setup)

/-- The workers that handle a connection. -/
def busy (s : SyncRun) : ℕ := s.workers.countP Worker.isBusy

/-- The workers that can take jobs, now or when they have handled one. -/
def alive (s : SyncRun) : ℕ := s.workers.countP Worker.isAlive

/-- The workers whose handler has panicked. -/
def panicked (s : SyncRun) : ℕ := s.workers.countP Worker.isPanicked

/-- The connections admitted past the limit and not finished: about to be queued, queued, or
being handled. -/
def admitted (s : SyncRun) : ℕ := s.thread.admits + s.queue.length + s.busy

/-- No connection is being admitted, queued or handled. -/
def Settled (s : SyncRun) : Prop := s.thread.counts = 0 ∧ s.queue = [] ∧ s.busy = 0

/-! ## What a step does -/

/-- The steps, one by one. -/
inductive Steps (setup : ServerSetup) (s : SyncRun) : SyncAction → SyncRun → Prop
  | requestShutdown : Steps setup s .requestShutdown { s with stop := true }
  /-- The accept thread moves without a connection in the count before or after. -/
  | move {a : SyncAction} {thread : AcceptThread} (haction : ∀ w env, a ≠ .handle w env)
      (hbefore : s.thread.counts = 0) (hafter : thread.counts = 0)
      (hserving : s.thread.isServing = true)
      (hok : thread = .leaving (.ok ()) → s.active ≤ 0)
      (hreturned : ∀ result, thread ≠ .returned result) :
      Steps setup s a { s with thread }
  | add {peer : SocketAddr} (hthread : s.thread = .accepted peer) :
      Steps setup s .advance
        { s with active := s.active + 1, thread := .counted peer (s.active + 1) }
  | reject {peer : SocketAddr} {permit : ℤ} (hthread : s.thread = .counted peer permit)
      (hlimit : setup.config.maxConnections < permit) :
      Steps setup s .advance { s with active := s.active - 1, thread := .looping }
  | enter {peer : SocketAddr} {permit : ℤ} (hthread : s.thread = .counted peer permit)
      (hlimit : permit ≤ setup.config.maxConnections) :
      Steps setup s .advance { s with thread := .sending peer }
  | send {peer : SocketAddr} (hthread : s.thread = .sending peer)
      (hreceiver : s.hasReceiver = true) :
      Steps setup s .advance { s with queue := s.queue ++ [peer], thread := .looping }
  | sendFailed {peer : SocketAddr} (hthread : s.thread = .sending peer)
      (hreceiver : s.hasReceiver = false) :
      Steps setup s .advance { s with thread := .unsent }
  | undo (hthread : s.thread = .unsent) :
      Steps setup s .advance { s with
        active := s.active - 1
        thread := .leaving (.error (.runtime "sending on a closed channel".toList)) }
  | wait (hthread : s.thread = .draining) : Steps setup s .advance s
  | join {result : Except SynError Unit} (hthread : s.thread = .leaving result)
      (hreceiver : s.hasReceiver = false) :
      Steps setup s .advance { s with thread := .returned result }
  | take {w : ℕ} {peer : SocketAddr} {queue : List SocketAddr}
      (hworker : s.workers[w]? = some .waiting) (hqueue : s.queue = peer :: queue) :
      Steps setup s (.take w) { s with queue, workers := s.workers.set w (.running peer) }
  | handle {w : ℕ} {env : ConnectionEnv} {peer : SocketAddr}
      (hworker : s.workers[w]? = some (.running peer))
      (houtcome : handleSyncConnection setup.tlsBackend setup.config env ≠ .panicked) :
      Steps setup s (.handle w env) { s with workers := s.workers.set w (.finishing peer) }
  | panic {w : ℕ} {env : ConnectionEnv} {peer : SocketAddr}
      (hworker : s.workers[w]? = some (.running peer))
      (houtcome : handleSyncConnection setup.tlsBackend setup.config env = .panicked) :
      Steps setup s (.handle w env)
        (dropReceiver { s with workers := s.workers.set w .panicked })
  | finish {w : ℕ} {peer : SocketAddr} (hworker : s.workers[w]? = some (.finishing peer)) :
      Steps setup s (.finish w)
        { s with active := s.active - 1, workers := s.workers.set w .waiting }
  | exit {w : ℕ} (hworker : s.workers[w]? = some .waiting) (hqueue : s.queue = [])
      (hserving : s.thread.isServing = false) :
      Steps setup s (.exit w) { s with workers := s.workers.set w .exited }

/-- A move of the accept thread from a place where it holds no connection to another such place,
which is neither the way out of a completed drain nor the end. -/
theorem Steps.move_of_ne {setup : ServerSetup} {s : SyncRun} {a : SyncAction}
    {before thread : AcceptThread} (haction : ∀ w env, a ≠ .handle w env)
    (hthread : s.thread = before) (hbefore : before.counts = 0)
    (hserving : before.isServing = true) (hafter : thread.counts = 0)
    (hok : thread ≠ .leaving (.ok ())) (hreturned : ∀ result, thread ≠ .returned result) :
    Steps setup s a { s with thread } := by
  subst hthread
  exact .move haction hbefore hafter hserving (fun h => absurd h hok) hreturned

/-- The steps are all that `advance` does. -/
theorem steps_of_advance {setup : ServerSetup} {s s' : SyncRun} (h : advance setup s = some s') :
    Steps setup s .advance s' := by
  unfold advance at h
  cases hthread : s.thread with
  | looping =>
    simp only [hthread] at h
    split_ifs at h
    all_goals
      cases h
      exact .move_of_ne (fun _ _ h => by cases h) hthread rfl rfl rfl nofun nofun
  | accepted peer =>
    simp only [hthread] at h
    cases h
    exact .add hthread
  | counted peer permit =>
    simp only [hthread] at h
    split_ifs at h with hlimit
    · cases h
      exact .reject hthread hlimit
    · cases h
      exact .enter hthread (not_lt.mp hlimit)
  | sending peer =>
    simp only [hthread] at h
    split_ifs at h with hreceiver
    · cases h
      exact .send hthread hreceiver
    · cases h
      exact .sendFailed hthread (Bool.eq_false_iff.mpr hreceiver)
  | unsent =>
    simp only [hthread] at h
    cases h
    exact .undo hthread
  | draining =>
    simp only [hthread] at h
    split_ifs at h with hactive
    · cases h
      exact .wait hthread
    · cases h
      exact .move (fun _ _ h => by cases h) (by rw [hthread]; rfl) rfl (by rw [hthread]; rfl)
        (fun _ => not_lt.mp hactive) nofun
  | leaving result =>
    simp only [hthread] at h
    split_ifs at h with hreceiver
    cases h
    exact .join hthread (Bool.eq_false_iff.mpr hreceiver)
  | _ =>
    simp only [hthread] at h
    cases h

/-- The steps are all that a server does. -/
theorem steps_of_next {setup : ServerSetup} {s s' : SyncRun} {a : SyncAction}
    (h : next setup s a = some s') : Steps setup s a s' := by
  cases a with
  | setUp result =>
    simp only [next] at h
    split at h
    · rename_i hthread
      cases result with
      | ok _ =>
        cases h
        exact .move_of_ne (fun _ _ h => by cases h) hthread rfl rfl rfl nofun nofun
      | error err =>
        cases h
        exact .move_of_ne (fun _ _ h => by cases h) hthread rfl rfl rfl nofun nofun
    · cases h
  | requestShutdown =>
    cases h
    exact .requestShutdown
  | accept outcome =>
    simp only [next] at h
    split at h
    · rename_i hthread
      split at h
      · cases h
        exact .move_of_ne (fun _ _ h => by cases h) hthread rfl rfl rfl nofun nofun
      · split_ifs at h
        · cases h
          exact .move_of_ne (fun _ _ h => by cases h) hthread rfl rfl rfl nofun nofun
        · cases h
          exact .move_of_ne (fun _ _ h => by cases h) hthread rfl rfl rfl nofun nofun
      · cases h
        exact .move_of_ne (fun _ _ h => by cases h) hthread rfl rfl rfl nofun nofun
    · cases h
  | advance => exact steps_of_advance h
  | take w =>
    simp only [next] at h
    split at h
    · rename_i hworker hqueue
      cases h
      exact .take hworker hqueue
    · cases h
  | handle w env =>
    simp only [next] at h
    split at h
    · rename_i peer hworker
      split at h
      · rename_i result houtcome
        cases h
        exact .handle hworker (by rw [houtcome]; simp)
      · rename_i houtcome
        cases h
        exact .panic hworker houtcome
    · cases h
  | finish w =>
    simp only [next] at h
    split at h
    · rename_i peer hworker
      cases h
      exact .finish hworker
    · cases h
  | exit w =>
    simp only [next] at h
    split at h
    · rename_i hworker hqueue
      split_ifs at h with hserving
      cases h
      exact .exit hworker hqueue (Bool.eq_false_iff.mpr hserving)
    · cases h

/-! ## The counter accounts for every connection -/

/-- The workers that have found the channel closed. -/
def exited (s : SyncRun) : ℕ := s.workers.countP Worker.isExited

/-- What holds in every run: the counter counts the connections in progress and those that were
lost with a worker or with the receiver; those admitted are within the limit, and so is one that
is about to be; jobs are lost only after a panic; workers leave only after the sender was
dropped; and the loop returns `Ok` with the counter at zero. -/
structure Accounted (setup : ServerSetup) (s : SyncRun) : Prop where
  workers : s.workers.length = max 1 setup.config.workerThreads
  active : s.active =
    (s.thread.counts + s.queue.length + s.busy + s.panicked + s.discarded : ℕ)
  limit : s.admitted ≤ setup.config.maxConnections
  permit : ∀ peer permit, s.thread = .counted peer permit →
    ((s.queue.length + s.busy + 1 : ℕ) : ℤ) ≤ permit
  discarded : 0 < s.discarded → 0 < s.panicked
  stays : s.thread.isServing = true → s.exited = 0
  drained : s.thread = .leaving (.ok ()) ∨ s.thread = .returned (.ok ()) → s.active ≤ 0

variable {setup : ServerSetup} {s s' : SyncRun}

/-- How the counts of the workers change with one of them. -/
theorem counts_set {w : ℕ} {old : Worker} (hworker : s.workers[w]? = some old) (new : Worker) :
    (s.workers.set w new).countP Worker.isBusy + old.isBusy.toNat = s.busy + new.isBusy.toNat ∧
      (s.workers.set w new).countP Worker.isPanicked + old.isPanicked.toNat =
        s.panicked + new.isPanicked.toNat ∧
      (s.workers.set w new).countP Worker.isExited + old.isExited.toNat =
        s.exited + new.isExited.toNat :=
  ⟨Table.countP_set _ hworker new, Table.countP_set _ hworker new, Table.countP_set _ hworker new⟩

/-- The admitted connections of the thread are in the count. -/
theorem admits_le_counts (thread : AcceptThread) : thread.admits ≤ thread.counts := by
  cases thread <;> exact Nat.le_of_ble_eq_true rfl

/-- A step of the accept thread that changes the counter as it changes its own connections and
the queue keeps the accounts. -/
theorem Accounted.thread (hs : s.Accounted setup) {active : ℤ} {thread : AcceptThread}
    {queue : List SocketAddr}
    (hactive : active + (s.thread.counts + s.queue.length) =
      s.active + (thread.counts + queue.length))
    (hlimit : thread.admits + queue.length ≤ s.thread.admits + s.queue.length ∨
      ∃ peer permit, s.thread = .counted peer permit ∧ permit ≤ setup.config.maxConnections ∧
        thread.admits + queue.length ≤ s.queue.length + 1)
    (hpermit : ∀ peer permit, thread = .counted peer permit →
      permit = s.active + 1 ∧ queue.length ≤ s.queue.length)
    (hserving : thread.isServing = true → s.thread.isServing = true)
    (hok : thread = .leaving (.ok ()) ∨ thread = .returned (.ok ()) → active ≤ 0) :
    Accounted setup { s with active, thread, queue } := by
  have hact := hs.active
  have hlim := hs.limit
  refine ⟨hs.workers, ?_, ?_, fun peer permit heq => ?_, hs.discarded,
    fun h => hs.stays (hserving h), hok⟩
  · simp only [busy, panicked] at hact ⊢
    omega
  · simp only [admitted, busy] at hlim ⊢
    rcases hlimit with hle | ⟨peer, permit, heq, hfits, hle⟩
    · omega
    · have hold := hs.permit peer permit heq
      simp only [busy] at hold
      omega
  · obtain ⟨rfl, hle⟩ := hpermit peer permit heq
    simp only [busy] at hact ⊢
    omega

/-- A step of one worker that changes the counter as it changes what is counted keeps the
accounts. -/
theorem Accounted.worker (hs : s.Accounted setup) {w : ℕ} {old new : Worker} {active : ℤ}
    {queue : List SocketAddr} {discarded : ℕ} (hworker : s.workers[w]? = some old)
    (hactive : active + (old.isBusy.toNat + old.isPanicked.toNat + s.queue.length + s.discarded) =
      s.active + (new.isBusy.toNat + new.isPanicked.toNat + queue.length + discarded))
    (hlimit : queue.length + new.isBusy.toNat ≤ s.queue.length + old.isBusy.toNat)
    (hpanicked : old.isPanicked.toNat ≤ new.isPanicked.toNat)
    (hdiscarded : s.discarded < discarded → old.isPanicked = false ∧ new.isPanicked = true)
    (hexited : s.thread.isServing = true → new.isExited = false)
    (hle : active ≤ s.active) :
    Accounted setup { s with active, queue, discarded, workers := s.workers.set w new } := by
  obtain ⟨hbusy, hpan, hex⟩ := counts_set hworker new
  have hact := hs.active
  have hlim := hs.limit
  refine ⟨?_, ?_, ?_, fun peer permit hthread => ?_, fun hpos => ?_, fun hserving => ?_,
    fun h => hle.trans (hs.drained h)⟩
  · rw [List.length_set]
    exact hs.workers
  · simp only [busy, panicked] at hact hbusy hpan ⊢
    omega
  · simp only [admitted, busy] at hlim hbusy ⊢
    omega
  · have hpermit := hs.permit peer permit hthread
    simp only [busy] at hpermit hbusy ⊢
    omega
  · have hold := hs.discarded
    simp only [panicked] at hold hpan hpos ⊢
    rcases Nat.lt_or_ge s.discarded discarded with hlt | hge
    · obtain ⟨hbefore, hafter⟩ := hdiscarded hlt
      rw [hbefore, hafter, Bool.toNat_false, Bool.toNat_true] at hpan
      omega
    · omega
  · have hold := hs.stays hserving
    have hnew := hexited hserving
    unfold exited at hold hex ⊢
    simp only [hnew, Bool.toNat_false] at hex ⊢
    omega

/-- Every step keeps the accounts. -/
theorem Accounted.step (hs : s.Accounted setup) {a : SyncAction} (h : Steps setup s a s') :
    s'.Accounted setup := by
  cases h with
  | requestShutdown => exact ⟨hs.workers, hs.active, hs.limit, hs.permit, hs.discarded, hs.stays,
      hs.drained⟩
  | @move _ thread haction hbefore hafter hserving hok hreturned =>
    have hadmits := admits_le_counts thread
    refine hs.thread (by rw [hbefore, hafter]) (.inl (by omega)) ?_ (fun _ => hserving) ?_
    · rintro peer permit rfl
      cases hafter
    · exact fun h => h.elim hok fun h => absurd h (hreturned _)
  | add hthread =>
    refine hs.thread ?_ (.inl ?_) ?_ (fun _ => by rw [hthread]; rfl) ?_
    · rw [hthread]
      simp only [AcceptThread.counts]
      omega
    · simp [AcceptThread.admits]
    · rintro peer permit heq
      cases heq
      exact ⟨rfl, le_rfl⟩
    · rintro (heq | heq) <;> cases heq
  | reject hthread hover =>
    refine hs.thread ?_ (.inl ?_) nofun (fun _ => by rw [hthread]; rfl) ?_
    · rw [hthread]
      simp only [AcceptThread.counts]
      omega
    · simp [AcceptThread.admits]
    · rintro (heq | heq) <;> cases heq
  | enter hthread hfits =>
    refine hs.thread ?_ (.inr ⟨_, _, hthread, hfits, ?_⟩) nofun
      (fun _ => by rw [hthread]; rfl) ?_
    · rw [hthread]
      rfl
    · simp only [AcceptThread.admits]
      omega
    · rintro (heq | heq) <;> cases heq
  | send hthread hreceiver =>
    refine hs.thread ?_ (.inl ?_) nofun (fun _ => by rw [hthread]; rfl) ?_
    · rw [hthread]
      simp only [AcceptThread.counts, List.length_append, List.length_singleton]
      omega
    · rw [hthread]
      simp only [AcceptThread.admits, List.length_append, List.length_singleton]
      omega
    · rintro (heq | heq) <;> cases heq
  | sendFailed hthread hreceiver =>
    refine hs.thread ?_ (.inl ?_) nofun (fun _ => by rw [hthread]; rfl) ?_
    · rw [hthread]
      rfl
    · rw [hthread]
      exact le_rfl
    · rintro (heq | heq) <;> cases heq
  | undo hthread =>
    refine hs.thread ?_ (.inl ?_) nofun (fun _ => by rw [hthread]; rfl) ?_
    · rw [hthread]
      simp only [AcceptThread.counts]
      omega
    · simp [AcceptThread.admits]
    · rintro (heq | heq) <;> cases heq
  | wait hthread => exact hs
  | @join result hthread hreceiver =>
    refine hs.thread ?_ (.inl ?_) nofun nofun ?_
    · rw [hthread]
      rfl
    · rw [hthread]
      exact le_rfl
    · rintro (heq | heq)
      · cases heq
      · cases heq
        exact hs.drained (.inl hthread)
  | take hworker hqueue =>
    have hlen := congrArg List.length hqueue
    rw [List.length_cons] at hlen
    exact hs.worker hworker (by simp [Worker.isBusy, Worker.isPanicked]; omega)
      (by simp [Worker.isBusy]; omega) le_rfl (fun h => absurd h (lt_irrefl _)) (fun _ => rfl)
      le_rfl
  | handle hworker houtcome =>
    exact hs.worker hworker (by simp [Worker.isBusy, Worker.isPanicked])
      (by simp [Worker.isBusy]) le_rfl (fun h => absurd h (lt_irrefl _)) (fun _ => rfl) le_rfl
  | panic hworker houtcome =>
    unfold dropReceiver
    split_ifs
    · exact hs.worker hworker (by simp [Worker.isBusy, Worker.isPanicked])
        (by simp [Worker.isBusy]) (by simp [Worker.isPanicked]) (fun h => absurd h (lt_irrefl _))
        (fun _ => rfl) le_rfl
    · exact hs.worker hworker (by simp [Worker.isBusy, Worker.isPanicked]; omega)
        (by simp [Worker.isBusy]) (by simp [Worker.isPanicked]) (fun _ => ⟨rfl, rfl⟩)
        (fun _ => rfl) le_rfl
  | finish hworker =>
    exact hs.worker hworker (by simp [Worker.isBusy, Worker.isPanicked]; omega)
      (by simp [Worker.isBusy]) le_rfl (fun h => absurd h (lt_irrefl _)) (fun _ => rfl) (by omega)
  | exit hworker hqueue hserving =>
    exact hs.worker hworker (by simp [Worker.isBusy, Worker.isPanicked])
      (by simp [Worker.isBusy]) le_rfl (fun h => absurd h (lt_irrefl _))
      (fun h => by rw [hserving] at h; cases h) le_rfl

/-- The accounts are right in every reachable state. -/
theorem accounted_of_reach (h : (system setup).Reach s) : s.Accounted setup := by
  refine h.invariant ?_ ?_
  · rintro _ rfl
    have hzero : ∀ p : Worker → Bool, p .waiting = false →
        (List.replicate (max 1 setup.config.workerThreads) Worker.waiting).countP p = 0 := by
      intro p hp
      rw [List.countP_replicate, hp]
      rfl
    refine ⟨List.length_replicate, ?_, ?_, nofun,
      fun h => absurd h (lt_irrefl _), fun _ => hzero _ rfl, ?_⟩
    · simp only [start, busy, panicked, hzero Worker.isBusy rfl, hzero Worker.isPanicked rfl]
      rfl
    · simp only [start, admitted, busy, hzero Worker.isBusy rfl]
      exact Nat.zero_le _
    · rintro (h | h) <;> cases h
  · rintro s a s' - hs hstep
    exact hs.step (steps_of_next hstep)

/-! ## The connection limit and the drained state -/

/-- The connections admitted and not finished stay within the limit, and when the server returns
`Ok` there are none. -/
theorem admitted_le (h : (system setup).Reach s) :
    s.admitted ≤ setup.config.maxConnections ∧
      (s.thread = .returned (.ok ()) → s.admitted = 0) := by
  have hs := accounted_of_reach h
  refine ⟨hs.limit, fun hreturned => ?_⟩
  have hactive := hs.active
  have hdrained := hs.drained (.inr hreturned)
  rw [admitted, hreturned]
  simp only [AcceptThread.admits]
  omega

/-- A server that returns `Ok` has had no panic. -/
theorem panicked_eq_zero_of_returned (h : (system setup).Reach s)
    (hreturned : s.thread = .returned (.ok ())) : s.panicked = 0 := by
  have hs := accounted_of_reach h
  have hactive := hs.active
  have hdrained := hs.drained (.inr hreturned)
  omega

/-! ## What a panic leaves behind -/

/-- A handler panics in the step. -/
def Panics (setup : ServerSetup) (x : Transition.Taken SyncRun SyncAction) : Prop :=
  ∃ w env, x.label = .handle w env ∧
    handleSyncConnection setup.tlsBackend setup.config env = .panicked

/-- One more worker has panicked after a step if a handler panics in it, and as many as before
if not. -/
theorem panicked_step {a : SyncAction} (h : Steps setup s a s') :
    (s'.panicked = s.panicked ∧ ¬ Panics setup ⟨s, a, s'⟩) ∨
      (s'.panicked = s.panicked + 1 ∧ Panics setup ⟨s, a, s'⟩) := by
  have hset : ∀ {w : ℕ} {old new : Worker}, s.workers[w]? = some old →
      new.isPanicked = old.isPanicked →
      (s.workers.set w new).countP Worker.isPanicked = s.panicked := fun hworker hsame =>
    Table.countP_set_of_eq _ hworker hsame
  have hlabel : ∀ {a : SyncAction}, (∀ w env, a ≠ .handle w env) →
      ∀ s', ¬ Panics setup ⟨s, a, s'⟩ := by
    rintro a ha s' ⟨w, env, hw, -⟩
    exact ha w env hw
  cases h with
  | panic hworker houtcome =>
    refine .inr ⟨?_, _, _, rfl, houtcome⟩
    have hcount := Table.countP_set Worker.isPanicked hworker .panicked
    have hdrop : ∀ t : SyncRun, (dropReceiver t).workers = t.workers := by
      intro t
      unfold dropReceiver
      split_ifs <;> rfl
    rw [panicked, hdrop]
    exact hcount
  | handle hworker houtcome =>
    refine .inl ⟨hset hworker rfl, ?_⟩
    rintro ⟨w, env, hw, hpanics⟩
    cases hw
    exact houtcome hpanics
  | take hworker hqueue => exact .inl ⟨hset hworker rfl, hlabel (fun _ _ h => by cases h) _⟩
  | finish hworker => exact .inl ⟨hset hworker rfl, hlabel (fun _ _ h => by cases h) _⟩
  | exit hworker hqueue hserving =>
    exact .inl ⟨hset hworker rfl, hlabel (fun _ _ h => by cases h) _⟩
  | move haction => exact .inl ⟨rfl, hlabel haction _⟩
  | _ => exact .inl ⟨rfl, hlabel (fun _ _ h => by cases h) _⟩

/-- After a run no worker has panicked iff none had before it and no handler panics in it. -/
theorem panicked_eq_zero_iff {tr : List (Transition.Taken SyncRun SyncAction)}
    (h : (system setup).Run s tr s') :
    s'.panicked = 0 ↔ s.panicked = 0 ∧ ∀ x ∈ tr, ¬ Panics setup x := by
  induction h with
  | nil => simp
  | cons hst _ ih =>
    rw [ih, List.forall_mem_cons]
    rcases panicked_step (steps_of_next hst) with ⟨heq, hnot⟩ | ⟨heq, hpanics⟩
    · rw [heq]
      exact and_congr_right fun _ => ⟨fun htail => ⟨hnot, htail⟩, And.right⟩
    · rw [heq]
      exact iff_of_false (fun h => absurd h.1 (Nat.succ_ne_zero _)) fun h => h.2.1 hpanics

/-- A worker is alive, has panicked or has exited. -/
theorem alive_add (s : SyncRun) : s.alive + s.panicked + s.exited = s.workers.length := by
  unfold alive panicked exited
  induction s.workers with
  | nil => rfl
  | cons w rest ih =>
    simp only [List.countP_cons, List.length_cons, ← ih]
    cases w <;> simp [Worker.isAlive, Worker.isPanicked, Worker.isExited] <;> omega

/-- The counter is zero and all workers of the pool can take jobs. -/
def Intact (setup : ServerSetup) (s : SyncRun) : Prop :=
  s.active = 0 ∧ s.alive = max 1 setup.config.workerThreads

/-- **What survives the handlers**: whenever no connection is being admitted, queued or handled
by a server whose pool was not dropped, its counter is zero and all of its workers can take jobs
if and only if no handler has panicked.

**Proof sketch.** Then the counter is the number of panics and of jobs lost with the receiver
(`Accounted.active`), and the workers alive are all but those that have panicked. -/
theorem intact_iff {tr : List (Transition.Taken SyncRun SyncAction)}
    (h : (system setup).Run (start setup) tr s) (hsettled : s.Settled)
    (hserving : s.thread.isServing = true) :
    s.Intact setup ↔ ∀ x ∈ tr, ¬ Panics setup x := by
  have hs := accounted_of_reach (h.reach (.init rfl))
  have hpanics := panicked_eq_zero_iff h
  rw [and_iff_right (show (start setup).panicked = 0 by
    simp [start, panicked, List.countP_replicate, Worker.isPanicked])] at hpanics
  rw [← hpanics]
  obtain ⟨hcounts, hqueue, hbusy⟩ := hsettled
  have hactive := hs.active
  have hstays := hs.stays hserving
  have hlost := hs.discarded
  have hall := s.alive_add
  rw [hcounts, hqueue, hbusy, List.length_nil] at hactive
  rw [hs.workers, hstays] at hall
  constructor
  · rintro ⟨hzero, halive⟩
    omega
  · intro hzero
    exact ⟨by omega, by omega⟩

/-- A server that handles one connection, whose reservation a guard refuses. -/
def refusedRun : List SyncAction :=
  [.setUp (.ok ()), .advance, .accept (.stream (.v4 (ipv4 10 0 0 1) 1001)), .advance, .advance,
    .advance, .take 0,
    .handle 0 { reserve := .error (.bannedIp "10.0.0.1".toList), handle := .returned (.ok ()) },
    .finish 0]

/-- Two workers and the counter are intact after a refused connection. -/
theorem intact_after_refusal :
    (Transition.System.follow (next ⟨⟨2, 10, false, .tcp⟩, true, true⟩)
      (start ⟨⟨2, 10, false, .tcp⟩, true, true⟩) refusedRun).2.Intact
        ⟨⟨2, 10, false, .tcp⟩, true, true⟩ := by
  refine (intact_iff (Transition.System.run_follow (fun _ _ _ hnext => hnext) refusedRun _)
    ?_ (by decide +kernel)).mpr ?_
  · unfold Settled
    decide +kernel
  · rintro x hx ⟨w, env, hlabel, hpanics⟩
    have hmem := Transition.System.label_mem_of_follow hx
    simp only [hlabel, refusedRun, List.mem_cons, List.not_mem_nil, reduceCtorEq, or_false,
      false_or, SyncAction.handle.injEq] at hmem
    obtain ⟨-, rfl⟩ := hmem
    exact absurd hpanics (by decide +kernel)

/-- The handler of the only worker panics. -/
def panicRun : List SyncAction :=
  [.setUp (.ok ()), .advance, .accept (.stream (.v4 (ipv4 10 0 0 1) 1001)), .advance, .advance,
    .advance, .take 0, .handle 0 { handle := .panicked }]

/-- **A lost worker**: the handler of the only worker panics, and the counter stays at one with
no worker left. -/
theorem not_forall_intact :
    ¬ ∀ (setup : ServerSetup) (tr : List (Transition.Taken SyncRun SyncAction)) (s : SyncRun),
      (system setup).Run (start setup) tr s → s.Settled → s.thread.isServing = true →
        s.Intact setup := by
  intro hall
  have hintact := hall ⟨⟨1, 10, false, .tcp⟩, true, true⟩ _ _
    (Transition.System.run_follow (fun _ _ _ hnext => hnext) panicRun _)
    (by unfold Settled; decide +kernel) (by decide +kernel)
  exact absurd hintact.1 (by decide +kernel)

/-! ## An intact server can shut down -/

/-- Without busy workers and jobs, the workers exit one after the other.

**Proof sketch.** Induction on the number of workers alive: each of them is waiting, and finds
the channel closed. -/
theorem exists_exits {result : Except SynError Unit} (n : ℕ) :
    ∀ s : SyncRun, s.alive = n → s.busy = 0 → s.queue = [] → s.thread = .leaving result →
      ∃ tr s', (system setup).Run s tr s' ∧ s'.thread = .leaving result ∧
        s'.hasReceiver = false := by
  induction n with
  | zero =>
    intro s halive _ _ hthread
    refine ⟨[], s, .nil s, hthread, ?_⟩
    unfold hasReceiver
    rw [List.any_eq_false]
    exact List.countP_eq_zero.mp halive
  | succ n ih =>
    intro s halive hbusy hqueue hthread
    obtain ⟨x, hx, hxalive⟩ : ∃ x ∈ s.workers, x.isAlive = true :=
      List.countP_pos_iff.mp (halive.symm ▸ Nat.succ_pos n : 0 < s.alive)
    have hidle := List.countP_eq_zero.mp hbusy x hx
    obtain rfl : x = .waiting := by
      cases x with
      | waiting => rfl
      | running _ => exact absurd rfl hidle
      | finishing _ => exact absurd rfl hidle
      | panicked => cases hxalive
      | exited => cases hxalive
    obtain ⟨w, hw⟩ := List.mem_iff_getElem?.mp hx
    have hexit : next setup s (.exit w) =
        some { s with workers := s.workers.set w .exited } := by
      simp [next, hw, hqueue, hthread, AcceptThread.isServing]
    have hcount := Table.countP_set Worker.isAlive hw .exited
    have hstill := Table.countP_set_of_eq (y := .exited) Worker.isBusy hw rfl
    obtain ⟨tr, s', hrun, hleft, hgone⟩ := ih { s with workers := s.workers.set w .exited }
      (by
        unfold alive at halive ⊢
        simp only [show Worker.waiting.isAlive = true from rfl,
          show Worker.exited.isAlive = false from rfl, Bool.toNat_true, Bool.toNat_false]
          at hcount ⊢
        omega)
      (hstill.trans hbusy) hqueue hthread
    exact ⟨_, s', .cons hexit hrun, hleft, hgone⟩

/-- An intact server that waits for its connections, and has none left, returns `Ok`. -/
theorem exists_returned (hsettled : s.Settled) (hthread : s.thread = .draining)
    (hintact : s.Intact setup) :
    ∃ tr s', (system setup).Run s tr s' ∧ s'.thread = .returned (.ok ()) := by
  have hleave : next setup s .advance = some { s with thread := .leaving (.ok ()) } := by
    simp [next, advance, hthread, hintact.1]
  obtain ⟨tr, s', hrun, hleft, hgone⟩ := @exists_exits setup (.ok ()) _
    { s with thread := .leaving (.ok ()) } rfl hsettled.2.2 hsettled.2.1 rfl
  have hjoin : next setup s' .advance = some { s' with thread := .returned (.ok ()) } := by
    simp [next, advance, hleft, hgone]
  exact ⟨_, _, .cons hleave (hrun.append (.cons hjoin (.nil _))), rfl⟩

end SyncRun

end Synclaire
