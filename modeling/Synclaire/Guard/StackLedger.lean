import Mathlib.Data.Int.Basic
import Synclaire.Lib.Table
import Synclaire.Guard.StackMachine
import Synclaire.Guard.Throttle

set_option relaxedAutoImplicit false
set_option autoImplicit false

/-!
# Every accepted reservation is closed once

Each reservation a guard accepts is owed one close. While the `reserve` call runs the call owes
it, then the session does until it is closed, and then the `close` call does until it has
visited the guard; a failed `reserve` owes it until its rollback has. Counted over the guard's
callbacks, acceptances equal closes plus what is still owed, in every reachable state.

## Main definitions

* `Synclaire.StackFrame.owes` — a call in this frame owes guard `j` a close.
* `Synclaire.StackState.accepted`, `Synclaire.StackState.closes`,
  `Synclaire.StackState.openSessions`, `Synclaire.StackState.owing` — the four counts.

## Main results

* `Synclaire.StackState.ledger` — the books balance in every reachable state.
* `Synclaire.StackState.accepted_sub_closes_eq_openSessions` — while no call is in progress,
  what is owed is owed by open sessions.

## Implementation notes

The counts are taken over the contexts that satisfy a predicate `P`, so that one invariant
serves the books of a socket address, of an IP address, and of all connections.
-/

namespace Synclaire

/-- A call in this frame owes guard `j` a close. -/
def StackFrame.owes (j : ℕ) : StackFrame → Bool
  | .reserve i => j < i
  | .rollback r _ _ => j < r
  | .close i => i ≤ j
  | _ => false

namespace StackState

variable {G : Type*}

/-! ## The four counts -/

/-- The callback is a reservation that guard `j` accepted from a context in `P`. -/
def isAccepted (P : GuardContext → Bool) (j : ℕ) (r : CallbackRecord) : Bool :=
  P r.context && (r.guard = j && r.callback = .reserve && r.result = .ok ())

/-- The callback is a close of guard `j` for a context in `P`. -/
def isClose (P : GuardContext → Bool) (j : ℕ) (r : CallbackRecord) : Bool :=
  P r.context && (r.guard = j && r.callback = .close)

/-- The session is guarded, open, and has a context in `P`. -/
def isOpen (P : GuardContext → Bool) (slot : SessionSlot) : Bool :=
  P slot.session.context && (!slot.session.allowed && !slot.session.closed)

/-- The call has a context in `P` and owes guard `j` a close. -/
def isOwing (P : GuardContext → Bool) (j : ℕ) (call : StackCall) : Bool :=
  P call.context && call.frame.owes j

/-- The reservations guard `j` accepted from contexts in `P`. -/
def accepted (s : StackState G) (P : GuardContext → Bool) (j : ℕ) : ℕ :=
  s.log.countP (isAccepted P j)

/-- The closes guard `j` received for contexts in `P`. -/
def closes (s : StackState G) (P : GuardContext → Bool) (j : ℕ) : ℕ :=
  s.log.countP (isClose P j)

/-- The guarded sessions with contexts in `P` that `reserve` returned and that are not yet
closed. -/
def openSessions (s : StackState G) (P : GuardContext → Bool) : ℕ :=
  s.sessions.countP (isOpen P)

/-- The running calls with contexts in `P` that owe guard `j` a close. -/
def owing (s : StackState G) (P : GuardContext → Bool) (j : ℕ) : ℕ :=
  s.calls.countP (isOwing P j)

/-- The books of every guard balance. -/
def Balanced (s : StackState G) : Prop :=
  ∀ P j, j < s.guards.length →
    s.accepted P j = s.closes P j + s.openSessions P + s.owing P j

/-! ## One step -/

/-- The guards before `i + 1` are those before `i`, and `i`. -/
theorem toNat_lt_succ (i j : ℕ) :
    (decide (j < i + 1)).toNat = (decide (j < i)).toNat + (decide (i = j)).toNat := by
  simp only [Table.toNat_decide]
  split_ifs <;> omega

/-- The guards from `i` on are `i` and those from `i + 1` on. -/
theorem toNat_le_eq_add (i j : ℕ) :
    (decide (i ≤ j)).toNat = (decide (i + 1 ≤ j)).toNat + (decide (i = j)).toNat := by
  simp only [Table.toNat_decide]
  split_ifs <;> omega

/-- **A visit keeps the books of a guard**: what the call owed and the reservation it made
equal what the call owes now and the close it made.

**Proof sketch.** One case for each visit. Only three change anything: an accepted reservation
at `i` lets the call owe guard `i`, a rollback visit and a close visit at `i` pay it. -/
theorem Visit.balance [Guard G] {g g' : G} {ctx : GuardContext} {now : Instant} {i : ℕ}
    {frame frame' : StackFrame} {callback : Callback} {result : Except SynError Unit}
    {events : List GuardEvent} (h : Visit g ctx now i frame callback result g' events frame')
    (j : ℕ) :
    (frame.owes j).toNat +
        (decide (i = j) && decide (callback = .reserve) && decide (result = .ok ())).toNat =
      (frame'.owes j).toNat + (decide (i = j) && decide (callback = .close)).toNat := by
  cases h with
  | reserveOk _ =>
    show (decide (j < i)).toNat + _ = (decide (j < i + 1)).toNat + _
    rw [toNat_lt_succ]
    simp
  | rollback =>
    show (decide (j < i + 1)).toNat + _ = (decide (j < i)).toNat + _
    rw [toNat_lt_succ]
    simp
  | close => simp [StackFrame.owes, toNat_le_eq_add i j]
  | _ => simp [StackFrame.owes]

/-- A call that has no guard left to visit owes nothing. -/
theorem Finished.not_owes {n j : ℕ} {ctx : GuardContext} {now : Instant} {frame : StackFrame}
    {events : List GuardEvent} {result : Except SynError Unit}
    (h : Finished n ctx now frame events result) (hj : j < n) : frame.owes j = false := by
  cases h with
  | close hi => exact decide_eq_false (Nat.not_le_of_lt (Nat.lt_of_lt_of_le hj hi))
  | _ => rfl

/-- Moving a call to a frame that owes the same guards keeps the debt. -/
theorem owing_moveTo {s : StackState G} {c : ℕ} {call : StackCall}
    (hc : s.calls[c]? = some call) (frame : StackFrame) (P : GuardContext → Bool) (j : ℕ) :
    (s.moveTo c call frame).owing P j + (P call.context && call.frame.owes j).toNat =
      s.owing P j + (P call.context && frame.owes j).toNat :=
  Table.countP_set (isOwing P j) hc { call with frame }

/-- A callback is counted in the books of its guard. -/
theorem counts_record (s : StackState G) (call : StackCall) (i : ℕ) (g : G)
    (callback : Callback) (result : Except SynError Unit) (P : GuardContext → Bool) (j : ℕ) :
    (s.record call i g callback result).accepted P j = s.accepted P j +
        (P call.context && (i = j && callback = .reserve && result = .ok ())).toNat ∧
      (s.record call i g callback result).closes P j = s.closes P j +
        (P call.context && (i = j && callback = .close)).toNat :=
  ⟨Table.countP_append_singleton _ _ _, Table.countP_append_singleton _ _ _⟩

variable [Guard G]

/-- A step of a call keeps the books balanced. -/
theorem Balanced.advanceCall {s s' : StackState G} {c : ℕ} {call : StackCall} {now : Instant}
    (hs : s.Balanced) (hc : s.calls[c]? = some call)
    (h : s.advanceCall c call now = some s') : s'.Balanced := by
  intro P j hj
  rcases advanceCall_cases h with ⟨i, hframe, hi, rfl⟩ | ⟨events, result, hfin, rfl⟩ |
    ⟨i, g, callback, result, g', events, frame, hg, hvisit, rfl⟩
  · -- the session takes over what the call owed to every guard
    have hbal := hs P j hj
    have hmove := owing_moveTo hc (.returned (.ok ())) P j
    have howes : call.frame.owes j = true := by
      rw [hframe]
      exact decide_eq_true (Nat.lt_of_lt_of_le hj hi)
    have hopen : ((s.addSession call).moveTo c call (.returned (.ok ()))).openSessions P =
        s.openSessions P + (P call.context).toNat := by
      refine (Table.countP_append_singleton _ _ _).trans ?_
      simp [openSessions, isOpen, GuardSession.fresh]
    have hreturned : (P call.context && StackFrame.owes j (.returned (.ok ()))) = false :=
      Bool.and_false _
    rw [howes, Bool.and_true, hreturned, Bool.toNat_false] at hmove
    rw [hopen]
    show s.accepted P j = s.closes P j + _ + (s.moveTo c call _).owing P j
    omega
  · -- a call that returns here owes nothing
    have hbal := hs P j hj
    have hmove := owing_moveTo hc (.returned result) P j
    have hreturned : StackFrame.owes j (.returned result) = false := rfl
    rw [hfin.not_owes hj, hreturned] at hmove
    show s.accepted P j = s.closes P j + s.openSessions P + (s.moveTo c call _).owing P j
    omega
  · have hj : j < s.guards.length := by simpa [visited, moveTo, emit, record] using hj
    have hbal := hs P j hj
    have hmove := owing_moveTo hc frame P j
    have hbalance := hvisit.balance j
    obtain ⟨hacc, hclose⟩ := counts_record s call i g' callback result P j
    show (s.record call i g' callback result).accepted P j =
      (s.record call i g' callback result).closes P j + s.openSessions P +
        (s.moveTo c call frame).owing P j
    rw [hacc, hclose]
    cases hP : P call.context with
    | false =>
      rw [hP] at hmove
      simp only [Bool.false_and, Bool.toNat_false, Nat.add_zero] at hmove ⊢
      omega
    | true =>
      rw [hP] at hmove
      simp only [Bool.true_and] at hmove ⊢
      omega

omit [Guard G] in
/-- A call on a session begins with balanced books, if its first step leaves as much open as
it takes over.

**Proof sketch.** Only the row of the session and the new call change; the first step moves
the session's debt to the call, or nothing. -/
theorem Balanced.beginOn {s s' : StackState G} {k : ℕ}
    {f : SessionSlot → SessionSlot × StackFrame} (hs : s.Balanced)
    (hf : ∀ slot P j, (isOpen P slot).toNat = (isOpen P (f slot).1).toNat +
      (P slot.session.context && (f slot).2.owes j).toNat)
    (h : s.beginOn k f = some s') : s'.Balanced := by
  obtain ⟨slot, hslot, -, rfl⟩ := beginOn_cases h
  intro P j hj
  have hbal := hs P j hj
  have hset := Table.countP_set (isOpen P) hslot (f slot).1
  have hcalls := Table.countP_append_singleton (isOwing P j) s.calls
    ⟨slot.owner, some k, slot.session.context, (f slot).2⟩
  have hnew : isOwing P j ⟨slot.owner, some k, slot.session.context, (f slot).2⟩ =
      (P slot.session.context && (f slot).2.owes j) := rfl
  have hfirst := hf slot P j
  rw [hnew] at hcalls
  show s.accepted P j = s.closes P j + (s.sessions.set k (f slot).1).countP (isOpen P) +
    (s.calls ++ [_]).countP (isOwing P j)
  rw [hcalls]
  simp only [openSessions, owing] at hbal
  omega

/-- Closing moves the debt of an open session to the call. -/
theorem closeFirst_balance (slot : SessionSlot) (P : GuardContext → Bool) (j : ℕ) :
    (isOpen P slot).toNat = (isOpen P (closeFirst slot).1).toNat +
      (P slot.session.context && (closeFirst slot).2.owes j).toNat := by
  unfold closeFirst
  by_cases hallowed : slot.session.allowed
  · simp [hallowed, isOpen, StackFrame.owes]
  · by_cases hclosed : slot.session.closed
    · simp [hallowed, hclosed, isOpen, StackFrame.owes]
    · simp [hallowed, hclosed, isOpen, StackFrame.owes]

/-- Every action keeps the books balanced. -/
theorem Balanced.next {s s' : StackState G} {a : StackAction G} (hs : s.Balanced)
    (h : s.next a = some s') : s'.Balanced := by
  cases a with
  | reserve ctx =>
    obtain rfl := Option.some.inj h
    intro P j hj
    unfold beginReserve at hj ⊢
    split_ifs at hj ⊢ with hlisted
    · simpa [accepted, closes, openSessions, owing, isOpen, isOwing, StackFrame.owes,
        GuardSession.fresh, List.countP_append, List.countP_singleton] using hs P j hj
    · simpa [accepted, closes, openSessions, owing, isOwing, StackFrame.owes,
        List.countP_append, List.countP_singleton] using hs P j hj
  | markEstablished k =>
    refine hs.beginOn (fun slot P j => ?_) h
    unfold markEstablishedFirst
    split_ifs <;> simp [isOpen, StackFrame.owes]
  | recordPayload k bytes =>
    refine hs.beginOn (fun slot P j => ?_) h
    unfold recordPayloadFirst
    split_ifs <;> simp [StackFrame.owes]
  | touch k =>
    refine hs.beginOn (fun slot P j => ?_) h
    unfold touchFirst
    split_ifs <;> simp [StackFrame.owes]
  | close k => exact hs.beginOn closeFirst_balance h
  | drop k =>
    exact hs.beginOn (fun slot P j => closeFirst_balance { slot with dropped := true } P j)
      (beginOn_of_drop h)
  | advance c now =>
    obtain ⟨call, hc, hadvance⟩ := advanceCall_of_advance h
    exact hs.advanceCall hc hadvance
  | allow ip =>
    obtain rfl := Option.some.inj h
    exact hs
  | remove ip =>
    obtain rfl := Option.some.inj h
    exact hs
  | clear =>
    obtain rfl := Option.some.inj h
    exact hs
  | env i g =>
    obtain ⟨-, rfl⟩ := eq_of_env h
    intro P j hj
    exact hs P j (by simpa using hj)

/-! ## Every run -/

/-- **The ledger**: in every reachable state, a guard has accepted as many reservations as it
was closed, plus one for each open session and one for each running call that owes it a
close. -/
theorem ledger {stack : GuardStack G} {env : G → G → Prop} {s : StackState G}
    (h : (system stack env).Reach s) : s.Balanced := by
  refine Transition.System.Reach.invariant (I := Balanced) ?_ ?_ h
  · rintro _ rfl P j _
    rfl
  · exact fun s a s' _ hs hst => hs.next hst.1

omit [Guard G] in
/-- Between calls no call owes anything. -/
theorem Idle.owing_eq_zero {s : StackState G} (h : s.Idle) (P : GuardContext → Bool) (j : ℕ) :
    s.owing P j = 0 := by
  refine List.countP_eq_zero.mpr fun call hcall => ?_
  have hreturned := h call hcall
  unfold StackCall.isReturned at hreturned
  split at hreturned
  · next hframe => simp [isOwing, hframe, StackFrame.owes]
  · cases hreturned

/-- The context belongs to the peer address `addr`. -/
def ofPeer (addr : SocketAddr) (ctx : GuardContext) : Bool := ctx.peerAddr = addr

/-- **One close for every accepted reservation.** Whenever no call is in progress, for every
guard and every peer address, the reservations the guard accepted minus the closes it received
are the guarded sessions of that address that `reserve` returned and that are not yet closed.
Failed reservations, repeated closes, drops and changes of the allowlist leave no trace in the
difference, whatever the guards answer and however they change by themselves. -/
theorem accepted_sub_closes_eq_openSessions {stack : GuardStack G} {env : G → G → Prop}
    {s : StackState G} (h : (system stack env).Reach s) (hidle : s.Idle) {j : ℕ}
    (hj : j < s.guards.length) (addr : SocketAddr) :
    (s.accepted (ofPeer addr) j : ℤ) - s.closes (ofPeer addr) j =
      s.openSessions (ofPeer addr) := by
  have hbal := ledger h (ofPeer addr) j hj
  have howing := hidle.owing_eq_zero (ofPeer addr) j
  omega

/-- Two throttles: the second admits a single connection of an address. -/
def twoThrottles : GuardStack Throttle where
  guards := [.new { maxConnectionsPerIp := 10 }, .new { maxConnectionsPerIp := 1 }]
  observer := false
  allowlist := .new

/-- A connection from `10.0.0.1` at time `0`. -/
def localContext (port : UInt16) : GuardContext :=
  .new (.v4 (ipv4 10 0 0 1) port) none false 0

/-- Two reservations from one IP: the first is admitted, the second is accepted by the first
throttle, refused by the second and rolled back; in between the IP is listed and unlisted. -/
def rollbackRun : List (StackAction Throttle) :=
  [.reserve (localContext 1001), .advance 0 0, .advance 0 0, .advance 0 0,
    .reserve (localContext 1002), .allow (localContext 1002).peerIp, .advance 1 0, .advance 1 0,
    .remove (localContext 1002).peerIp, .advance 1 0, .advance 1 0]

/-- The state after that run. -/
def rolledBack : StackState Throttle := after twoThrottles rollbackRun

/-- The first throttle accepted the refused connection and was closed for it once. -/
theorem accepted_sub_closes_rolledBack :
    (rolledBack.accepted (ofPeer (localContext 1002).peerAddr) 0 : ℤ) -
      rolledBack.closes (ofPeer (localContext 1002).peerAddr) 0 =
      rolledBack.openSessions (ofPeer (localContext 1002).peerAddr) := by
  have hidle : rolledBack.Idle := by
    unfold Idle
    decide
  have hreach : (system twoThrottles fun _ _ => True).Reach rolledBack :=
    reach_after (by simp [rollbackRun])
  exact accepted_sub_closes_eq_openSessions hreach hidle (by decide)
    (localContext 1002).peerAddr

end StackState

end Synclaire
