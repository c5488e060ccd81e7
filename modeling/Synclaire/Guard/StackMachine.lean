import Synclaire.Lib.Table
import Synclaire.Lib.Transition
import Synclaire.Guard.Stack

set_option relaxedAutoImplicit false
set_option autoImplicit false

/-!
# The guard stack as a state machine

The calls of any number of threads on one stack interleave. A call does its first atomic step
when it begins (it looks at the allowlist, or swaps a flag of its session) and then visits one
guard with each further step. Between two steps of a call every other call may move, the
allowlist may change, and a guard may change through handles of its own.

## Main definitions

* `Synclaire.StackFrame`, `Synclaire.StackCall` — how far a call has come.
* `Synclaire.StackState` — guards, sessions, calls, and what was recorded of the callbacks.
* `Synclaire.StackState.next` — the step function.
* `Synclaire.StackState.system` — the transition system.

## Main results

* `Synclaire.StackState.advanceCall_cases`, `Synclaire.StackState.beginOn_cases` — what a step
  of a call does.
* `Synclaire.StackState.guards_of_reach` — the invariant rule for the guards of a stack.

## Implementation notes

A callback and the event about it are one step. Calls stay in the table after they have
returned. A `Drop` needs its session unborrowed, so it begins only when no call on the session
is running; after it the session is gone.
-/

namespace Synclaire

/-- How far a call has come: the guard it visits next, or its result. -/
inductive StackFrame
  /-- `reserve`: the guards before `i` have accepted. -/
  | reserve (i : ℕ)
  /-- `reserve`: the guard `rejecting` refused, the guards before `r` are still to close. -/
  | rollback (r : ℕ) (rejecting : Str) (err : SynError)
  /-- `mark_established`. -/
  | established (i : ℕ)
  /-- `record_payload`; `touched` tells whether guard `i` has seen the activity. -/
  | payload (i : ℕ) (touched : Bool) (bytes : List UInt8)
  /-- `touch`. -/
  | activity (i : ℕ)
  /-- `close`. -/
  | close (i : ℕ)
  | returned (result : Except SynError Unit)
  deriving DecidableEq

/-- A call: the `reserve` call its session came from, its session, its context and frame. -/
structure StackCall where
  owner : ℕ
  session : Option ℕ
  context : GuardContext
  frame : StackFrame
  deriving DecidableEq

/-- The call has returned. -/
def StackCall.isReturned (call : StackCall) : Bool :=
  match call.frame with
  | .returned _ => true
  | _ => false

/-- The call runs on session `k`. -/
def StackCall.borrows (k : ℕ) (call : StackCall) : Bool :=
  !call.isReturned && call.session = some k

/-- A session in the table of the machine: the `reserve` call that returned it, and whether
it was dropped. -/
structure SessionSlot where
  session : GuardSession
  owner : ℕ
  dropped : Bool
  deriving DecidableEq

/-- What was recorded of a callback: the guard, the `reserve` call it belongs to, its context
and its result. -/
structure CallbackRecord where
  guard : ℕ
  owner : ℕ
  context : GuardContext
  callback : Callback
  result : Except SynError Unit
  deriving DecidableEq

/-- The state of a stack in use. -/
structure StackState (G : Type*) where
  guards : List G
  observer : Bool
  allowlist : Allowlist
  sessions : List SessionSlot
  calls : List StackCall
  log : List CallbackRecord
  events : List GuardEvent
  deriving DecidableEq

/-- A step of the machine: a call begins, call `c` moves on at a reading of the clock, the
allowlist changes, or guard `i` changes by itself. -/
inductive StackAction (G : Type*)
  | reserve (context : GuardContext)
  | markEstablished (k : ℕ)
  | recordPayload (k : ℕ) (bytes : List UInt8)
  | touch (k : ℕ)
  | close (k : ℕ)
  | drop (k : ℕ)
  | advance (c : ℕ) (now : Instant)
  | allow (ip : IpAddr)
  | remove (ip : IpAddr)
  | clear
  | env (i : ℕ) (g : G)

namespace StackState

variable {G : Type*}

/-- A stack before its first call. -/
def start (stack : GuardStack G) : StackState G :=
  ⟨stack.guards, stack.observer, stack.allowlist, [], [], [], []⟩

/-! ## Beginning a call -/

/-- A new `reserve` call: an allowlisted address gets its session at once. -/
def beginReserve (s : StackState G) (ctx : GuardContext) : StackState G :=
  if s.allowlist.contains ctx.peerIp then
    { s with
      sessions := s.sessions ++ [⟨.fresh ctx true, s.calls.length, false⟩]
      calls := s.calls ++ [⟨s.calls.length, none, ctx, .returned (.ok ())⟩] }
  else { s with calls := s.calls ++ [⟨s.calls.length, none, ctx, .reserve 0⟩] }

/-- A new call on session `k`; `f` is its first step on the flags of the session. -/
def beginOn (s : StackState G) (k : ℕ) (f : SessionSlot → SessionSlot × StackFrame) :
    Option (StackState G) :=
  match s.sessions[k]? with
  | some slot =>
    if slot.dropped then none
    else some { s with
      sessions := s.sessions.set k (f slot).1
      calls := s.calls ++ [⟨slot.owner, some k, slot.session.context, (f slot).2⟩] }
  | none => none

/-- The first step of `mark_established`: `established.swap(true)`. -/
def markEstablishedFirst (slot : SessionSlot) : SessionSlot × StackFrame :=
  if slot.session.allowed then (slot, .returned (.ok ()))
  else if slot.session.established then (slot, .returned (.ok ()))
  else ({ slot with session := { slot.session with established := true } }, .established 0)

/-- The first step of `record_payload`. -/
def recordPayloadFirst (bytes : List UInt8) (slot : SessionSlot) : SessionSlot × StackFrame :=
  (slot, if slot.session.allowed then .returned (.ok ()) else .payload 0 false bytes)

/-- The first step of `touch`. -/
def touchFirst (slot : SessionSlot) : SessionSlot × StackFrame :=
  (slot, if slot.session.allowed then .returned (.ok ()) else .activity 0)

/-- The first step of `close`: `closed.swap(true)`. -/
def closeFirst (slot : SessionSlot) : SessionSlot × StackFrame :=
  if slot.session.allowed then (slot, .returned (.ok ()))
  else if slot.session.closed then (slot, .returned (.ok ()))
  else ({ slot with session := { slot.session with closed := true } }, .close 0)

/-- The first step of `Drop`: the one of `close`, and the session is gone. -/
def dropFirst (slot : SessionSlot) : SessionSlot × StackFrame :=
  closeFirst { slot with dropped := true }

/-! ## Moving a call on -/

/-- Call `c` moves to `frame`. -/
def moveTo (s : StackState G) (c : ℕ) (call : StackCall) (frame : StackFrame) : StackState G :=
  { s with calls := s.calls.set c { call with frame } }

/-- The session of a `reserve` call that all guards accepted. -/
def addSession (s : StackState G) (call : StackCall) : StackState G :=
  { s with sessions := s.sessions ++ [⟨.fresh call.context false, call.owner, false⟩] }

/-- Guard `i` becomes `g` through a callback of `call`, which is recorded. -/
def record (s : StackState G) (call : StackCall) (i : ℕ) (g : G) (callback : Callback)
    (result : Except SynError Unit) : StackState G :=
  { s with
    guards := s.guards.set i g
    log := s.log ++ [⟨i, call.owner, call.context, callback, result⟩] }

/-- `GuardStackInner::emit`, for each of the events. -/
def emit (s : StackState G) (events : List GuardEvent) : StackState G :=
  { s with events := s.events ++ if s.observer then events else [] }

/-- Guard `i` answered a callback, the events were emitted, and the call moves on. -/
def visited (s : StackState G) (c : ℕ) (call : StackCall) (i : ℕ) (g : G) (callback : Callback)
    (result : Except SynError Unit) (events : List GuardEvent) (frame : StackFrame) :
    StackState G :=
  ((s.record call i g callback result).emit events).moveTo c call frame

/-- The loops that end with `?`: after the last guard the call returns, an error of guard `i`
is returned at once, and otherwise `ok` goes on with the guard as it is then. -/
def visitOrReturn (s : StackState G) (c : ℕ) (call : StackCall) (i : ℕ) (callback : Callback)
    (f : G → Except SynError Unit × G) (ok : G → StackState G) : StackState G :=
  match s.guards[i]? with
  | none => s.moveTo c call (.returned (.ok ()))
  | some g =>
    match f g with
    | (.ok (), g) => ok g
    | (.error err, g) =>
      s.visited c call i g callback (.error err) [] (.returned (.error err))

variable [Guard G]

/-- Guard `i` accepted a callback, which an event reports. -/
def accept (s : StackState G) (c : ℕ) (call : StackCall) (i : ℕ) (g : G) (callback : Callback)
    (now : Instant) (frame : StackFrame) : StackState G :=
  s.visited c call i g callback (.ok ())
    [acceptedEvent (Guard.name g) call.context callback now] frame

/-- One more step of the running call `call` in place `c`. -/
def advanceCall (s : StackState G) (c : ℕ) (call : StackCall) (now : Instant) :
    Option (StackState G) :=
  match call.frame with
  | .returned _ => none
  | .reserve i =>
    match s.guards[i]? with
    | none => some ((s.addSession call).moveTo c call (.returned (.ok ())))
    | some g =>
      match Guard.onReserve g call.context now with
      | (.ok (), g) => some (s.accept c call i g .reserve now (.reserve (i + 1)))
      | (.error err, g) =>
        some (s.visited c call i g .reserve (.error err) [] (.rollback i (Guard.name g) err))
  | .rollback (r + 1) rejecting err =>
    match s.guards[r]? with
    | none => none
    | some g =>
      some (s.visited c call r (Guard.onClose g call.context now) .close (.ok ()) []
        (.rollback r rejecting err))
  | .rollback 0 rejecting err =>
    some ((s.emit [rejectedEvent rejecting call.context err now]).moveTo c call
      (.returned (.error (.guardRejected rejecting err.toStr))))
  | .established i =>
    some (s.visitOrReturn c call i .established
      (fun g => Guard.onEstablished g call.context now)
      fun g => s.accept c call i g .established now (.established (i + 1)))
  | .payload i false bytes =>
    some (s.visitOrReturn c call i .activity (fun g => Guard.onActivity g call.context now)
      fun g => s.visited c call i g .activity (.ok ()) [] (.payload i true bytes))
  | .payload i true bytes =>
    some (s.visitOrReturn c call i (.payload bytes)
      (fun g => Guard.onPayload g call.context bytes now)
      fun g => s.accept c call i g (.payload bytes) now (.payload (i + 1) false bytes))
  | .activity i =>
    some (s.visitOrReturn c call i .activity (fun g => Guard.onActivity g call.context now)
      fun g => s.accept c call i g .activity now (.activity (i + 1)))
  | .close i =>
    match s.guards[i]? with
    | none => some (s.moveTo c call (.returned (.ok ())))
    | some g =>
      some (s.accept c call i (Guard.onClose g call.context now) .close now (.close (i + 1)))

/-- The state after an action, if the action is possible. -/
def next (s : StackState G) : StackAction G → Option (StackState G)
  | .reserve ctx => some (s.beginReserve ctx)
  | .markEstablished k => s.beginOn k markEstablishedFirst
  | .recordPayload k bytes => s.beginOn k (recordPayloadFirst bytes)
  | .touch k => s.beginOn k touchFirst
  | .close k => s.beginOn k closeFirst
  | .drop k => if s.calls.any (StackCall.borrows k) then none else s.beginOn k dropFirst
  | .advance c now =>
    match s.calls[c]? with
    | some call => s.advanceCall c call now
    | none => none
  | .allow ip => some { s with allowlist := s.allowlist.allow ip }
  | .remove ip => some { s with allowlist := (s.allowlist.remove ip).2 }
  | .clear => some { s with allowlist := s.allowlist.clear }
  | .env i g => if i < s.guards.length then some { s with guards := s.guards.set i g } else none

/-- The machine of a stack whose guards change by themselves as `env` allows. -/
def system (stack : GuardStack G) (env : G → G → Prop) :
    Transition.System (StackState G) (StackAction G) where
  init s := s = start stack
  step s a s' := s.next a = some s' ∧
    ∀ i g', a = .env i g' → ∀ g, s.guards[i]? = some g → env g g'

/-! ## What a step of a call does -/

/-- Guard `g` at place `i` is visited by a call in the first frame and leaves it in the last:
the callback, its result, the guard after it and the events. -/
inductive Visit (g : G) (ctx : GuardContext) (now : Instant) (i : ℕ) :
    StackFrame → Callback → Except SynError Unit → G → List GuardEvent → StackFrame → Prop
  | reserveOk {g' : G} : Guard.onReserve g ctx now = (.ok (), g') →
      Visit g ctx now i (.reserve i) .reserve (.ok ()) g'
        [acceptedEvent (Guard.name g') ctx .reserve now] (.reserve (i + 1))
  | reserveError {g' : G} {err : SynError} : Guard.onReserve g ctx now = (.error err, g') →
      Visit g ctx now i (.reserve i) .reserve (.error err) g' []
        (.rollback i (Guard.name g') err)
  | rollback {rejecting : Str} {err : SynError} :
      Visit g ctx now i (.rollback (i + 1) rejecting err) .close (.ok ())
        (Guard.onClose g ctx now) [] (.rollback i rejecting err)
  | establishedOk {g' : G} : Guard.onEstablished g ctx now = (.ok (), g') →
      Visit g ctx now i (.established i) .established (.ok ()) g'
        [acceptedEvent (Guard.name g') ctx .established now] (.established (i + 1))
  | establishedError {g' : G} {err : SynError} :
      Guard.onEstablished g ctx now = (.error err, g') →
      Visit g ctx now i (.established i) .established (.error err) g' []
        (.returned (.error err))
  | payloadTouch {g' : G} {bytes : List UInt8} : Guard.onActivity g ctx now = (.ok (), g') →
      Visit g ctx now i (.payload i false bytes) .activity (.ok ()) g' []
        (.payload i true bytes)
  | payloadTouchError {g' : G} {bytes : List UInt8} {err : SynError} :
      Guard.onActivity g ctx now = (.error err, g') →
      Visit g ctx now i (.payload i false bytes) .activity (.error err) g' []
        (.returned (.error err))
  | payloadOk {g' : G} {bytes : List UInt8} : Guard.onPayload g ctx bytes now = (.ok (), g') →
      Visit g ctx now i (.payload i true bytes) (.payload bytes) (.ok ()) g'
        [acceptedEvent (Guard.name g') ctx (.payload bytes) now] (.payload (i + 1) false bytes)
  | payloadError {g' : G} {bytes : List UInt8} {err : SynError} :
      Guard.onPayload g ctx bytes now = (.error err, g') →
      Visit g ctx now i (.payload i true bytes) (.payload bytes) (.error err) g' []
        (.returned (.error err))
  | activityOk {g' : G} : Guard.onActivity g ctx now = (.ok (), g') →
      Visit g ctx now i (.activity i) .activity (.ok ()) g'
        [acceptedEvent (Guard.name g') ctx .activity now] (.activity (i + 1))
  | activityError {g' : G} {err : SynError} : Guard.onActivity g ctx now = (.error err, g') →
      Visit g ctx now i (.activity i) .activity (.error err) g' [] (.returned (.error err))
  | close :
      Visit g ctx now i (.close i) .close (.ok ()) (Guard.onClose g ctx now)
        [acceptedEvent (Guard.name (Guard.onClose g ctx now)) ctx .close now] (.close (i + 1))

/-- A call in this frame has no guard left to visit and returns without a session, next to
`n` guards. -/
inductive Finished (n : ℕ) (ctx : GuardContext) (now : Instant) :
    StackFrame → List GuardEvent → Except SynError Unit → Prop
  | rollback {rejecting : Str} {err : SynError} :
      Finished n ctx now (.rollback 0 rejecting err) [rejectedEvent rejecting ctx err now]
        (.error (.guardRejected rejecting err.toStr))
  | established {i : ℕ} : n ≤ i → Finished n ctx now (.established i) [] (.ok ())
  | payload {i : ℕ} {touched : Bool} {bytes : List UInt8} :
      n ≤ i → Finished n ctx now (.payload i touched bytes) [] (.ok ())
  | activity {i : ℕ} : n ≤ i → Finished n ctx now (.activity i) [] (.ok ())
  | close {i : ℕ} : n ≤ i → Finished n ctx now (.close i) [] (.ok ())

omit [Guard G] in
/-- No event changes nothing. -/
@[simp] theorem emit_nil (s : StackState G) : s.emit [] = s := by
  simp [emit]

omit [Guard G] in
/-- What a loop that ends with `?` does: it returns after the last guard, goes on, or returns
the error of a guard. -/
theorem visitOrReturn_cases {s s' : StackState G} {c i : ℕ} {call : StackCall}
    {callback : Callback} {f : G → Except SynError Unit × G} {ok : G → StackState G}
    (h : s.visitOrReturn c call i callback f ok = s') :
    (s.guards.length ≤ i ∧ s' = s.moveTo c call (.returned (.ok ()))) ∨
    (∃ g g', s.guards[i]? = some g ∧ f g = (.ok (), g') ∧ s' = ok g') ∨
    (∃ g g' err, s.guards[i]? = some g ∧ f g = (.error err, g') ∧
      s' = s.visited c call i g' callback (.error err) [] (.returned (.error err))) := by
  subst h
  unfold visitOrReturn
  cases hg : s.guards[i]? with
  | none => exact .inl ⟨List.getElem?_eq_none_iff.mp hg, rfl⟩
  | some g =>
    dsimp only
    rcases hr : f g with ⟨_ | _, g'⟩
    · exact .inr (.inr ⟨g, g', _, rfl, hr, rfl⟩)
    · exact .inr (.inl ⟨g, g', rfl, hr, rfl⟩)

/-- **What a step of a call does**: it admits the connection, returns, or visits a guard.

**Proof sketch.** One case for each frame, and in it one for each answer of the guard. -/
theorem advanceCall_cases {s s' : StackState G} {c : ℕ} {call : StackCall} {now : Instant}
    (h : s.advanceCall c call now = some s') :
    (∃ i, call.frame = .reserve i ∧ s.guards.length ≤ i ∧
      s' = (s.addSession call).moveTo c call (.returned (.ok ()))) ∨
    (∃ events result, Finished s.guards.length call.context now call.frame events result ∧
      s' = (s.emit events).moveTo c call (.returned result)) ∨
    (∃ i g callback result g' events frame, s.guards[i]? = some g ∧
      Visit g call.context now i call.frame callback result g' events frame ∧
      s' = s.visited c call i g' callback result events frame) := by
  unfold advanceCall at h
  split at h
  · cases h
  · next i hframe =>
    rw [hframe]
    cases hg : s.guards[i]? with
    | none =>
      rw [hg] at h
      obtain rfl := Option.some.inj h
      exact .inl ⟨i, rfl, List.getElem?_eq_none_iff.mp hg, rfl⟩
    | some g =>
      rw [hg] at h
      dsimp only at h
      rcases hr : Guard.onReserve g call.context now with ⟨_ | _, g'⟩
      · rw [hr] at h
        obtain rfl := Option.some.inj h
        exact .inr (.inr ⟨i, g, _, _, g', _, _, hg, .reserveError hr, rfl⟩)
      · rw [hr] at h
        obtain rfl := Option.some.inj h
        exact .inr (.inr ⟨i, g, _, _, g', _, _, hg, .reserveOk hr, rfl⟩)
  · next r rejecting err hframe =>
    rw [hframe]
    cases hg : s.guards[r]? with
    | none => rw [hg] at h; cases h
    | some g =>
      rw [hg] at h
      obtain rfl := Option.some.inj h
      exact .inr (.inr ⟨r, g, _, _, _, _, _, hg, .rollback, rfl⟩)
  · next rejecting err hframe =>
    rw [hframe]
    obtain rfl := Option.some.inj h
    exact .inr (.inl ⟨_, _, .rollback, rfl⟩)
  · next i hframe =>
    rw [hframe]
    rcases visitOrReturn_cases (Option.some.inj h) with
      ⟨hi, rfl⟩ | ⟨g, g', hg, hr, rfl⟩ | ⟨g, g', err, hg, hr, rfl⟩
    · exact .inr (.inl ⟨[], _, .established hi, by rw [emit_nil]⟩)
    · exact .inr (.inr ⟨i, g, _, _, g', _, _, hg, .establishedOk hr, rfl⟩)
    · exact .inr (.inr ⟨i, g, _, _, g', _, _, hg, .establishedError hr, rfl⟩)
  · next i bytes hframe =>
    rw [hframe]
    rcases visitOrReturn_cases (Option.some.inj h) with
      ⟨hi, rfl⟩ | ⟨g, g', hg, hr, rfl⟩ | ⟨g, g', err, hg, hr, rfl⟩
    · exact .inr (.inl ⟨[], _, .payload hi, by rw [emit_nil]⟩)
    · exact .inr (.inr ⟨i, g, _, _, g', _, _, hg, .payloadTouch hr, rfl⟩)
    · exact .inr (.inr ⟨i, g, _, _, g', _, _, hg, .payloadTouchError hr, rfl⟩)
  · next i bytes hframe =>
    rw [hframe]
    rcases visitOrReturn_cases (Option.some.inj h) with
      ⟨hi, rfl⟩ | ⟨g, g', hg, hr, rfl⟩ | ⟨g, g', err, hg, hr, rfl⟩
    · exact .inr (.inl ⟨[], _, .payload hi, by rw [emit_nil]⟩)
    · exact .inr (.inr ⟨i, g, _, _, g', _, _, hg, .payloadOk hr, rfl⟩)
    · exact .inr (.inr ⟨i, g, _, _, g', _, _, hg, .payloadError hr, rfl⟩)
  · next i hframe =>
    rw [hframe]
    rcases visitOrReturn_cases (Option.some.inj h) with
      ⟨hi, rfl⟩ | ⟨g, g', hg, hr, rfl⟩ | ⟨g, g', err, hg, hr, rfl⟩
    · exact .inr (.inl ⟨[], _, .activity hi, by rw [emit_nil]⟩)
    · exact .inr (.inr ⟨i, g, _, _, g', _, _, hg, .activityOk hr, rfl⟩)
    · exact .inr (.inr ⟨i, g, _, _, g', _, _, hg, .activityError hr, rfl⟩)
  · next i hframe =>
    rw [hframe]
    cases hg : s.guards[i]? with
    | none =>
      rw [hg] at h
      obtain rfl := Option.some.inj h
      exact .inr (.inl ⟨[], _, .close (List.getElem?_eq_none_iff.mp hg), by rw [emit_nil]⟩)
    | some g =>
      rw [hg] at h
      obtain rfl := Option.some.inj h
      exact .inr (.inr ⟨i, g, _, _, _, _, _, hg, .close, rfl⟩)

/-- **How a call on a session begins**: its first step may change the session. -/
theorem beginOn_cases {G : Type*} {s s' : StackState G} {k : ℕ}
    {f : SessionSlot → SessionSlot × StackFrame} (h : s.beginOn k f = some s') :
    ∃ slot, s.sessions[k]? = some slot ∧ slot.dropped = false ∧ s' = { s with
      sessions := s.sessions.set k (f slot).1
      calls := s.calls ++ [⟨slot.owner, some k, slot.session.context, (f slot).2⟩] } := by
  unfold beginOn at h
  cases hslot : s.sessions[k]? with
  | none => rw [hslot] at h; cases h
  | some slot =>
    rw [hslot] at h
    dsimp only at h
    by_cases hdropped : slot.dropped
    · rw [if_pos hdropped] at h
      cases h
    · rw [if_neg hdropped] at h
      exact ⟨slot, rfl, by simpa using hdropped, (Option.some.inj h).symm⟩

/-- A session is dropped by a call that begins. -/
theorem beginOn_of_drop {s s' : StackState G} {k : ℕ} (h : s.next (.drop k) = some s') :
    s.beginOn k dropFirst = some s' := by
  rw [StackState.next] at h
  split_ifs at h
  exact h

/-- A call that goes on is one of the calls. -/
theorem advanceCall_of_advance {s s' : StackState G} {c : ℕ} {now : Instant}
    (h : s.next (.advance c now) = some s') :
    ∃ call, s.calls[c]? = some call ∧ s.advanceCall c call now = some s' := by
  rw [StackState.next] at h
  cases hc : s.calls[c]? with
  | none =>
    rw [hc] at h
    cases h
  | some call =>
    rw [hc] at h
    exact ⟨call, rfl, h⟩

/-- A guard that changes by itself is one of the guards. -/
theorem eq_of_env {s s' : StackState G} {i : ℕ} {g : G} (h : s.next (.env i g) = some s') :
    i < s.guards.length ∧ s' = { s with guards := s.guards.set i g } := by
  rw [StackState.next] at h
  split_ifs at h with hi
  exact ⟨hi, (Option.some.inj h).symm⟩

/-! ## What a run does to the guards -/

/-- Every callback keeps the property `I` of a guard. -/
structure KeptByCallbacks (I : G → Prop) : Prop where
  onReserve : ∀ g ctx now, I g → I (Guard.onReserve g ctx now).2
  onEstablished : ∀ g ctx now, I g → I (Guard.onEstablished g ctx now).2
  onPayload : ∀ g ctx bytes now, I g → I (Guard.onPayload g ctx bytes now).2
  onActivity : ∀ g ctx now, I g → I (Guard.onActivity g ctx now).2
  onClose : ∀ g ctx now, I g → I (Guard.onClose g ctx now)

/-- Two kept properties are kept together. -/
theorem KeptByCallbacks.and {I J : G → Prop} (hI : KeptByCallbacks I) (hJ : KeptByCallbacks J) :
    KeptByCallbacks fun g => I g ∧ J g where
  onReserve g ctx now h := ⟨hI.onReserve g ctx now h.1, hJ.onReserve g ctx now h.2⟩
  onEstablished g ctx now h := ⟨hI.onEstablished g ctx now h.1, hJ.onEstablished g ctx now h.2⟩
  onPayload g ctx bytes now h :=
    ⟨hI.onPayload g ctx bytes now h.1, hJ.onPayload g ctx bytes now h.2⟩
  onActivity g ctx now h := ⟨hI.onActivity g ctx now h.1, hJ.onActivity g ctx now h.2⟩
  onClose g ctx now h := ⟨hI.onClose g ctx now h.1, hJ.onClose g ctx now h.2⟩

/-- A visit keeps what every callback keeps. -/
theorem Visit.keeps {I : G → Prop} (hI : KeptByCallbacks I) {g g' : G} {ctx : GuardContext}
    {now : Instant} {i : ℕ} {frame frame' : StackFrame} {callback : Callback}
    {result : Except SynError Unit} {events : List GuardEvent}
    (h : Visit g ctx now i frame callback result g' events frame') (hg : I g) : I g' := by
  cases h with
  | reserveOk hr | reserveError hr => simpa only [hr] using hI.onReserve g ctx now hg
  | establishedOk hr | establishedError hr =>
    simpa only [hr] using hI.onEstablished g ctx now hg
  | payloadTouch hr | payloadTouchError hr | activityOk hr | activityError hr =>
    simpa only [hr] using hI.onActivity g ctx now hg
  | @payloadOk _ bytes hr => simpa only [hr] using hI.onPayload g ctx bytes now hg
  | @payloadError _ bytes _ hr => simpa only [hr] using hI.onPayload g ctx bytes now hg
  | rollback | close => exact hI.onClose g ctx now hg

/-- **What a step does to the guards and the record**: nothing, or one guard changes by itself,
or one is visited by a call and the callback is recorded. -/
theorem next_effect {s s' : StackState G} {a : StackAction G} (h : s.next a = some s') :
    (s'.guards = s.guards ∧ s'.log = s.log) ∨
    (∃ i g g', a = .env i g' ∧ s.guards[i]? = some g ∧ s'.guards = s.guards.set i g' ∧
      s'.log = s.log) ∨
    (∃ (c : ℕ) (call : StackCall) (now : Instant) (i : ℕ) (g : G) (callback : Callback)
      (result : Except SynError Unit) (g' : G) (events : List GuardEvent) (frame : StackFrame),
      s.calls[c]? = some call ∧ s.guards[i]? = some g ∧
      Visit g call.context now i call.frame callback result g' events frame ∧
      s'.guards = s.guards.set i g' ∧
      s'.log = s.log ++ [⟨i, call.owner, call.context, callback, result⟩]) := by
  have hbegin : ∀ {k f}, s.beginOn k f = some s' → s'.guards = s.guards ∧ s'.log = s.log := by
    intro k f h
    obtain ⟨_, _, _, rfl⟩ := beginOn_cases h
    exact ⟨rfl, rfl⟩
  cases a with
  | reserve ctx =>
    obtain rfl := Option.some.inj h
    left
    unfold beginReserve
    split_ifs <;> exact ⟨rfl, rfl⟩
  | markEstablished k | recordPayload k bytes | touch k | close k => exact .inl (hbegin h)
  | drop k => exact .inl (hbegin (beginOn_of_drop h))
  | advance c now =>
    obtain ⟨call, hc, hadvance⟩ := advanceCall_of_advance h
    rcases advanceCall_cases hadvance with ⟨_, _, _, rfl⟩ | ⟨_, _, _, rfl⟩ |
      ⟨i, g, callback, result, g', events, frame, hg, hvisit, rfl⟩
    · exact .inl ⟨rfl, rfl⟩
    · exact .inl ⟨rfl, rfl⟩
    · exact .inr (.inr ⟨c, call, now, i, g, callback, result, g', events, frame, hc, hg,
        hvisit, rfl, rfl⟩)
  | allow ip | remove ip | clear =>
    obtain rfl := Option.some.inj h
    exact .inl ⟨rfl, rfl⟩
  | env i g' =>
    obtain ⟨hi, rfl⟩ := eq_of_env h
    exact .inr (.inl ⟨i, s.guards[i], g', rfl, List.getElem?_eq_getElem hi, rfl, rfl⟩)

/-- **What a step does to the sessions**: a step of a reservation may append a new one, which is
allowed only if its address is listed, and a step may change one row without changing its
context or its `allowed` flag; only `close` and `drop` change `closed`. -/
theorem next_sessions {s s' : StackState G} {a : StackAction G} (h : s.next a = some s') :
    s'.sessions = s.sessions ∨
    (∃ ctx owner allowed, ((∃ ctx, a = .reserve ctx) ∨ ∃ c now, a = .advance c now) ∧
      s'.sessions = s.sessions ++ [⟨.fresh ctx allowed, owner, false⟩] ∧
      (allowed = true → s.allowlist.contains ctx.peerIp = true)) ∨
    (∃ k slot slot', s.sessions[k]? = some slot ∧ s'.sessions = s.sessions.set k slot' ∧
      slot'.session.context = slot.session.context ∧
      slot'.session.allowed = slot.session.allowed ∧
      (slot'.session.closed = slot.session.closed ∨ a = .close k ∨ a = .drop k)) := by
  have hbegin : ∀ {k f}, s.beginOn k f = some s' → (∀ slot : SessionSlot,
      (f slot).1.session.context = slot.session.context ∧
      (f slot).1.session.allowed = slot.session.allowed ∧
      ((f slot).1.session.closed = slot.session.closed ∨ a = .close k ∨ a = .drop k)) →
      ∃ k slot slot', s.sessions[k]? = some slot ∧ s'.sessions = s.sessions.set k slot' ∧
        slot'.session.context = slot.session.context ∧
        slot'.session.allowed = slot.session.allowed ∧
        (slot'.session.closed = slot.session.closed ∨ a = .close k ∨ a = .drop k) := by
    intro k f h hf
    obtain ⟨slot, hslot, -, rfl⟩ := beginOn_cases h
    exact ⟨k, slot, (f slot).1, hslot, rfl, hf slot⟩
  cases a with
  | reserve ctx =>
    obtain rfl := Option.some.inj h
    unfold beginReserve
    by_cases hlisted : s.allowlist.contains ctx.peerIp = true
    · rw [if_pos hlisted]
      exact .inr (.inl ⟨ctx, s.calls.length, true, .inl ⟨ctx, rfl⟩, rfl, fun _ => hlisted⟩)
    · rw [if_neg hlisted]
      exact .inl rfl
  | markEstablished k =>
    refine .inr (.inr (hbegin h fun slot => ?_))
    unfold markEstablishedFirst
    split_ifs <;> exact ⟨rfl, rfl, .inl rfl⟩
  | recordPayload k bytes => exact .inr (.inr (hbegin h fun slot => ⟨rfl, rfl, .inl rfl⟩))
  | touch k => exact .inr (.inr (hbegin h fun slot => ⟨rfl, rfl, .inl rfl⟩))
  | close k =>
    refine .inr (.inr (hbegin h fun slot => ?_))
    unfold closeFirst
    split_ifs <;> exact ⟨rfl, rfl, .inr (.inl rfl)⟩
  | drop k =>
    refine .inr (.inr (hbegin (beginOn_of_drop h) fun slot => ?_))
    unfold dropFirst closeFirst
    split_ifs <;> exact ⟨rfl, rfl, .inr (.inr rfl)⟩
  | advance c now =>
    obtain ⟨call, -, hadvance⟩ := advanceCall_of_advance h
    rcases advanceCall_cases hadvance with ⟨_, _, _, rfl⟩ | ⟨_, _, _, rfl⟩ |
      ⟨_, _, _, _, _, _, _, _, _, rfl⟩
    · exact .inr (.inl ⟨call.context, call.owner, false, .inr ⟨c, now, rfl⟩, rfl, nofun⟩)
    · exact .inl rfl
    · exact .inl rfl
  | allow ip | remove ip | clear =>
    obtain rfl := Option.some.inj h
    exact .inl rfl
  | env i g' =>
    obtain ⟨-, rfl⟩ := eq_of_env h
    exact .inl rfl

/-- Only the operations of the allowlist change it. -/
theorem next_allowlist {s s' : StackState G} {a : StackAction G} (h : s.next a = some s') :
    s'.allowlist = s.allowlist ∨ (∃ ip, a = .allow ip) ∨ (∃ ip, a = .remove ip) ∨ a = .clear := by
  have hbegin : ∀ {k f}, s.beginOn k f = some s' → s'.allowlist = s.allowlist := by
    intro k f h
    obtain ⟨_, _, _, rfl⟩ := beginOn_cases h
    rfl
  cases a with
  | reserve ctx =>
    obtain rfl := Option.some.inj h
    left
    unfold beginReserve
    split_ifs <;> rfl
  | markEstablished k | recordPayload k bytes | touch k | close k => exact .inl (hbegin h)
  | drop k => exact .inl (hbegin (beginOn_of_drop h))
  | advance c now =>
    obtain ⟨call, -, hadvance⟩ := advanceCall_of_advance h
    rcases advanceCall_cases hadvance with ⟨_, _, _, rfl⟩ | ⟨_, _, _, rfl⟩ |
      ⟨_, _, _, _, _, _, _, _, _, rfl⟩ <;> exact .inl rfl
  | allow ip => exact .inr (.inl ⟨ip, rfl⟩)
  | remove ip => exact .inr (.inr (.inl ⟨ip, rfl⟩))
  | clear => exact .inr (.inr (.inr rfl))
  | env i g' =>
    obtain ⟨-, rfl⟩ := eq_of_env h
    exact .inl rfl

/-- **The invariant rule for guards**: what holds of guard `i` of the stack and survives every
callback and every change of its own holds of guard `i` in every reachable state. -/
theorem guards_of_reach {stack : GuardStack G} {env : G → G → Prop} {I : ℕ → G → Prop}
    (hcallbacks : ∀ i, KeptByCallbacks (I i)) (henv : ∀ i g g', env g g' → I i g → I i g')
    (h0 : ∀ i g, stack.guards[i]? = some g → I i g) {s : StackState G}
    (h : (system stack env).Reach s) :
    s.guards.length = stack.guards.length ∧ ∀ i g, s.guards[i]? = some g → I i g := by
  refine Transition.System.Reach.invariant (I := fun s : StackState G =>
    s.guards.length = stack.guards.length ∧ ∀ i g, s.guards[i]? = some g → I i g) ?_ ?_ h
  · rintro _ rfl
    exact ⟨rfl, h0⟩
  · rintro s a s' _ ⟨hlen, hI⟩ ⟨hnext, hallowed⟩
    rcases next_effect hnext with ⟨heq, -⟩ | ⟨i, g, g', rfl, hg, heq, -⟩ |
      ⟨c, call, now, i, g, callback, result, g', events, frame, -, hg, hvisit, heq, -⟩
    · rw [heq]
      exact ⟨hlen, hI⟩
    · rw [heq]
      refine ⟨by rw [List.length_set, hlen], fun j b hb => ?_⟩
      rcases (Table.getElem?_set_eq_some hg).mp hb with ⟨rfl, rfl⟩ | ⟨-, hb⟩
      · exact henv j g b (hallowed j b rfl g hg) (hI j g hg)
      · exact hI j b hb
    · rw [heq]
      refine ⟨by rw [List.length_set, hlen], fun j b hb => ?_⟩
      rcases (Table.getElem?_set_eq_some hg).mp hb with ⟨rfl, rfl⟩ | ⟨-, hb⟩
      · exact hvisit.keeps (hcallbacks j) (hI j g hg)
      · exact hI j b hb

/-- No run changes the number of guards. -/
theorem length_guards_of_reach {stack : GuardStack G} {env : G → G → Prop} {s : StackState G}
    (h : (system stack env).Reach s) : s.guards.length = stack.guards.length := by
  have htrivial : KeptByCallbacks fun _ : G => True := by
    constructor <;> intros <;> trivial
  exact (guards_of_reach (I := fun _ _ => True) (fun _ => htrivial) (fun _ _ _ _ _ => trivial)
    (fun _ _ _ => trivial) h).1

/-- The state after a list of actions from the start. -/
def after (stack : GuardStack G) (actions : List (StackAction G)) : StackState G :=
  Transition.System.after next (start stack) actions

/-- The state after a list of actions without changes of the guards' own is reachable. -/
theorem reach_after {stack : GuardStack G} {env : G → G → Prop}
    {actions : List (StackAction G)} (hactions : ∀ i g, .env i g ∉ actions) :
    (system stack env).Reach (after stack actions) :=
  Transition.System.reach_after (.init rfl) fun _ ha _ _ hnext =>
    ⟨hnext, fun i g hi => absurd (hi ▸ ha) (hactions i g)⟩

/-- No call is in progress. -/
def Idle (s : StackState G) : Prop := ∀ call ∈ s.calls, call.isReturned

end StackState

end Synclaire
