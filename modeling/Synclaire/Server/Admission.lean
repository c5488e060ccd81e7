import Synclaire.Server.Build

set_option relaxedAutoImplicit false
set_option autoImplicit false

/-!
# Connections between the guard stack and the handler

A server reserves each accepted connection at its stack, opens the transport, marks the session
established and moves the connection into the handler. The session lives in the `Connection`
value: whoever drops that value closes the session. The transport stream can leave the value,
by `into_stream`, which consumes it, or as a clone of the socket.

## Main definitions

* `Synclaire.Custody` — who holds an admitted connection, and what the handler has of it.
* `Synclaire.ServerState` — the stack and the custody of every session it returned.
* `Synclaire.ServerState.next` — the step function.
* `Synclaire.serverSystem` — the runs of a server.
* `Synclaire.ServerState.held` — the connections whose stream a running handler holds.

## Implementation notes

The sync server reserves on its worker threads, so any number of reservations may be under way;
the async server reserves in its accept loop, one after the other. The connection limit, the
job queue and the timeouts of a server only delay or end connections, which the machine may do
at any time: a timeout ends a handler like a return. The guard stack and its allowlist are
private to the server. A handler that exchanges the stream inside its `Connection` for another
one has cloned it, as far as its hold on the stream goes.
-/

namespace Synclaire

/-- The two servers. -/
inductive ServerFlavor
  | sync
  | async
  deriving DecidableEq

/-- Who holds an admitted connection. -/
inductive Custody
  /-- The server prepares the transport. -/
  | opening
  /-- The server marks the session established, by call `call` of the stack. -/
  | establishing (call : ℕ)
  /-- The handler runs: whether it has the `Connection`, and its handles on the stream outside
  of it. -/
  | handling (connection : Bool) (streams : ℕ)
  /-- The handler has returned, or was never called. -/
  | finished
  deriving DecidableEq

/-- A running handler holds the stream, in the `Connection` or outside. -/
def Custody.holdsStream : Custody → Bool
  | .handling connection streams => connection || 0 < streams
  | _ => false

/-- A server in use: its stack, and the custody of each session in the order of the stack's
table. -/
structure ServerState where
  stack : StackState BuiltinGuard
  custody : List Custody
  deriving DecidableEq

/-- A step of a server. -/
inductive ServerAction
  /-- A connection is accepted and `reserve` is called. -/
  | accept (peer : SocketAddr) (localAddr : Option SocketAddr) (tls : Bool) (now : Instant)
  /-- A call of the stack moves on. -/
  | advance (c : ℕ) (now : Instant)
  /-- The transport is ready, and `mark_established` is called. -/
  | opened (k : ℕ)
  /-- The transport failed. -/
  | openFailed (k : ℕ)
  /-- `mark_established` has returned. -/
  | established (k : ℕ)
  /-- `Connection::read` passes bytes to the session. -/
  | read (k : ℕ) (bytes : List UInt8)
  /-- `Connection::write_all` touches the session. -/
  | write (k : ℕ)
  /-- The handler clones the socket. -/
  | cloneStream (k : ℕ)
  /-- `Connection::into_stream`. -/
  | intoStream (k : ℕ)
  /-- The handler drops the `Connection`. -/
  | dropConnection (k : ℕ)
  /-- The handler drops a handle on the stream. -/
  | dropStream (k : ℕ)
  /-- The handler returns and drops what it has. -/
  | complete (k : ℕ)

namespace ServerState

/-- A server that has accepted nothing. -/
def start (config : GuardStackConfig) (now : Instant) : ServerState where
  stack := .start (buildGuardStack config now)
  custody := []

/-- The stack has moved on; sessions it returned are opened by the server. -/
def withStack (s : ServerState) (stack : StackState BuiltinGuard) : ServerState where
  stack := stack
  custody := s.custody ++
    List.replicate (stack.sessions.length - s.stack.sessions.length) .opening

/-- The custody of session `k` changes together with a step of the stack. -/
def handOver (s : ServerState) (k : ℕ) (custody : Custody)
    (action : StackAction BuiltinGuard) : Option ServerState :=
  match s.stack.next action with
  | some stack => some ⟨stack, s.custody.set k custody⟩
  | none => none

/-- The custody of session `k` changes. -/
def setCustody (s : ServerState) (k : ℕ) (custody : Custody) : ServerState :=
  { s with custody := s.custody.set k custody }

/-- A `reserve` call is running. -/
def isReserving (s : ServerState) : Bool :=
  s.stack.calls.any fun call => call.session = none && !call.isReturned

/-- The state after an action, if the action is possible. -/
def next (flavor : ServerFlavor) (s : ServerState) : ServerAction → Option ServerState
  | .accept peer localAddr tls now =>
    if flavor = .async ∧ s.isReserving then none
    else (s.stack.next (.reserve (.new peer localAddr tls now))).map s.withStack
  | .advance c now => (s.stack.next (.advance c now)).map s.withStack
  | .opened k =>
    match s.custody[k]? with
    | some .opening =>
      s.handOver k (.establishing s.stack.calls.length) (.markEstablished k)
    | _ => none
  | .openFailed k =>
    match s.custody[k]? with
    | some .opening => s.handOver k .finished (.drop k)
    | _ => none
  | .established k =>
    match s.custody[k]? with
    | some (.establishing c) =>
      match s.stack.calls[c]?.map StackCall.frame with
      | some (.returned (.ok ())) => some (s.setCustody k (.handling true 0))
      | some (.returned (.error _)) => s.handOver k .finished (.drop k)
      | _ => none
    | _ => none
  | .read k bytes =>
    match s.custody[k]? with
    | some (.handling true streams) =>
      s.handOver k (.handling true streams) (.recordPayload k bytes)
    | _ => none
  | .write k =>
    match s.custody[k]? with
    | some (.handling true streams) => s.handOver k (.handling true streams) (.touch k)
    | _ => none
  | .cloneStream k =>
    match s.custody[k]? with
    | some (.handling connection streams) =>
      if connection || 0 < streams then
        some (s.setCustody k (.handling connection (streams + 1)))
      else none
    | _ => none
  | .intoStream k =>
    match s.custody[k]? with
    | some (.handling true streams) =>
      -- the stream is taken out, and the rest of the `Connection` is dropped
      s.handOver k (.handling false (streams + 1)) (.drop k)
    | _ => none
  | .dropConnection k =>
    match s.custody[k]? with
    | some (.handling true streams) => s.handOver k (.handling false streams) (.drop k)
    | _ => none
  | .dropStream k =>
    match s.custody[k]? with
    | some (.handling connection (streams + 1)) =>
      some (s.setCustody k (.handling connection streams))
    | _ => none
  | .complete k =>
    match s.custody[k]? with
    | some (.handling true _) => s.handOver k .finished (.drop k)
    | some (.handling false _) => some (s.setCustody k .finished)
    | _ => none

/-- A running handler holds the stream of an admitted connection whose context is in `P`. -/
def isHeld (P : GuardContext → Bool) (x : Custody × SessionSlot) : Bool :=
  P x.2.session.context && x.1.holdsStream

/-- The connections from contexts in `P` that the stack admitted and whose stream a running
handler holds. -/
def held (s : ServerState) (P : GuardContext → Bool) : ℕ :=
  (s.custody.zip s.stack.sessions).countP (isHeld P)

end ServerState

/-- The runs of a server. -/
def serverSystem (flavor : ServerFlavor) (config : GuardStackConfig) (now : Instant) :
    Transition.System ServerState ServerAction where
  init s := s = .start config now
  step s a s' := s.next flavor a = some s'

namespace ServerState

/-! ## What a step of a server does -/

/-- An action that changes the custody of session `k` from one state to another, with the step
of the stack that belongs to it, next to `n` calls of the stack. -/
inductive Handover (n k : ℕ) :
    ServerAction → Custody → Option (StackAction BuiltinGuard) → Custody → Prop
  | opened : Handover n k (.opened k) .opening (some (.markEstablished k)) (.establishing n)
  | openFailed : Handover n k (.openFailed k) .opening (some (.drop k)) .finished
  | established {c : ℕ} :
      Handover n k (.established k) (.establishing c) none (.handling true 0)
  | rejected {c : ℕ} :
      Handover n k (.established k) (.establishing c) (some (.drop k)) .finished
  | read {streams : ℕ} {bytes : List UInt8} :
      Handover n k (.read k bytes) (.handling true streams) (some (.recordPayload k bytes))
        (.handling true streams)
  | write {streams : ℕ} :
      Handover n k (.write k) (.handling true streams) (some (.touch k)) (.handling true streams)
  | cloneStream {connection : Bool} {streams : ℕ} : (connection || 0 < streams) = true →
      Handover n k (.cloneStream k) (.handling connection streams) none
        (.handling connection (streams + 1))
  | intoStream {streams : ℕ} :
      Handover n k (.intoStream k) (.handling true streams) (some (.drop k))
        (.handling false (streams + 1))
  | dropConnection {streams : ℕ} :
      Handover n k (.dropConnection k) (.handling true streams) (some (.drop k))
        (.handling false streams)
  | dropStream {connection : Bool} {streams : ℕ} :
      Handover n k (.dropStream k) (.handling connection (streams + 1)) none
        (.handling connection streams)
  | completeOwning {streams : ℕ} :
      Handover n k (.complete k) (.handling true streams) (some (.drop k)) .finished
  | complete {streams : ℕ} :
      Handover n k (.complete k) (.handling false streams) none .finished

/-- The two ways in which a custody changes, with and without a step of the stack. -/
def HandedOver (s : ServerState) (k : ℕ) (new : Custody)
    (action : Option (StackAction BuiltinGuard)) (s' : ServerState) : Prop :=
  match action with
  | some action => ∃ stack, s.stack.next action = some stack ∧ s' = ⟨stack, s.custody.set k new⟩
  | none => s' = s.setCustody k new

/-- A connection is handed over with the call on the stack that goes with it. -/
theorem handOver_cases {s s' : ServerState} {k : ℕ} {new : Custody}
    {action : StackAction BuiltinGuard} (h : s.handOver k new action = some s') :
    s.HandedOver k new (some action) s' := by
  unfold handOver at h
  cases hstack : s.stack.next action with
  | none => rw [hstack] at h; cases h
  | some stack =>
    rw [hstack] at h
    exact ⟨stack, hstack, (Option.some.inj h).symm⟩

/-- **What a step of a server does**: the stack moves in a reservation or in a running call, or
the custody of one session changes. -/
theorem next_cases {flavor : ServerFlavor} {s s' : ServerState} {a : ServerAction}
    (h : s.next flavor a = some s') :
    (∃ action stack, ((∃ ctx, action = .reserve ctx) ∨ ∃ c now, action = .advance c now) ∧
      s.stack.next action = some stack ∧ s' = s.withStack stack) ∨
    (∃ k old action new, s.custody[k]? = some old ∧
      Handover s.stack.calls.length k a old action new ∧ s.HandedOver k new action s') := by
  cases a with
  | accept peer localAddr tls now =>
    rw [next] at h
    split_ifs at h
    obtain ⟨stack, hstack, rfl⟩ := Option.map_eq_some_iff.mp h
    exact .inl ⟨_, stack, .inl ⟨_, rfl⟩, hstack, rfl⟩
  | advance c now =>
    obtain ⟨stack, hstack, rfl⟩ := Option.map_eq_some_iff.mp h
    exact .inl ⟨_, stack, .inr ⟨c, now, rfl⟩, hstack, rfl⟩
  | opened k =>
    rw [next] at h
    split at h
    · next hk => exact .inr ⟨k, _, _, _, hk, .opened, handOver_cases h⟩
    · cases h
  | openFailed k =>
    rw [next] at h
    split at h
    · next hk => exact .inr ⟨k, _, _, _, hk, .openFailed, handOver_cases h⟩
    · cases h
  | established k =>
    rw [next] at h
    split at h
    · next c hk =>
      split at h
      · exact .inr ⟨k, _, none, _, hk, .established, (Option.some.inj h).symm⟩
      · exact .inr ⟨k, _, _, _, hk, .rejected, handOver_cases h⟩
      · cases h
    · cases h
  | read k bytes =>
    rw [next] at h
    split at h
    · next hk => exact .inr ⟨k, _, _, _, hk, .read, handOver_cases h⟩
    · cases h
  | write k =>
    rw [next] at h
    split at h
    · next hk => exact .inr ⟨k, _, _, _, hk, .write, handOver_cases h⟩
    · cases h
  | cloneStream k =>
    rw [next] at h
    split at h
    · next hk =>
      split_ifs at h with hheld
      exact .inr ⟨k, _, none, _, hk, .cloneStream hheld, (Option.some.inj h).symm⟩
    · cases h
  | intoStream k =>
    rw [next] at h
    split at h
    · next hk => exact .inr ⟨k, _, _, _, hk, .intoStream, handOver_cases h⟩
    · cases h
  | dropConnection k =>
    rw [next] at h
    split at h
    · next hk => exact .inr ⟨k, _, _, _, hk, .dropConnection, handOver_cases h⟩
    · cases h
  | dropStream k =>
    rw [next] at h
    split at h
    · next hk => exact .inr ⟨k, _, none, _, hk, .dropStream, (Option.some.inj h).symm⟩
    · cases h
  | complete k =>
    rw [next] at h
    split at h
    · next hk => exact .inr ⟨k, _, _, _, hk, .completeOwning, handOver_cases h⟩
    · next hk => exact .inr ⟨k, _, none, _, hk, .complete, (Option.some.inj h).symm⟩
    · cases h

end ServerState

end Synclaire
