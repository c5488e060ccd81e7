import Synclaire.Proxy.Forward

set_option relaxedAutoImplicit false
set_option autoImplicit false

/-!
# The end of one direction of the relay

A relay copies in both directions until both have ended. The sync relay is two threads on cloned
sockets: a thread whose loop ends drops its handles, but the other thread has handles on the same
sockets, so neither socket is closed and nothing is shut down. The async relay shuts down the
write half of the destination when a direction ends, and drops both sockets at an error.

## Main definitions

* `Synclaire.RelaySocket`, `Synclaire.RelayState` — the two sockets beside the connection.
* `Synclaire.relaySystem` — the runs of a relay and its two peers.
* `Synclaire.RelayState.EndsAloud` — a direction that has ended while the other runs has shut
  down its destination, and dropped nothing that its source sent afterwards.

## Main results

* `Synclaire.RelayState.endsAloud_iff` — when the sync relay does so.
* `Synclaire.RelayState.endsAloud_async` — the async relay does so in every run.

## Implementation notes

A direction relays what the peer of its source sends, so each direction stands for its source,
and the destination is the source of the other direction. The end of a loop and the drop of its
thread's handles are one step. A socket takes bytes from its peer, read or not, as long as some
handle on it exists.
-/

namespace Synclaire

/-- The direction the other way. -/
def Direction.other : Direction → Direction
  | .clientToBackend => .backendToClient
  | .backendToClient => .clientToBackend

/-- Turning back twice is going on. -/
theorem Direction.other_other (d : Direction) : d.other.other = d := by cases d <;> rfl

/-- The two directions differ. -/
theorem Direction.other_ne (d : Direction) : d.other ≠ d := by cases d <;> nofun

/-- A socket of the proxy. -/
structure RelaySocket where
  /-- The bytes that have arrived and were not read. -/
  unread : List UInt8
  /-- The peer has closed its sending side. -/
  peerDone : Bool
  /-- The handles on the socket. -/
  handles : ℕ
  /-- The write half was shut down. -/
  writeShut : Bool
  deriving DecidableEq

namespace RelaySocket

/-- The peer sees the end of the stream: the write half was shut down, or the socket closed. -/
def isWriteClosed (socket : RelaySocket) : Bool := socket.writeShut || socket.handles = 0

/-- A handle on the socket is dropped. -/
def dropHandle (socket : RelaySocket) : RelaySocket :=
  { socket with handles := socket.handles - 1 }

/-- All handles on the socket are dropped. -/
def close (socket : RelaySocket) : RelaySocket := { socket with handles := 0 }

end RelaySocket

/-- A connection, the source of each direction, and what a source has taken from its peer after
the loop of its direction had ended. -/
structure RelayState where
  connection : ForwardState
  socket : Direction → RelaySocket
  late : Direction → List UInt8

/-- A step of a relay or of a peer. -/
inductive RelayAction
  /-- The peer of the source of a direction sends bytes. -/
  | send (d : Direction) (bytes : List UInt8)
  /-- The peer of the source of a direction closes its sending side. -/
  | done (d : Direction)
  | proxy (a : ForwardAction)

/-- The direction whose loop an action ends: by the end of the stream, by an error of a read, a
timeout among them, or by an error of a write. -/
def ForwardAction.endedDirection : ForwardAction → Option Direction
  | .read d (.ok []) => some d
  | .read d (.error _) => some d
  | .writeFailed d _ => some d
  | _ => none

/-- The relay is running and the loop of a direction has ended. -/
def ForwardPhase.hasEnded (d : Direction) : ForwardPhase → Bool
  | .relaying c b => ForwardPhase.loopOf d c b = .ended
  | _ => false

namespace RelayState

/-- A read returns bytes that have arrived, or the end of the stream; with an empty buffer it
returns nothing, which looks like the end. -/
def CanRead (flavor : ProxyFlavor) (config : ForwardConfig) (socket : Direction → RelaySocket) :
    ForwardAction → Prop
  | .read d (.ok []) => (socket d).unread = [] ∧ (socket d).peerDone = true ∨
      flavor = .sync ∧ config.bufferSize = 0
  | .read d (.ok bytes) => bytes <+: (socket d).unread
  | _ => True

instance (flavor : ProxyFlavor) (config : ForwardConfig) (socket : Direction → RelaySocket)
    (a : ForwardAction) : Decidable (CanRead flavor config socket a) := by
  unfold CanRead
  split <;> infer_instance

/-- The sockets after an action of the proxy. -/
def moveSockets (flavor : ProxyFlavor) (socket : Direction → RelaySocket) :
    ForwardAction → Direction → RelaySocket
  | .read d (.ok []) =>
    match flavor with
    -- the thread drops its handles on both sockets
    | .sync => fun e => (socket e).dropHandle
    | .async => Function.update socket d.other { socket d.other with writeShut := true }
  | .read d (.ok bytes) =>
    Function.update socket d { socket d with unread := (socket d).unread.drop bytes.length }
  | .read _ (.error _) | .writeFailed _ _ =>
    match flavor with
    | .sync => fun e => (socket e).dropHandle
    | .async => fun e => (socket e).close
  | .joined | .cancel => fun e => (socket e).close
  | _ => socket

/-- The state after an action, if the action is possible. -/
def next (flavor : ProxyFlavor) (config : ForwardConfig) (auth : ProxyAuth) (s : RelayState) :
    RelayAction → Option RelayState
  | .send d bytes =>
    -- a socket that is open takes the bytes, whether or not somebody will read them
    if (s.socket d).handles = 0 ∨ (s.socket d).peerDone = true then none
    else some { s with
      socket := Function.update s.socket d
        { s.socket d with unread := (s.socket d).unread ++ bytes }
      late :=
        if s.connection.phase.hasEnded d then Function.update s.late d (s.late d ++ bytes)
        else s.late }
  | .done d =>
    some { s with socket := Function.update s.socket d { s.socket d with peerDone := true } }
  | .proxy a =>
    if CanRead flavor config s.socket a then
      match s.connection.next flavor config auth a with
      | some connection => some ⟨connection, moveSockets flavor s.socket a, s.late⟩
      | none => none
    else none

/-- The relay begins: two threads with a handle on each socket each, or one task. -/
structure Begins (flavor : ProxyFlavor) (s : RelayState) : Prop where
  phase : s.connection.phase = .relaying .reading .reading
  handles : ∀ d, (s.socket d).handles =
    match flavor with
    | .sync => 2
    | .async => 1
  writeShut : ∀ d, (s.socket d).writeShut = false
  late : ∀ d, s.late d = []

/-- A direction that has ended while the other runs has shut down the write half of its
destination, and its source has taken nothing since. -/
def EndsAloud (s : RelayState) : Prop :=
  ∀ d, s.connection.phase.hasEnded d = true → s.connection.phase.hasEnded d.other = false →
    (s.socket d.other).isWriteClosed = true ∧ s.late d = []

end RelayState

/-- The runs of a relay and its two peers. -/
def relaySystem (flavor : ProxyFlavor) (config : ForwardConfig) (auth : ProxyAuth) :
    Transition.System RelayState RelayAction where
  init := RelayState.Begins flavor
  step s a s' := s.next flavor config auth a = some s'

namespace RelayState

/-! ## What a step of the relay does -/

open ForwardPhase

/-- Whether a loop has ended, after one was moved. -/
theorem hasEnded_setLoop (d e : Direction) (c b loop : RelayLoop) :
    (setLoop d c b loop).hasEnded e =
      if e = d then decide (loop = .ended) else (ForwardPhase.relaying c b).hasEnded e := by
  cases d <;> cases e <;> rfl

/-- What an action does in the relay, as far as the ends of the loops go. -/
inductive Relays (flavor : ProxyFlavor) (c b : RelayLoop) : ForwardAction → ForwardPhase → Prop
  /-- A read or a write of some bytes. -/
  | copies {a : ForwardAction} {d : Direction} {loop : RelayLoop} (hends : a.endedDirection = none)
      (hactive : loopOf d c b ≠ .ended) (hloop : loop ≠ .ended)
      (hclose : a ≠ .joined ∧ a ≠ .cancel) : Relays flavor c b a (setLoop d c b loop)
  /-- A direction ends by itself: at the end of its stream, or at an error in the sync proxy. -/
  | ends {a : ForwardAction} {d : Direction} (hends : a.endedDirection = some d)
      (hactive : loopOf d c b ≠ .ended) (hcause : flavor = .sync ∨ a = .read d (.ok [])) :
      Relays flavor c b a (setLoop d c b .ended)
  /-- The relay of the async proxy ends at an error, or its task is dropped. -/
  | aborts {a : ForwardAction} {phase : ForwardPhase} (hflavor : flavor = .async)
      (hphase : (∃ r, phase = .finished r) ∨ phase = .cancelled) : Relays flavor c b a phase
  /-- Both directions have ended. -/
  | joins (hc : c = .ended) (hb : b = .ended) : Relays flavor c b .joined (.finished (.ok ()))

/-- These are all effects of an action in the relay. -/
theorem relays_of_effect {flavor : ProxyFlavor} {config : ForwardConfig} {auth : ProxyAuth}
    {c b : RelayLoop} {a : ForwardAction} {effect : ForwardEffect}
    (h : forwardEffect flavor config auth (.relaying c b) a = some effect) :
    Relays flavor c b a effect.phase := by
  cases a with
  | read d bytes =>
    have hloop : loopOf d c b = .reading := by
      cases hl : loopOf d c b with
      | reading => rfl
      | _ => simp [forwardEffect, hl] at h
    have hactive : loopOf d c b ≠ .ended := by simp [hloop]
    cases bytes with
    | error e =>
      simp only [forwardEffect, hloop, Option.some.injEq] at h
      subst h
      cases flavor with
      | sync => exact .ends rfl hactive (.inl rfl)
      | async => exact .aborts rfl (.inl ⟨_, rfl⟩)
    | ok bytes =>
      cases bytes with
      | nil =>
        simp only [forwardEffect, hloop, Option.some.injEq] at h
        subst h
        exact .ends rfl hactive (.inr rfl)
      | cons x rest =>
        simp only [forwardEffect, hloop] at h
        split_ifs at h
        cases d <;>
        · cases h
          exact .copies rfl hactive (by simp) ⟨by simp, by simp⟩
  | write d n =>
    cases hloop : loopOf d c b with
    | writing buf =>
      have hactive : loopOf d c b ≠ .ended := by simp [hloop]
      have hnew : (if buf.drop n = [] then RelayLoop.reading else .writing (buf.drop n)) ≠
          .ended := by
        split_ifs <;> simp
      simp only [forwardEffect, hloop] at h
      cases d <;>
      · cases h
        exact .copies rfl hactive hnew ⟨by simp, by simp⟩
    | reading => simp [forwardEffect, hloop] at h
    | ended => simp [forwardEffect, hloop] at h
  | writeFailed d e =>
    cases hloop : loopOf d c b with
    | writing buf =>
      have hactive : loopOf d c b ≠ .ended := by simp [hloop]
      simp only [forwardEffect, hloop, Option.some.injEq] at h
      subst h
      cases flavor with
      | sync => exact .ends rfl hactive (.inl rfl)
      | async => exact .aborts rfl (.inl ⟨_, rfl⟩)
    | reading => simp [forwardEffect, hloop] at h
    | ended => simp [forwardEffect, hloop] at h
  | joined =>
    cases c <;> cases b <;> cases h
    exact .joins rfl rfl
  | cancel =>
    cases flavor with
    | sync => simp [forwardEffect] at h
    | async =>
      simp only [forwardEffect, Option.some.injEq] at h
      subst h
      exact .aborts rfl (.inr rfl)
  | _ => simp [forwardEffect] at h

variable {flavor : ProxyFlavor} {config : ForwardConfig} {auth : ProxyAuth}
  {s s' : RelayState} {a : ForwardAction}

/-- A step of the proxy: what was read had arrived, and the connection and the sockets move. -/
theorem next_proxy (h : s.next flavor config auth (.proxy a) = some s') :
    CanRead flavor config s.socket a ∧
      ∃ effect, forwardEffect flavor config auth s.connection.phase a = some effect ∧
        s' = ⟨s.connection.apply effect, moveSockets flavor s.socket a, s.late⟩ := by
  simp only [next] at h
  split_ifs at h with hread
  split at h
  · rename_i connection hnext
    obtain ⟨effect, heffect, rfl⟩ := Option.map_eq_some_iff.mp hnext
    exact ⟨hread, effect, heffect, (Option.some.inj h).symm⟩
  · cases h

/-- An action that neither ends a direction nor the relay keeps the handles and the write
halves. -/
theorem moveSockets_of_copies (socket : Direction → RelaySocket) (hends : a.endedDirection = none)
    (hclose : a ≠ .joined ∧ a ≠ .cancel) (d : Direction) :
    (moveSockets flavor socket a d).handles = (socket d).handles ∧
      (moveSockets flavor socket a d).writeShut = (socket d).writeShut ∧
      (moveSockets flavor socket a d).peerDone = (socket d).peerDone := by
  cases a with
  | read e bytes =>
    cases bytes with
    | error _ => cases hends
    | ok bytes =>
      cases bytes with
      | nil => cases hends
      | cons x rest =>
        simp only [moveSockets, Function.update_apply]
        split_ifs with hde
        · subst hde
          exact ⟨rfl, rfl, rfl⟩
        · exact ⟨rfl, rfl, rfl⟩
  | writeFailed _ _ => cases hends
  | joined => exact absurd rfl hclose.1
  | cancel => exact absurd rfl hclose.2
  | _ => exact ⟨rfl, rfl, rfl⟩

/-- In the sync relay the end of a direction drops one handle on each socket. -/
theorem moveSockets_of_ends (socket : Direction → RelaySocket) {d : Direction}
    (hends : a.endedDirection = some d) (e : Direction) :
    moveSockets .sync socket a e = (socket e).dropHandle := by
  cases a with
  | read d' bytes =>
    cases bytes with
    | error _ => rfl
    | ok bytes =>
      cases bytes with
      | nil => rfl
      | cons _ _ => cases hends
  | writeFailed _ _ => rfl
  | _ => cases hends

/-- A step of a peer keeps the connection, the handles and the write halves; it lets a source take
bytes after its loop has ended only if that peer has not closed. -/
theorem next_peer {x : RelayAction} (h : s.next flavor config auth x = some s')
    (hx : ∀ a, x ≠ .proxy a) :
    s'.connection = s.connection ∧ ∀ d,
      (s'.socket d).handles = (s.socket d).handles ∧
      (s'.socket d).writeShut = (s.socket d).writeShut ∧
      ((s.socket d).peerDone = true → (s'.socket d).peerDone = true) ∧
      (s'.late d = s.late d ∨
        s.connection.phase.hasEnded d = true ∧ (s.socket d).peerDone = false) := by
  cases x with
  | proxy a => exact absurd rfl (hx a)
  | done e =>
    obtain rfl := Option.some.inj h
    refine ⟨rfl, fun d => ?_⟩
    simp only [Function.update_apply]
    split_ifs with hde
    · subst hde
      exact ⟨rfl, rfl, fun _ => rfl, .inl trivial⟩
    · exact ⟨rfl, rfl, id, .inl trivial⟩
  | send e bytes =>
    simp only [next] at h
    split_ifs at h with hshut hended
    all_goals
      obtain rfl := Option.some.inj h
      refine ⟨rfl, fun d => ?_⟩
      simp only [Function.update_apply]
    · split_ifs with hde
      · subst hde
        exact ⟨rfl, rfl, id, .inr ⟨hended, Bool.eq_false_iff.mpr fun hd => hshut (.inr hd)⟩⟩
      · exact ⟨rfl, rfl, id, .inl rfl⟩
    · split_ifs with hde
      · subst hde
        exact ⟨rfl, rfl, id, .inl trivial⟩
      · exact ⟨rfl, rfl, id, .inl trivial⟩

/-- A connection in its relay, or behind it. -/
def InRelay (phase : ForwardPhase) : Prop :=
  (∃ c b, phase = .relaying c b) ∨ (∃ r, phase = .finished r) ∨ phase = .cancelled

/-- A step in the relay leads to the relay or behind it, and does what `Relays` says. -/
theorem InRelay.step {phase : ForwardPhase} {effect : ForwardEffect} (hin : InRelay phase)
    (h : forwardEffect flavor config auth phase a = some effect) :
    ∃ c b, phase = .relaying c b ∧ Relays flavor c b a effect.phase := by
  rcases hin with ⟨c, b, rfl⟩ | ⟨r, rfl⟩ | rfl
  · exact ⟨c, b, rfl, relays_of_effect h⟩
  · cases a <;> cases h
  · cases a <;> cases h

/-! ## The sync relay -/

/-- The directions that run. -/
def running : ForwardPhase → ℕ
  | .relaying c b => (if c = .ended then 0 else 1) + (if b = .ended then 0 else 1)
  | _ => 0

/-- The number of directions that run, when a loop that has not ended is moved. -/
theorem running_setLoop {d : Direction} {c b : RelayLoop} (hactive : loopOf d c b ≠ .ended)
    (loop : RelayLoop) :
    running (setLoop d c b loop) + 1 =
      running (.relaying c b) + (if loop = .ended then 0 else 1) := by
  cases d with
  | clientToBackend =>
    have hc : c ≠ .ended := hactive
    simp only [setLoop, running, if_neg hc]
    omega
  | backendToClient =>
    have hb : b ≠ .ended := hactive
    simp only [setLoop, running, if_neg hb]
    omega

/-- Where one direction has ended and the other has not, one runs. -/
theorem running_eq_one {phase : ForwardPhase} {d : Direction} (hended : phase.hasEnded d = true)
    (hother : phase.hasEnded d.other = false) : running phase = 1 := by
  cases phase with
  | relaying c b =>
    have hd := of_decide_eq_true hended
    have ho := of_decide_eq_false hother
    cases d with
    | clientToBackend =>
      have hc : c = .ended := hd
      have hb : b ≠ .ended := ho
      simp only [running, if_pos hc, if_neg hb]
    | backendToClient =>
      have hb : b = .ended := hd
      have hc : c ≠ .ended := ho
      simp only [running, if_pos hb, if_neg hc]
  | _ => cases hended

/-- What holds in every run of the sync relay: nothing was shut down, and each socket has a handle
for each direction that runs. -/
structure Cloned (s : RelayState) : Prop where
  phase : InRelay s.connection.phase
  writeShut : ∀ d, (s.socket d).writeShut = false
  handles : ∀ d, (s.socket d).handles = running s.connection.phase

/-- A loop that is moved stays in the relay. -/
theorem inRelay_setLoop (d : Direction) (c b loop : RelayLoop) : InRelay (setLoop d c b loop) := by
  cases d <;> exact .inl ⟨_, _, rfl⟩

/-- A step of the proxy keeps the handles in step with the loops. -/
theorem Cloned.proxy (hs : s.Cloned) (h : s.next .sync config auth (.proxy a) = some s') :
    s'.Cloned := by
  obtain ⟨-, effect, heffect, rfl⟩ := next_proxy h
  obtain ⟨c, b, hphase, hrelays⟩ := hs.phase.step heffect
  have hhandles := hs.handles
  rw [hphase] at hhandles
  obtain ⟨phase, received, sentToBackend, sentToClient⟩ := effect
  cases hrelays with
  | @copies _ d loop hends hactive hloop hclose =>
    have hrun := running_setLoop hactive loop
    rw [if_neg hloop] at hrun
    refine ⟨inRelay_setLoop d c b loop, fun e => ?_, fun e => ?_⟩
    · exact (moveSockets_of_copies s.socket hends hclose e).2.1.trans (hs.writeShut e)
    · refine ((moveSockets_of_copies s.socket hends hclose e).1.trans (hhandles e)).trans ?_
      exact (Nat.add_right_cancel hrun).symm
  | @ends _ d hends hactive hcause =>
    have hrun := running_setLoop hactive .ended
    rw [if_pos rfl] at hrun
    refine ⟨inRelay_setLoop d c b .ended, fun e => ?_, fun e => ?_⟩
    · show (moveSockets .sync s.socket a e).writeShut = false
      rw [moveSockets_of_ends s.socket hends]
      exact hs.writeShut e
    · show (moveSockets .sync s.socket a e).handles = running (setLoop d c b .ended)
      rw [moveSockets_of_ends s.socket hends, RelaySocket.dropHandle, hhandles e]
      simp only
      omega
  | aborts hflavor hphase => cases hflavor
  | joins hc hb => exact ⟨.inr (.inl ⟨_, rfl⟩), hs.writeShut, fun e => rfl⟩

/-- The sync relay keeps its handles in step with its loops. -/
theorem cloned_of_reach (h : (relaySystem .sync config auth).Reach s) : s.Cloned := by
  refine h.invariant ?_ ?_
  · rintro s ⟨hphase, hhandles, hshut, -⟩
    refine ⟨.inl ⟨_, _, hphase⟩, hshut, fun d => ?_⟩
    rw [hphase]
    exact hhandles d
  · rintro s x s' - hs hstep
    by_cases hx : ∃ a, x = .proxy a
    · obtain ⟨a, rfl⟩ := hx
      exact hs.proxy hstep
    · obtain ⟨hconnection, hsockets⟩ := next_peer hstep fun a ha => hx ⟨a, ha⟩
      refine ⟨hconnection ▸ hs.phase, fun d => ?_, fun d => ?_⟩
      · exact (hsockets d).2.1.trans (hs.writeShut d)
      · exact ((hsockets d).1.trans (hs.handles d)).trans (by rw [hconnection])

/-- In the sync relay a direction that has ended while the other runs has not closed its
destination. -/
theorem Cloned.not_endsAloud (hs : s.Cloned) {d : Direction}
    (hended : s.connection.phase.hasEnded d = true)
    (hother : s.connection.phase.hasEnded d.other = false) : ¬ s.EndsAloud := by
  intro haloud
  have hclosed := (haloud d hended hother).1
  rw [RelaySocket.isWriteClosed, hs.writeShut, hs.handles, running_eq_one hended hother] at hclosed
  cases hclosed

/-- The step does not end a direction. -/
def GoesOn (x : RelayAction) : Prop := ∀ a, x = .proxy a → a.endedDirection = none

/-- An action that ends no direction keeps the ends of the loops, or ends the relay. -/
theorem Relays.hasEnded_of_none {c b : RelayLoop} {phase : ForwardPhase}
    (h : Relays .sync c b a phase) (hends : a.endedDirection = none) :
    (∀ d, phase.hasEnded d = (ForwardPhase.relaying c b).hasEnded d) ∨
      ∀ d, phase.hasEnded d = false := by
  cases h with
  | copies _ hactive hloop =>
    refine .inl fun e => ?_
    rw [hasEnded_setLoop]
    split_ifs with hde
    · subst hde
      rw [decide_eq_false hloop]
      exact (decide_eq_false hactive).symm
    · rfl
  | ends hsome => cases hends.symm.trans hsome
  | aborts hflavor => cases hflavor
  | joins => exact .inr fun _ => rfl

/-- An action that ends a direction finds it running. -/
theorem Relays.hasEnded_of_some {c b : RelayLoop} {phase : ForwardPhase} {d : Direction}
    (h : Relays .sync c b a phase) (hends : a.endedDirection = some d) :
    (ForwardPhase.relaying c b).hasEnded d = false ∧ phase = setLoop d c b .ended := by
  cases h with
  | copies hnone => rw [hnone] at hends; cases hends
  | ends hsome hactive =>
    obtain rfl := Option.some.inj (hsome.symm.trans hends)
    exact ⟨decide_eq_false hactive, rfl⟩
  | aborts hflavor => cases hflavor
  | joins => cases hends

/-- From a state in which no direction has ended alone, a step leads to such a state iff it ends
no direction. -/
theorem endsAloud_step_iff {x : RelayAction} (hreach : (relaySystem .sync config auth).Reach s)
    (haloud : s.EndsAloud) (h : s.next .sync config auth x = some s') :
    s'.EndsAloud ↔ GoesOn x := by
  have hs := cloned_of_reach hreach
  have hs' := cloned_of_reach (hreach.step h)
  -- no direction has ended alone before the step
  have halone : ∀ d, s.connection.phase.hasEnded d = true →
      s.connection.phase.hasEnded d.other = true := fun d hended =>
    Bool.not_eq_false _ ▸ fun hother => hs.not_endsAloud hended hother haloud
  by_cases hx : ∃ a, x = .proxy a
  · obtain ⟨a, rfl⟩ := hx
    obtain ⟨-, effect, heffect, rfl⟩ := next_proxy h
    obtain ⟨c, b, hphase, hrelays⟩ := hs.phase.step heffect
    rw [hphase] at halone
    cases hends : a.endedDirection with
    | none =>
      refine iff_of_true (fun d hended hother => ?_) fun a' ha => by cases ha; exact hends
      have hsame := hrelays.hasEnded_of_none hends
      rcases hsame with hsame | hfinished
      · have hd : effect.phase.hasEnded d = true := hended
        have ho : effect.phase.hasEnded d.other = false := hother
        rw [hsame] at hd ho
        rw [halone d hd] at ho
        cases ho
      · cases (hfinished d).symm.trans hended
    | some d =>
      obtain ⟨hbefore, hafter⟩ := hrelays.hasEnded_of_some hends
      refine iff_of_false (hs'.not_endsAloud (d := d) ?_ ?_) fun hgoes => by
        cases (hgoes a rfl).symm.trans hends
      · show effect.phase.hasEnded d = true
        rw [hafter, hasEnded_setLoop, if_pos rfl]
        rfl
      · show effect.phase.hasEnded d.other = false
        rw [hafter, hasEnded_setLoop, if_neg d.other_ne]
        refine Bool.eq_false_iff.mpr fun hother => ?_
        have hback := halone d.other hother
        rw [d.other_other, hbefore] at hback
        cases hback
  · obtain ⟨hconnection, -⟩ := next_peer h fun a ha => hx ⟨a, ha⟩
    refine iff_of_true (fun d hended hother => ?_) fun a ha => absurd ⟨a, ha⟩ hx
    rw [hconnection] at hended hother
    rw [halone d hended] at hother
    cases hother

/-- **When no direction of the sync relay ends silently**: in all states of a run every direction
that has ended while the other runs has shut down its destination and dropped nothing, if and only
if no step of the run ends a direction.

**Proof sketch.** A direction that ends first leaves its destination open, with the handle of the
other thread on it (`Cloned`). -/
theorem endsAloud_iff (config : ForwardConfig) (auth : ProxyAuth) {s₀ s : RelayState}
    {tr : List (Transition.Taken RelayState RelayAction)} (h0 : Begins .sync s₀)
    (h : (relaySystem .sync config auth).Run s₀ tr s) :
    (∀ x ∈ tr, x.target.EndsAloud) ↔ ∀ x ∈ tr, GoesOn x.label := by
  refine h.forall_target_iff (G := fun _ x _ => GoesOn x)
    (fun s x s' hreach haloud hstep => endsAloud_step_iff hreach haloud hstep) (.init h0) ?_
  intro d hended
  rw [h0.phase] at hended
  cases d <;> cases hended

/-- A relay whose client has sent four bytes. -/
def pingStart : RelayState where
  connection := ⟨.relaying .reading .reading, [], [], []⟩
  socket
    | .clientToBackend => ⟨[1, 2, 3, 4], false, 2, false⟩
    | .backendToClient => ⟨[], false, 2, false⟩
  late _ := []

/-- The start is a beginning. -/
theorem begins_pingStart : Begins .sync pingStart := by
  refine ⟨rfl, fun d => ?_, fun d => ?_, fun _ => rfl⟩ <;> cases d <;> rfl

/-- A configuration of the proxy for these examples. -/
def relayConfig : ForwardConfig := ⟨.v4 (ipv4 10 0 0 9) 80, 8192, .fromSecs 30, false⟩

/-- The client's bytes go to the backend. -/
def pingRun : List RelayAction :=
  [.proxy (.read .clientToBackend (.ok [1, 2, 3, 4])), .proxy (.write .clientToBackend 4)]

/-- The relay copies in both directions, and none has ended. -/
theorem endsAloud_ping :
    (Transition.System.follow (next .sync relayConfig .none) pingStart
        pingRun).2.connection.sentToBackend = [1, 2, 3, 4] ∧
      ∀ x ∈ (Transition.System.follow (next .sync relayConfig .none) pingStart pingRun).1,
        x.target.EndsAloud := by
  refine ⟨by decide +kernel, (endsAloud_iff relayConfig .none begins_pingStart
    (Transition.System.run_follow (fun _ _ _ hnext => hnext) pingRun _)).mpr ?_⟩
  intro x hx a ha
  have hmem := Transition.System.label_mem_of_follow hx
  rw [ha] at hmem
  simp only [pingRun, List.mem_cons, RelayAction.proxy.injEq, List.not_mem_nil, or_false] at hmem
  rcases hmem with rfl | rfl <;> rfl

/-- The backend is silent until its read times out, and then sends its answer. -/
def lateRun : List RelayAction :=
  [.proxy (.read .backendToClient (.error "Resource temporarily unavailable".toList)),
    .send .backendToClient [5, 6]]

/-- **A silent end**: a read timeout ends one direction; the client is not told, and the backend's
answer is taken and dropped. -/
theorem not_forall_endsAloud :
    ¬ ∀ (config : ForwardConfig) (auth : ProxyAuth) (s₀ s : RelayState)
      (tr : List (Transition.Taken RelayState RelayAction)), Begins .sync s₀ →
        (relaySystem .sync config auth).Run s₀ tr s → ∀ x ∈ tr, x.target.EndsAloud := by
  intro hall
  have hend := hall relayConfig .none pingStart _ _ begins_pingStart
    (Transition.System.run_follow (fun _ _ _ hnext => hnext) lateRun _)
  have hlast := hend _ (List.mem_of_getElem? (i := 1) rfl) .backendToClient rfl rfl
  exact absurd hlast.1 (by decide)

/-! ## The async relay -/

/-- What holds in every run of the async relay: a direction that has ended has met the end of its
source and shut down its destination, and no source takes bytes after the end of its direction. -/
structure ShutDown (s : RelayState) : Prop where
  phase : InRelay s.connection.phase
  ended : ∀ d, s.connection.phase.hasEnded d = true →
    (s.socket d).peerDone = true ∧ (s.socket d.other).writeShut = true
  late : ∀ d, s.late d = []

/-- A step of the proxy keeps what was shut down. -/
theorem ShutDown.proxy (hs : s.ShutDown) (h : s.next .async config auth (.proxy a) = some s') :
    s'.ShutDown := by
  obtain ⟨hread, effect, heffect, rfl⟩ := next_proxy h
  obtain ⟨c, b, hphase, hrelays⟩ := hs.phase.step heffect
  have hended := hs.ended
  rw [hphase] at hended
  obtain ⟨phase, received, sentToBackend, sentToClient⟩ := effect
  cases hrelays with
  | @copies _ d loop hends hactive hloop hclose =>
    refine ⟨inRelay_setLoop d c b loop, fun e he => ?_, hs.late⟩
    have hold : (ForwardPhase.relaying c b).hasEnded e = true := by
      have he' : (setLoop d c b loop).hasEnded e = true := he
      rw [hasEnded_setLoop] at he'
      split_ifs at he' with hed
      · exact absurd (of_decide_eq_true he') hloop
      · exact he'
    exact ⟨(moveSockets_of_copies s.socket hends hclose e).2.2.trans (hended e hold).1,
      (moveSockets_of_copies s.socket hends hclose e.other).2.1.trans (hended e hold).2⟩
  | @ends _ d hends hactive hcause =>
    obtain rfl : a = .read d (.ok []) := hcause.resolve_left nofun
    have hdone : (s.socket d).peerDone = true := (hread.resolve_right fun h => by cases h.1).2
    refine ⟨inRelay_setLoop d c b .ended, fun e he => ?_, hs.late⟩
    have he' : (setLoop d c b .ended).hasEnded e = true := he
    rw [hasEnded_setLoop] at he'
    simp only [moveSockets, Function.update_apply]
    by_cases hed : e = d
    · subst hed
      rw [if_neg e.other_ne.symm, if_pos rfl]
      exact ⟨hdone, rfl⟩
    · rw [if_neg hed] at he'
      obtain rfl : e = d.other := by
        cases e <;> cases d <;> first | rfl | exact absurd rfl hed
      rw [if_pos rfl, if_neg d.other.other_ne, d.other_other]
      have hboth := hended d.other he'
      rw [d.other_other] at hboth
      exact hboth
  | aborts hflavor hphase =>
    refine ⟨.inr hphase, fun e he => ?_, hs.late⟩
    rcases hphase with ⟨r, rfl⟩ | rfl
    · cases he
    · cases he
  | joins => exact ⟨.inr (.inl ⟨_, rfl⟩), nofun, hs.late⟩

/-- The async relay shuts down what it ends. -/
theorem shutDown_of_reach (h : (relaySystem .async config auth).Reach s) : s.ShutDown := by
  refine h.invariant ?_ ?_
  · rintro s ⟨hphase, -, -, hlate⟩
    refine ⟨.inl ⟨_, _, hphase⟩, fun d hended => ?_, hlate⟩
    rw [hphase] at hended
    cases d <;> cases hended
  · rintro s x s' - hs hstep
    by_cases hx : ∃ a, x = .proxy a
    · obtain ⟨a, rfl⟩ := hx
      exact hs.proxy hstep
    · obtain ⟨hconnection, hsockets⟩ := next_peer hstep fun a ha => hx ⟨a, ha⟩
      refine ⟨hconnection ▸ hs.phase, fun d hended => ?_, fun d => ?_⟩
      · rw [hconnection] at hended
        exact ⟨(hsockets d).2.2.1 (hs.ended d hended).1,
          (hsockets d.other).2.1.trans (hs.ended d hended).2⟩
      · rcases (hsockets d).2.2.2 with hsame | ⟨hended, hopen⟩
        · exact hsame.trans (hs.late d)
        · rw [(hs.ended d hended).1] at hopen
          cases hopen

/-- **The async relay ends no direction silently**, in any run. -/
theorem endsAloud_async (h : (relaySystem .async config auth).Reach s) : s.EndsAloud := by
  have hs := shutDown_of_reach h
  intro d hended _
  refine ⟨?_, hs.late d⟩
  rw [RelaySocket.isWriteClosed, (hs.ended d hended).2]
  rfl

end RelayState

end Synclaire
