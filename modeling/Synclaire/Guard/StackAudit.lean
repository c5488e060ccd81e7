import Synclaire.Guard.SessionLife
import Synclaire.Guard.StackLedger

set_option relaxedAutoImplicit false
set_option autoImplicit false

/-!
# What the observer sees

Each loop over the guards emits its events by hand. The callbacks are recorded, under the names the
guards have after them, and the record is compared with the events.

An event names its guard by its name only, so guards of one name are counted together. The events of
some addresses only are counted, as a predicate `P` selects them.

## Main definitions

* `Synclaire.Audit` — the stack beside the callbacks of the named guards.
* `Synclaire.audits` — the transition system of a stack that is audited.
* `Synclaire.Audit.Complete` — the observer has seen every refusal and every close.
* `Synclaire.StackState.isSilent` — a step after which a guard has decided and no event tells.

## Main results

* `Synclaire.Visit.covered_iff` — a visit is covered by its events exactly if it is not silent.
* `Synclaire.Audit.complete_iff` — the observer sees everything in a run without silent steps.

## Implementation notes

A refused reservation emits its event after the guards before the refusing one were closed. A call
that has not come so far still owes the event.
-/

namespace Synclaire

open Transition

/-! ## What is counted -/

/-- The call still has to tell that a guard of this name refused a reservation. -/
def StackFrame.owesDenial (name : Str) (kind : GuardEventKind) : StackFrame → Bool
  | .rollback _ rejecting _ => rejecting = name && .reserve = kind
  | _ => false

namespace Audit

variable (P : SocketAddr → Bool) (name : Str) (kind : GuardEventKind)

/-- The callback was refused by a guard of this name in this phase. -/
def isRefusal (x : Str × CallbackRecord) : Bool :=
  P x.2.context.peerAddr && (x.1 = name && x.2.callback.kind = kind && !x.2.result.isOk)

/-- The callback is a reservation that a guard of this name accepted. -/
def isAccepted (x : Str × CallbackRecord) : Bool :=
  P x.2.context.peerAddr && (x.1 = name && x.2.callback.kind = .reserve && x.2.result.isOk)

/-- The callback is a close of a guard of this name. -/
def isClose (x : Str × CallbackRecord) : Bool :=
  P x.2.context.peerAddr && (x.1 = name && x.2.callback.kind = .close)

/-- The event tells that a guard of this name refused in this phase. -/
def isDenial (e : GuardEvent) : Bool :=
  P e.peerAddr && (e.guard = name && e.kind = kind && e.decision ≠ .allow)

/-- The event tells that a guard of this name accepted a reservation. -/
def isAllowedReserve (e : GuardEvent) : Bool :=
  P e.peerAddr && (e.guard = name && e.kind = .reserve && e.decision = .allow)

/-- The event tells that a guard of this name was closed. -/
def isCloseEvent (e : GuardEvent) : Bool := P e.peerAddr && (e.guard = name && e.kind = .close)

/-- The call still has to tell of a refusal. -/
def isPending (call : StackCall) : Bool :=
  P call.context.peerAddr && call.frame.owesDenial name kind

end Audit

/-- A stack, and the callbacks its guards have received, with the names of the guards. -/
structure Audit (G : Type*) where
  state : StackState G
  named : List (Str × CallbackRecord)

namespace Audit

variable {G : Type*} [Guard G]

/-- The name of guard `i`. -/
def nameOf (s : StackState G) (i : ℕ) : Str := ((s.guards[i]?).map Guard.name).getD []

/-- An action of the stack; the callback it makes is recorded under the name of its guard. -/
def next (s : Audit G) (a : StackAction G) : Option (Audit G) :=
  (s.state.next a).map fun state =>
    ⟨state, s.named ++
      (state.log.drop s.state.log.length).map fun r => (nameOf state r.guard, r)⟩

/-- The audit of a stack before its first call. -/
def start (stack : GuardStack G) : Audit G := ⟨.start stack, []⟩

/-- The observer has seen everything: for each name and phase as many refusals were told, or still
have to be, as there were; as many closes were told as there were; and the reservations told to be
accepted less the closes told are the reservations that guards of this name hold, accepted and not
closed. -/
structure Complete (s : Audit G) : Prop where
  denials : ∀ P name kind, s.named.countP (isRefusal P name kind) =
    s.state.events.countP (isDenial P name kind) + s.state.calls.countP (isPending P name kind)
  closes : ∀ P name,
    s.named.countP (isClose P name) = s.state.events.countP (isCloseEvent P name)
  held : ∀ P name, (s.state.events.countP (isAllowedReserve P name) : ℤ) -
    s.state.events.countP (isCloseEvent P name) =
      s.named.countP (isAccepted P name) - s.named.countP (isClose P name)

end Audit

/-- The machine of an audited stack whose guards change by themselves as `env` allows. -/
def audits {G : Type*} [Guard G] (stack : GuardStack G) (env : G → G → Prop) :
    System (Audit G) (StackAction G) where
  init s := s = .start stack
  step s a s' := s.next a = some s' ∧
    ∀ i g', a = .env i g' → ∀ g, s.state.guards[i]? = some g → env g g'

/-! ## Silent steps -/

/-- The guard that the frame visits next. -/
def StackFrame.place : StackFrame → Option ℕ
  | .reserve i => some i
  | .rollback (r + 1) _ _ => some r
  | .established i => some i
  | .payload i _ _ => some i
  | .activity i => some i
  | .close i => some i
  | _ => none

/-- The visit of the guard is not told: it is closed by a rollback, or refuses outside of a
reservation. -/
def StackFrame.isSilent {G : Type*} [Guard G] (g : G) (ctx : GuardContext) (now : Instant) :
    StackFrame → Bool
  | .rollback _ _ _ => true
  | .established _ => !(Guard.onEstablished g ctx now).1.isOk
  | .payload _ false _ => !(Guard.onActivity g ctx now).1.isOk
  | .payload _ true bytes => !(Guard.onPayload g ctx bytes now).1.isOk
  | .activity _ => !(Guard.onActivity g ctx now).1.isOk
  | _ => false

/-- The action moves a call to a guard whose visit is not told. -/
def StackState.isSilent {G : Type*} [Guard G] (s : StackState G) : StackAction G → Bool
  | .advance c now =>
    (s.calls[c]?).any fun call => (call.frame.place.bind (s.guards[·]?)).any fun g =>
      call.frame.isSilent g call.context now
  | _ => false

/-! ## Visits -/

section Visit

variable {G : Type*} [Guard G]

/-- The events of a visit tell what it was: a refusal is told or owed from then on, and a close is
told. -/
structure Covered (name : Str) (r : CallbackRecord) (events : List GuardEvent)
    (frame frame' : StackFrame) : Prop where
  denial : ∀ P n kind, (Audit.isRefusal P n kind (name, r)).toNat +
    (P r.context.peerAddr && frame.owesDenial n kind).toNat =
      events.countP (Audit.isDenial P n kind) +
        (P r.context.peerAddr && frame'.owesDenial n kind).toNat
  close : ∀ P n, (Audit.isClose P n (name, r)).toNat = events.countP (Audit.isCloseEvent P n)

/-- One event counts once or not at all. -/
theorem countP_singleton_toNat {α : Type*} (p : α → Bool) (x : α) :
    [x].countP p = (p x).toNat := by
  rw [List.countP_singleton]
  cases p x <;> rfl

/-- An accepted callback is told, a close included. -/
theorem covered_accepted (name : Str) (i o : ℕ) (ctx : GuardContext) (callback : Callback)
    (now : Instant) {frame frame' : StackFrame} (hframe : ∀ n kind, frame.owesDenial n kind = false)
    (hframe' : ∀ n kind, frame'.owesDenial n kind = false) :
    Covered name ⟨i, o, ctx, callback, .ok ()⟩ [acceptedEvent name ctx callback now] frame
      frame' where
  denial P n kind := by
    rw [hframe, hframe', countP_singleton_toNat]
    simp [Audit.isRefusal, Audit.isDenial, acceptedEvent, Except.isOk, Except.toBool]
  close P n := by
    rw [countP_singleton_toNat]
    rfl

/-- A refusal that is neither told nor owed is not covered. -/
theorem not_covered_refusal (name : Str) (i o : ℕ) (ctx : GuardContext) (callback : Callback)
    (err : SynError) {frame frame' : StackFrame}
    (hframe' : ∀ n kind, frame'.owesDenial n kind = false) :
    ¬Covered name ⟨i, o, ctx, callback, .error err⟩ [] frame frame' := by
  intro h
  have hdenial := h.denial (fun _ => true) name callback.kind
  rw [hframe'] at hdenial
  simp [Audit.isRefusal, Except.isOk, Except.toBool] at hdenial

/-- A close that is not told is not covered. -/
theorem not_covered_close (name : Str) (i o : ℕ) (ctx : GuardContext)
    (result : Except SynError Unit) (frame frame' : StackFrame) :
    ¬Covered name ⟨i, o, ctx, .close, result⟩ [] frame frame' := by
  intro h
  have hclose := h.close (fun _ => true) name
  simp [Audit.isClose, Callback.kind] at hclose

namespace StackState.Visit

variable {g g' : G} {ctx : GuardContext} {now : Instant} {i : ℕ} {frame frame' : StackFrame}
  {callback : Callback} {result : Except SynError Unit} {events : List GuardEvent}

/-- A call visits the guard of its frame. -/
theorem place_eq (h : Visit g ctx now i frame callback result g' events frame') :
    frame.place = some i := by
  cases h <;> rfl

/-- Every reservation that a guard accepts is told. -/
theorem accepted_eq (h : Visit g ctx now i frame callback result g' events frame') (o : ℕ)
    (P : SocketAddr → Bool) (n : Str) :
    (Audit.isAccepted P n (Guard.name g', ⟨i, o, ctx, callback, result⟩)).toNat =
      events.countP (Audit.isAllowedReserve P n) := by
  cases h with
  | reserveOk _ =>
    rw [countP_singleton_toNat]
    rfl
  | _ =>
    simp [Audit.isAccepted, Audit.isAllowedReserve, acceptedEvent, Callback.kind, Except.isOk,
      Except.toBool]

/-- **A visit is covered by its events exactly if it is not silent.**

**Proof sketch.** One case for each visit. What is accepted is told, a refused reservation is owed,
and the other refusals and the closes of a rollback are neither told nor owed. -/
theorem covered_iff (h : Visit g ctx now i frame callback result g' events frame') (o : ℕ) :
    Covered (Guard.name g') ⟨i, o, ctx, callback, result⟩ events frame frame' ↔
      frame.isSilent g ctx now = false := by
  cases h with
  | reserveOk _ =>
    exact iff_of_true (covered_accepted _ i o ctx _ now (fun _ _ => rfl) fun _ _ => rfl) rfl
  | @reserveError _ err _ =>
    refine iff_of_true ⟨fun P n kind => ?_, fun P n => ?_⟩ rfl
    · have hrefusal : Audit.isRefusal P n kind
          (Guard.name g', ⟨i, o, ctx, .reserve, .error err⟩) = (P ctx.peerAddr &&
            (StackFrame.rollback i (Guard.name g') err).owesDenial n kind) :=
        congrArg (P ctx.peerAddr && ·) (Bool.and_true _)
      rw [hrefusal]
      simp [StackFrame.owesDenial]
    · simp [Audit.isClose, Callback.kind]
  | rollback =>
    exact iff_of_false (not_covered_close _ i o ctx _ _ _) (by simp [StackFrame.isSilent])
  | establishedOk hr | payloadOk hr | activityOk hr =>
    exact iff_of_true (covered_accepted _ i o ctx _ now (fun _ _ => rfl) fun _ _ => rfl)
      (by simp [StackFrame.isSilent, hr, Except.isOk, Except.toBool])
  | establishedError hr | payloadTouchError hr | payloadError hr | activityError hr =>
    exact iff_of_false (not_covered_refusal _ i o ctx _ _ fun _ _ => rfl)
      (by simp [StackFrame.isSilent, hr, Except.isOk, Except.toBool])
  | payloadTouch hr =>
    refine iff_of_true ⟨fun P n kind => ?_, fun P n => ?_⟩
      (by simp [StackFrame.isSilent, hr, Except.isOk, Except.toBool])
    · simp [Audit.isRefusal, StackFrame.owesDenial, Except.isOk, Except.toBool]
    · simp [Audit.isClose, Callback.kind]
  | close =>
    exact iff_of_true (covered_accepted _ i o ctx _ now (fun _ _ => rfl) fun _ _ => rfl) rfl

end StackState.Visit

end Visit

/-! ## Steps -/

section Step

variable {G : Type*} {s s' : StackState G} {a : StackAction G}

/-- A step without a callback: its events tell what was owed, and nothing else. -/
structure Told (s s' : StackState G) (events : List GuardEvent) : Prop where
  log : s'.log = s.log
  events_eq : s'.events = (s.emit events).events
  denial : ∀ P n kind, s.calls.countP (Audit.isPending P n kind) =
    events.countP (Audit.isDenial P n kind) + s'.calls.countP (Audit.isPending P n kind)
  allowed : ∀ P n, events.countP (Audit.isAllowedReserve P n) = 0
  close : ∀ P n, events.countP (Audit.isCloseEvent P n) = 0

/-- A step that tells nothing and leaves the calls as they were. -/
theorem told_nil (hlog : s'.log = s.log) (hevents : s'.events = s.events)
    (hcalls : ∀ P n kind, s'.calls.countP (Audit.isPending P n kind) =
      s.calls.countP (Audit.isPending P n kind)) : Told s s' [] where
  log := hlog
  events_eq := by rw [StackState.emit_nil, hevents]
  denial P n kind := by rw [hcalls, List.countP_nil, Nat.zero_add]
  allowed _ _ := rfl
  close _ _ := rfl

/-- A call that begins owes no refusal. -/
theorem countP_isPending_append (calls : List StackCall) {call : StackCall}
    (hframe : ∀ n kind, call.frame.owesDenial n kind = false) (P : SocketAddr → Bool) (n : Str)
    (kind : GuardEventKind) : (calls ++ [call]).countP (Audit.isPending P n kind) =
      calls.countP (Audit.isPending P n kind) := by
  rw [Table.countP_append_singleton]
  unfold Audit.isPending
  rw [hframe, Bool.and_false]
  rfl

/-- The first step of a call on a session does not lead to a rollback. -/
theorem owesDenial_first (call : SessionCall) (slot : SessionSlot) (n : Str)
    (kind : GuardEventKind) : (call.first slot).2.owesDenial n kind = false := by
  have hfirst := call.begins_first slot
  generalize (call.first slot).1 = slot' at hfirst
  generalize (call.first slot).2 = frame at hfirst
  cases hfirst <;> rfl

/-- A call that begins on a session tells nothing. -/
theorem told_beginOn {k : ℕ} {call : SessionCall} (h : s.beginOn k call.first = some s') :
    s'.observer = s.observer ∧ Told s s' [] := by
  obtain ⟨slot, -, -, rfl⟩ := StackState.beginOn_cases h
  exact ⟨rfl, told_nil rfl rfl (countP_isPending_append _ (owesDenial_first call slot))⟩

/-- A call that returns tells what it owed. -/
theorem told_finish {c : ℕ} {call : StackCall} {now : Instant} {events : List GuardEvent}
    {result : Except SynError Unit} (hc : s.calls[c]? = some call)
    (h : StackState.Finished s.guards.length call.context now call.frame events result) :
    Told s ((s.emit events).moveTo c call (.returned result)) events := by
  have hset : ∀ P n kind, ((s.emit events).moveTo c call (.returned result)).calls.countP
      (Audit.isPending P n kind) + (P call.context.peerAddr && call.frame.owesDenial n kind).toNat =
        s.calls.countP (Audit.isPending P n kind) := by
    intro P n kind
    have hset := Table.countP_set (Audit.isPending P n kind) hc
      { call with frame := .returned result }
    have hnone : Audit.isPending P n kind { call with frame := .returned result } = false :=
      Bool.and_false _
    rw [hnone] at hset
    exact hset
  generalize call.frame = frame at h hset
  cases h with
  | @rollback rejecting err =>
    refine ⟨rfl, rfl, fun P n kind => ?_, fun P n => ?_, fun P n => ?_⟩
    · rw [← hset P n kind, countP_singleton_toNat, Nat.add_comm]
      have hdenial : Audit.isDenial P n kind (rejectedEvent rejecting call.context err now) =
          (P call.context.peerAddr && (StackFrame.rollback 0 rejecting err).owesDenial n kind) :=
        congrArg (P call.context.peerAddr && ·) (Bool.and_true _)
      rw [hdenial]
    · simp [Audit.isAllowedReserve, rejectedEvent]
    · simp [Audit.isCloseEvent, rejectedEvent]
  | _ =>
    refine ⟨rfl, rfl, fun P n kind => ?_, fun _ _ => rfl, fun _ _ => rfl⟩
    rw [← hset P n kind, List.countP_nil, Nat.add_comm]
    simp [StackFrame.owesDenial]

variable [Guard G]

/-- A call that returns visits no guard. -/
theorem isSilent_of_finished {c : ℕ} {call : StackCall} {now : Instant}
    {events : List GuardEvent} {result : Except SynError Unit} (hc : s.calls[c]? = some call)
    (h : StackState.Finished s.guards.length call.context now call.frame events result) :
    s.isSilent (.advance c now) = false := by
  have hnone : call.frame.place.bind (s.guards[·]?) = none := by
    generalize call.frame = frame at h
    cases h with
    | rollback => rfl
    | established hi | payload hi | activity hi | close hi => exact List.getElem?_eq_none hi
  simp only [StackState.isSilent, hc, Option.any_some, hnone, Option.any_none]

/-- A call that visits a guard is silent if its frame is. -/
theorem isSilent_of_visit {c i : ℕ} {call : StackCall} {now : Instant} {g g' : G}
    {callback : Callback} {result : Except SynError Unit} {events : List GuardEvent}
    {frame : StackFrame} (hc : s.calls[c]? = some call) (hg : s.guards[i]? = some g)
    (h : StackState.Visit g call.context now i call.frame callback result g' events frame) :
    s.isSilent (.advance c now) = call.frame.isSilent g call.context now := by
  simp only [StackState.isSilent, hc, Option.any_some, h.place_eq, Option.bind_some, hg]

/-- **What a step is for the audit**: it tells what was owed and is not silent, or it is a visit. -/
theorem told_or_visit (h : s.next a = some s') : s'.observer = s.observer ∧
    ((s.isSilent a = false ∧ ∃ events, Told s s' events) ∨
      ∃ (c i : ℕ) (call : StackCall) (now : Instant) (g g' : G) (callback : Callback)
        (result : Except SynError Unit) (events : List GuardEvent) (frame : StackFrame),
        a = .advance c now ∧ s.calls[c]? = some call ∧ s.guards[i]? = some g ∧
        StackState.Visit g call.context now i call.frame callback result g' events frame ∧
        s' = s.visited c call i g' callback result events frame) := by
  have hbegin : ∀ {k : ℕ} {call : SessionCall}, s.isSilent a = false →
      s.beginOn k call.first = some s' → s'.observer = s.observer ∧
        (s.isSilent a = false ∧ ∃ events, Told s s' events) :=
    fun hsilent hon => ⟨(told_beginOn hon).1, hsilent, _, (told_beginOn hon).2⟩
  cases a with
  | reserve ctx =>
    obtain rfl := Option.some.inj h
    unfold StackState.beginReserve
    split_ifs
    · exact ⟨rfl, .inl ⟨rfl, [], told_nil rfl rfl (countP_isPending_append _ fun _ _ => rfl)⟩⟩
    · exact ⟨rfl, .inl ⟨rfl, [], told_nil rfl rfl (countP_isPending_append _ fun _ _ => rfl)⟩⟩
  | markEstablished k => exact (@hbegin k .markEstablished rfl h).imp_right .inl
  | recordPayload k bytes => exact (@hbegin k (.recordPayload bytes) rfl h).imp_right .inl
  | touch k => exact (@hbegin k .touch rfl h).imp_right .inl
  | close k => exact (@hbegin k .close rfl h).imp_right .inl
  | drop k => exact (@hbegin k .drop rfl (StackState.beginOn_of_drop h)).imp_right .inl
  | advance c now =>
    obtain ⟨call, hc, hadvance⟩ := StackState.advanceCall_of_advance h
    rcases StackState.advanceCall_cases hadvance with ⟨i, hframe, hi, rfl⟩ |
      ⟨events, result, hfinished, rfl⟩ |
      ⟨i, g, callback, result, g', events, frame, hg, hvisit, rfl⟩
    · refine ⟨rfl, .inl ⟨?_, [], told_nil rfl rfl fun P n kind => ?_⟩⟩
      · simp only [StackState.isSilent, hc, Option.any_some, hframe, StackFrame.place,
          Option.bind_some, List.getElem?_eq_none hi, Option.any_none]
      · exact Table.countP_set_of_eq _ hc (by
          simp only [Audit.isPending, hframe, StackFrame.owesDenial])
    · exact ⟨rfl, .inl ⟨isSilent_of_finished hc hfinished, events, told_finish hc hfinished⟩⟩
    · exact ⟨rfl, .inr ⟨c, i, call, now, g, g', callback, result, events, frame, rfl, hc, hg,
        hvisit, rfl⟩⟩
  | allow ip | remove ip | clear =>
    obtain rfl := Option.some.inj h
    exact ⟨rfl, .inl ⟨rfl, [], told_nil rfl rfl fun _ _ _ => rfl⟩⟩
  | env i g =>
    obtain ⟨-, rfl⟩ := StackState.eq_of_env h
    exact ⟨rfl, .inl ⟨rfl, [], told_nil rfl rfl fun _ _ _ => rfl⟩⟩

end Step

/-! ## Runs -/

namespace Audit

variable {G : Type*} [Guard G] {s s' : Audit G} {a : StackAction G}

omit [Guard G] in
/-- The audit is complete after a step that tells what was owed. -/
theorem Complete.told (h : s.Complete) (hobserver : s.state.observer = true)
    {events : List GuardEvent} (htold : Told s.state s'.state events)
    (hnamed : s'.named = s.named) : s'.Complete := by
  have hevents : s'.state.events = s.state.events ++ events := by
    rw [htold.events_eq, StackState.emit, hobserver]
    rfl
  refine ⟨fun P n kind => ?_, fun P n => ?_, fun P n => ?_⟩
  · have hdenials := h.denials P n kind
    have hdenial := htold.denial P n kind
    rw [hnamed, hevents, List.countP_append]
    omega
  · rw [hnamed, hevents, List.countP_append, htold.close, Nat.add_zero, h.closes]
  · rw [hnamed, hevents, List.countP_append, List.countP_append, htold.close, htold.allowed,
      Nat.add_zero, Nat.add_zero, h.held]

/-- The audit is complete after a visit exactly if the visit is covered by its events. -/
theorem Complete.visit_iff (h : s.Complete) (hobserver : s.state.observer = true) {c i : ℕ}
    {call : StackCall} {now : Instant} {g g' : G} {callback : Callback}
    {result : Except SynError Unit} {events : List GuardEvent} {frame : StackFrame}
    (hc : s.state.calls[c]? = some call)
    (hvisit : StackState.Visit g call.context now i call.frame callback result g' events frame)
    (hstate : s'.state = s.state.visited c call i g' callback result events frame)
    (hnamed : s'.named =
      s.named ++ [(Guard.name g', ⟨i, call.owner, call.context, callback, result⟩)]) :
    s'.Complete ↔ Covered (Guard.name g') ⟨i, call.owner, call.context, callback, result⟩ events
      call.frame frame := by
  have hevents : s'.state.events = s.state.events ++ events := by
    rw [hstate]
    show s.state.events ++ (if s.state.observer then events else []) = _
    rw [hobserver]
    rfl
  have hcalls : ∀ P n kind, s'.state.calls.countP (isPending P n kind) +
      (P call.context.peerAddr && call.frame.owesDenial n kind).toNat =
        s.state.calls.countP (isPending P n kind) +
          (P call.context.peerAddr && frame.owesDenial n kind).toNat := by
    intro P n kind
    rw [hstate]
    exact Table.countP_set (isPending P n kind) hc { call with frame }
  have haccepted := hvisit.accepted_eq call.owner
  constructor
  · intro h'
    refine ⟨fun P n kind => ?_, fun P n => ?_⟩
    · have hdenials := h'.denials P n kind
      have hold := h.denials P n kind
      have hmoved := hcalls P n kind
      rw [hnamed, hevents, Table.countP_append_singleton, List.countP_append] at hdenials
      dsimp only
      omega
    · have hcloses := h'.closes P n
      rw [hnamed, hevents, Table.countP_append_singleton, List.countP_append, h.closes] at hcloses
      exact Nat.add_left_cancel hcloses
  · intro hcovered
    refine ⟨fun P n kind => ?_, fun P n => ?_, fun P n => ?_⟩
    · have hdenial := hcovered.denial P n kind
      have hold := h.denials P n kind
      have hmoved := hcalls P n kind
      rw [hnamed, hevents, Table.countP_append_singleton, List.countP_append]
      dsimp only at hdenial
      omega
    · rw [hnamed, hevents, Table.countP_append_singleton, List.countP_append, h.closes,
        hcovered.close]
    · have hheld := h.held P n
      rw [hnamed, hevents, Table.countP_append_singleton, Table.countP_append_singleton,
        List.countP_append, List.countP_append, haccepted, hcovered.close]
      push_cast
      omega

/-- **A step keeps the audit complete exactly if it is not silent.** -/
theorem Complete.next_iff (h : s.Complete) (hobserver : s.state.observer = true)
    (hnext : s.next a = some s') : s'.Complete ↔ s.state.isSilent a = false := by
  obtain ⟨state, hstate, rfl⟩ := Option.map_eq_some_iff.mp hnext
  obtain ⟨-, ⟨hsilent, events, htold⟩ | ⟨c, i, call, now, g, g', callback, result, events, frame,
    rfl, hc, hg, hvisit, rfl⟩⟩ := told_or_visit hstate
  · refine iff_of_true (h.told hobserver htold ?_) hsilent
    rw [htold.log, List.drop_length, List.map_nil, List.append_nil]
  · rw [isSilent_of_visit hc hg hvisit, ← hvisit.covered_iff call.owner]
    refine h.visit_iff hobserver hc hvisit rfl ?_
    have hname : nameOf (s.state.visited c call i g' callback result events frame) i =
        Guard.name g' := by
      show (((s.state.guards.set i g')[i]?).map Guard.name).getD [] = _
      rw [(Table.getElem?_set_eq_some hg).mpr (.inl ⟨rfl, rfl⟩)]
      rfl
    show _ ++ ((s.state.log ++ [_]).drop s.state.log.length).map _ = _
    rw [List.drop_left, List.map_singleton, hname]

/-- A stack keeps its observer. -/
theorem observer_of_reach {stack : GuardStack G} {env : G → G → Prop}
    (h : (audits stack env).Reach s) : s.state.observer = stack.observer := by
  refine h.invariant (I := fun s => s.state.observer = stack.observer) ?_ ?_
  · rintro _ rfl
    rfl
  · rintro s a s' - hs hstep
    obtain ⟨state, hstate, rfl⟩ := Option.map_eq_some_iff.mp hstep.1
    exact (told_or_visit hstate).1.trans hs

/-- **When the observer sees every decision**: in a run of an observed stack, with all calls
interleaved, the audit is complete after every step if and only if no step is silent: no guard
refuses outside of a reservation, and no reservation is rolled back at a guard that had accepted it.

**Proof sketch.** A step that is not silent tells or owes what its guard decided; after a silent
one there is a refusal or a close too many. -/
theorem complete_iff {stack : GuardStack G} {env : G → G → Prop} (hobserver : stack.observer = true)
    {tr : List (Taken (Audit G) (StackAction G))} (h : (audits stack env).Run (start stack) tr s) :
    (∀ x ∈ tr, x.target.Complete) ↔ ∀ x ∈ tr, x.source.state.isSilent x.label = false :=
  h.forall_target_iff (G := fun s a _ => s.state.isSilent a = false)
    (fun _ _ _ hr hs hst => hs.next_iff ((observer_of_reach hr).trans hobserver) hst.1)
    (.init rfl) ⟨fun _ _ _ => rfl, fun _ _ => rfl, fun _ _ => rfl⟩

/-- Following actions of the stack is a run of its audit. -/
theorem run_follow (stack : GuardStack G) (actions : List (StackAction G)) :
    (audits stack fun _ _ => True).Run (start stack)
      (System.follow next (start stack) actions).1 (System.follow next (start stack) actions).2 :=
  System.run_follow (M := audits stack fun _ _ => True)
    (fun _ _ _ hnext => ⟨hnext, fun _ _ _ _ _ => trivial⟩) actions (start stack)

/-- A session of two observed throttles is touched and closed; another reservation is refused by the
first one. -/
def observedRun : List (StackAction Throttle) :=
  [.reserve (StackState.localContext 1001), .advance 0 0, .advance 0 0, .advance 0 0,
    .reserve (StackState.localContext 1002), .advance 1 0, .advance 1 0, .touch 0, .advance 2 0,
    .advance 2 0, .advance 2 0, .drop 0, .advance 3 0, .advance 3 0, .advance 3 0]

/-- The observer sees both reservations, the refusal, both touches and both closes. -/
theorem complete_iff_observedRun :
    (System.follow next (start ⟨[.new ⟨1, 10⟩, .new ⟨1, 10⟩], true, .new⟩)
      observedRun).2.state.events.length = 7 ∧
    ∀ x ∈ (System.follow next (start ⟨[.new ⟨1, 10⟩, .new ⟨1, 10⟩], true, .new⟩) observedRun).1,
      x.target.Complete :=
  ⟨by decide +kernel, (complete_iff rfl (run_follow _ observedRun)).mpr (by decide +kernel)⟩

/-- A session sends a payload that begins with a zero byte. -/
def probedRun : List (StackAction UdpAmplificationGuard) :=
  [.reserve (StackState.localContext 1001), .advance 0 0, .advance 0 0,
    .recordPayload 0 [0, 1, 2, 3], .advance 1 0, .advance 1 0]

/-- **The observer does not see every decision**: the guard refuses the payload, and no event
tells. -/
theorem not_forall_complete :
    ¬∀ (stack : GuardStack UdpAmplificationGuard)
      (env : UdpAmplificationGuard → UdpAmplificationGuard → Prop)
      (tr : List (Taken (Audit UdpAmplificationGuard) (StackAction UdpAmplificationGuard)))
      (s : Audit UdpAmplificationGuard), stack.observer = true →
        (audits stack env).Run (start stack) tr s → ∀ x ∈ tr, x.target.Complete := by
  intro hall
  have hrun := run_follow (⟨[⟨{}⟩], true, .new⟩ : GuardStack UdpAmplificationGuard) probedRun
  have hx : (System.follow next (start (⟨[⟨{}⟩], true, .new⟩ : GuardStack UdpAmplificationGuard))
      probedRun).1[5]? = some _ := rfl
  have hcomplete := hall _ _ _ _ rfl hrun _ (List.mem_of_getElem? hx)
  have hdenials := hcomplete.denials (fun _ => true) "udp_amplification".toList .payload
  exact absurd hdenials (by decide +kernel)

end Audit

end Synclaire
