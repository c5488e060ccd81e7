import Mathlib.Computability.DFA
import Mathlib.Logic.Function.Basic
import Synclaire.Guard.StackMachine

set_option relaxedAutoImplicit false
set_option autoImplicit false

/-!
# The life of one session

A guard expects the callbacks of a connection in the order of the `Guard` trait: a reservation,
then service, then one close. This module has that order as a language of callbacks, and one
guarded session as its stack's guards see it when its methods are called one after the other:
its flags, how far the running call has come, and the callbacks each guard has received.

The three flags do not keep the order. Only `close` reads `closed`, so a method that is called
after `close` still reaches the guards: `record_payload` and `touch` always, `mark_established`
when it was not called before.

## Main definitions

* `Synclaire.Lifecycle` — the words a guard expects.
* `Synclaire.lifecycle` — an automaton that accepts them.
* `Synclaire.SessionCall` — the methods of a session, with the first step of each.
* `Synclaire.SessionCall.isLate` — the call reaches the guards of a closed session.
* `Synclaire.SessionLife.system` — the transition system of one session.

## Main results

* `Synclaire.mem_accepts_lifecycle_iff` — the automaton accepts the expected words.
* `Synclaire.SessionCall.begins_first` — what the first step of a call does.
* `Synclaire.SessionLife.forall_lifecycle_iff` — after its drop every guard has received an
  expected word iff no call was late.

## Implementation notes

The life is an abstraction of the machine in `Synclaire.Guard.StackMachine`: it knows nothing of
the other sessions, of the clock or of the states of the guards. Which guard answers what is
left open, as the visits of the machine leave it.
-/

namespace Synclaire

/-! ## The words a guard expects -/

/-- A reservation, then service with at most one establishment, then one close. -/
def Lifecycle (word : List Callback) : Prop :=
  ∃ service : List Callback, word = .reserve :: (service ++ [.close]) ∧
    .reserve ∉ service ∧ .close ∉ service ∧ service.count .established ≤ 1

/-- How far the callbacks of a connection have come at a guard. -/
inductive Stage
  | fresh
  | serving (established : Bool)
  | closed
  /-- The callbacks so far begin no expected word. -/
  | broken
  deriving DecidableEq

/-- The stage after one more callback. -/
def Stage.next : Stage → Callback → Stage
  | .fresh, .reserve => .serving false
  | .serving false, .established => .serving true
  | .serving established, .payload _ => .serving established
  | .serving established, .activity => .serving established
  | .serving _, .close => .closed
  | _, _ => .broken

/-- The automaton of the expected words. -/
def lifecycle : DFA Callback Stage := ⟨Stage.next, .fresh, {.closed}⟩

/-- Nothing repairs a broken word. -/
theorem evalFrom_broken (word : List Callback) :
    lifecycle.evalFrom .broken word = .broken := by
  induction word with
  | nil => rfl
  | cons callback word ih => rw [DFA.evalFrom_cons]; exact ih

/-- After the close nothing may follow. -/
theorem evalFrom_closed_eq_closed_iff {word : List Callback} :
    lifecycle.evalFrom .closed word = .closed ↔ word = [] := by
  cases word with
  | nil => simp
  | cons callback word =>
    rw [DFA.evalFrom_cons, show lifecycle.step .closed callback = .broken from rfl,
      evalFrom_broken]
    simp

/-- Service and then one close, with at most one establishment if the connection was not
established before, and none if it was. -/
def ServiceThenClose (established : Bool) (word : List Callback) : Prop :=
  ∃ service : List Callback, word = service ++ [.close] ∧ .reserve ∉ service ∧
    .close ∉ service ∧ service.count .established + established.toNat ≤ 1

/-- Nothing is no service and a close. -/
theorem not_serviceThenClose_nil (established : Bool) : ¬ ServiceThenClose established [] := by
  rintro ⟨service, heq, -⟩
  cases service with
  | nil => cases heq
  | cons head service => cases heq

/-- No service begins with another reservation. -/
theorem not_serviceThenClose_reserve (established : Bool) (word : List Callback) :
    ¬ ServiceThenClose established (.reserve :: word) := by
  rintro ⟨service, heq, hres, -⟩
  cases service with
  | nil => cases heq
  | cons head service =>
    obtain ⟨rfl, -⟩ := List.cons.inj heq
    exact hres (.head _)

/-- An established connection is not established again. -/
theorem not_serviceThenClose_established (word : List Callback) :
    ¬ ServiceThenClose true (.established :: word) := by
  rintro ⟨service, heq, -, -, hle⟩
  cases service with
  | nil => cases heq
  | cons head service =>
    obtain ⟨rfl, -⟩ := List.cons.inj heq
    rw [List.count_cons_self, Bool.toNat_true] at hle
    omega

/-- After a close at the head nothing follows. -/
theorem serviceThenClose_close_iff {established : Bool} {word : List Callback} :
    ServiceThenClose established (.close :: word) ↔ word = [] := by
  constructor
  · rintro ⟨service, heq, -, hcl, -⟩
    cases service with
    | nil => exact (List.cons.inj heq).2
    | cons head service =>
      obtain ⟨rfl, -⟩ := List.cons.inj heq
      exact absurd (.head _) hcl
  · rintro rfl
    exact ⟨[], rfl, List.not_mem_nil, List.not_mem_nil, by simpa using established.toNat_le⟩

/-- Service at the head stands before service and a close; an establishment is counted. -/
theorem serviceThenClose_cons_iff {established established' : Bool} {callback : Callback}
    {word : List Callback} (hreserve : callback ≠ .reserve) (hclose : callback ≠ .close)
    (hcount : [callback].count .established + established.toNat = established'.toNat) :
    ServiceThenClose established (callback :: word) ↔ ServiceThenClose established' word := by
  constructor
  · rintro ⟨service, heq, hres, hcl, hle⟩
    cases service with
    | nil => exact absurd (List.cons.inj heq).1 hclose
    | cons head service =>
      obtain ⟨rfl, rfl⟩ := List.cons.inj heq
      rw [← List.singleton_append, List.count_append] at hle
      exact ⟨service, rfl, fun h => hres (.tail _ h), fun h => hcl (.tail _ h), by omega⟩
  · rintro ⟨service, rfl, hres, hcl, hle⟩
    refine ⟨callback :: service, rfl, by simp [hres, hreserve.symm],
      by simp [hcl, hclose.symm], ?_⟩
    rw [← List.singleton_append, List.count_append]
    omega

/-- **The words of service**: from a guard that serves, the automaton accepts service and then a
close.

**Proof sketch.** Induction on the word, one case for each callback at its head. Service stays in
front of the rest, a close must be the end, and a reservation or a second establishment breaks
the word. -/
theorem evalFrom_serving_eq_closed_iff {established : Bool} {word : List Callback} :
    lifecycle.evalFrom (.serving established) word = .closed ↔
      ServiceThenClose established word := by
  induction word generalizing established with
  | nil => exact iff_of_false nofun (not_serviceThenClose_nil established)
  | cons callback word ih =>
    have hbroken : lifecycle.evalFrom .broken word ≠ .closed := by
      rw [evalFrom_broken]
      nofun
    rw [DFA.evalFrom_cons]
    cases callback with
    | reserve =>
      have hstep : lifecycle.step (.serving established) .reserve = .broken := by
        cases established <;> rfl
      rw [hstep]
      exact iff_of_false hbroken (not_serviceThenClose_reserve established word)
    | established =>
      cases established with
      | false => exact ih.trans (serviceThenClose_cons_iff (by simp) (by simp) rfl).symm
      | true => exact iff_of_false hbroken (not_serviceThenClose_established word)
    | payload bytes =>
      have hstep : lifecycle.step (.serving established) (.payload bytes) =
          .serving established := by
        cases established <;> rfl
      rw [hstep]
      exact ih.trans (serviceThenClose_cons_iff (by simp) (by simp) (Nat.zero_add _)).symm
    | activity =>
      have hstep : lifecycle.step (.serving established) .activity = .serving established := by
        cases established <;> rfl
      rw [hstep]
      exact ih.trans (serviceThenClose_cons_iff (by simp) (by simp) (Nat.zero_add _)).symm
    | close =>
      have hstep : lifecycle.step (.serving established) .close = .closed := by
        cases established <;> rfl
      rw [hstep, evalFrom_closed_eq_closed_iff]
      exact serviceThenClose_close_iff.symm

/-- **The automaton accepts the expected words.** -/
theorem mem_accepts_lifecycle_iff {word : List Callback} :
    word ∈ lifecycle.accepts ↔ Lifecycle word := by
  rw [DFA.mem_accepts]
  show lifecycle.evalFrom .fresh word = .closed ↔ _
  cases word with
  | nil =>
    refine iff_of_false nofun ?_
    rintro ⟨service, heq, -⟩
    cases heq
  | cons callback word =>
    rw [DFA.evalFrom_cons]
    by_cases hreserve : callback = .reserve
    · subst hreserve
      refine evalFrom_serving_eq_closed_iff.trans ⟨?_, ?_⟩
      · rintro ⟨service, rfl, hres, hcl, hle⟩
        exact ⟨service, rfl, hres, hcl, hle⟩
      · rintro ⟨service, heq, hres, hcl, hle⟩
        exact ⟨service, (List.cons.inj heq).2, hres, hcl, hle⟩
    · have hstep : lifecycle.step .fresh callback = .broken := by
        cases callback with
        | reserve => exact absurd rfl hreserve
        | _ => rfl
      rw [hstep, evalFrom_broken]
      refine iff_of_false nofun ?_
      rintro ⟨service, heq, -⟩
      exact hreserve (List.cons.inj heq).1

/-! ## The calls on a session -/

/-- A method of a session; a drop is one call too. -/
inductive SessionCall
  | markEstablished
  | recordPayload (bytes : List UInt8)
  | touch
  | close
  | drop
  deriving DecidableEq

namespace SessionCall

/-- The first step of a call. -/
def first : SessionCall → SessionSlot → SessionSlot × StackFrame
  | .markEstablished => StackState.markEstablishedFirst
  | .recordPayload bytes => StackState.recordPayloadFirst bytes
  | .touch => StackState.touchFirst
  | .close => StackState.closeFirst
  | .drop => StackState.dropFirst

/-- The call reaches the guards of a session that is closed. -/
def isLate (slot : SessionSlot) : SessionCall → Bool
  | .markEstablished => slot.session.closed && !slot.session.established
  | .recordPayload _ => slot.session.closed
  | .touch => slot.session.closed
  | .close => false
  | .drop => false

/-- The session after a call that changes no flag: a drop takes it away. -/
def leaves (slot : SessionSlot) : SessionCall → SessionSlot
  | .drop => { slot with dropped := true }
  | _ => slot

/-- A finished call leaves the session to its slot. -/
theorem leaves_session (call : SessionCall) (slot : SessionSlot) :
    (call.leaves slot).session = slot.session := by
  cases call <;> rfl

/-- A finished call leaves the owner to its slot. -/
theorem leaves_owner (call : SessionCall) (slot : SessionSlot) :
    (call.leaves slot).owner = slot.owner := by
  cases call <;> rfl

/-- What the first step of a call does to the session, and the frame it leads to. -/
inductive Begins (slot : SessionSlot) : SessionCall → SessionSlot → StackFrame → Prop
  | returns {call : SessionCall}
      (hflag : slot.session.allowed = true ∨
        call = .markEstablished ∧ slot.session.established = true ∨
        (call = .close ∨ call = .drop) ∧ slot.session.closed = true) :
      Begins slot call (call.leaves slot) (.returned (.ok ()))
  | establishes (hguarded : slot.session.allowed = false)
      (hnew : slot.session.established = false) :
      Begins slot .markEstablished
        { slot with session := { slot.session with established := true } } (.established 0)
  | inspects {bytes : List UInt8} (hguarded : slot.session.allowed = false) :
      Begins slot (.recordPayload bytes) slot (.payload 0 false bytes)
  | touches (hguarded : slot.session.allowed = false) : Begins slot .touch slot (.activity 0)
  | closes {call : SessionCall} (hcall : call = .close ∨ call = .drop)
      (hguarded : slot.session.allowed = false) (hopen : slot.session.closed = false) :
      Begins slot call
        { call.leaves slot with session := { slot.session with closed := true } } (.close 0)

/-- **The first step of a call**: it returns at once, or it sets its flag and leads to the first
guard. -/
theorem begins_first (call : SessionCall) (slot : SessionSlot) :
    Begins slot call (call.first slot).1 (call.first slot).2 := by
  cases hallowed : slot.session.allowed with
  | true =>
    have hfirst : call.first slot = (call.leaves slot, .returned (.ok ())) := by
      cases call <;>
        simp [first, leaves, StackState.markEstablishedFirst, StackState.recordPayloadFirst,
          StackState.touchFirst, StackState.dropFirst, StackState.closeFirst, hallowed]
    rw [hfirst]
    exact .returns (.inl hallowed)
  | false =>
    cases call with
    | markEstablished =>
      cases hest : slot.session.established with
      | true =>
        have hfirst : markEstablished.first slot = (slot, .returned (.ok ())) := by
          simp [first, StackState.markEstablishedFirst, hest]
        rw [hfirst]
        exact .returns (.inr (.inl ⟨rfl, hest⟩))
      | false =>
        have hfirst : markEstablished.first slot =
            ({ slot with session := { slot.session with established := true } },
              .established 0) := by
          simp [first, StackState.markEstablishedFirst, hallowed, hest]
        rw [hfirst]
        exact .establishes hallowed hest
    | recordPayload bytes =>
      have hfirst : (recordPayload bytes).first slot = (slot, .payload 0 false bytes) := by
        simp [first, StackState.recordPayloadFirst, hallowed]
      rw [hfirst]
      exact .inspects hallowed
    | touch =>
      have hfirst : touch.first slot = (slot, .activity 0) := by
        simp [first, StackState.touchFirst, hallowed]
      rw [hfirst]
      exact .touches hallowed
    | close =>
      cases hclosed : slot.session.closed with
      | true =>
        have hfirst : close.first slot = (slot, .returned (.ok ())) := by
          simp [first, StackState.closeFirst, hclosed]
        rw [hfirst]
        exact .returns (.inr (.inr ⟨.inl rfl, hclosed⟩))
      | false =>
        have hfirst : close.first slot =
            ({ slot with session := { slot.session with closed := true } }, .close 0) := by
          simp [first, StackState.closeFirst, hallowed, hclosed]
        rw [hfirst]
        exact .closes (.inl rfl) hallowed hclosed
    | drop =>
      cases hclosed : slot.session.closed with
      | true =>
        have hfirst : drop.first slot = ({ slot with dropped := true }, .returned (.ok ())) := by
          simp [first, StackState.dropFirst, StackState.closeFirst, hclosed]
        rw [hfirst]
        exact .returns (.inr (.inr ⟨.inr rfl, hclosed⟩))
      | false =>
        have hfirst : drop.first slot = ({ slot with
            dropped := true
            session := { slot.session with closed := true } }, .close 0) := by
          simp [first, StackState.dropFirst, StackState.closeFirst, hallowed, hclosed]
        rw [hfirst]
        exact .closes (.inr rfl) hallowed hclosed

/-- No call changes whether a session is allowed, or who owns it. -/
theorem first_allowed_owner (call : SessionCall) (slot : SessionSlot) :
    (call.first slot).1.session.allowed = slot.session.allowed ∧
      (call.first slot).1.owner = slot.owner := by
  have hfirst := begins_first call slot
  generalize (call.first slot).1 = slot' at hfirst
  generalize (call.first slot).2 = frame at hfirst
  cases hfirst with
  | returns _ => exact ⟨by rw [leaves_session], leaves_owner call slot⟩
  | closes _ _ _ => exact ⟨rfl, leaves_owner call slot⟩
  | _ => exact ⟨rfl, rfl⟩

end SessionCall

/-- The frame, unless the call has returned. -/
def StackFrame.running : StackFrame → Option StackFrame
  | .returned _ => none
  | frame => some frame

/-! ## The life of a session -/

/-- A session as the guards of its stack see it: its row, the frame of the call that runs on it,
and the callbacks each guard has received. -/
structure SessionLife where
  slot : SessionSlot
  frame : Option StackFrame
  word : ℕ → List Callback

/-- A step of a session: a call begins, or the running call moves on. -/
inductive SessionMove
  | begin (call : SessionCall)
  | advance
  deriving DecidableEq

/-- The step begins a late call. -/
def SessionMove.isLate (slot : SessionSlot) : SessionMove → Bool
  | .begin call => call.isLate slot
  | .advance => false

namespace SessionLife

/-- The stage of guard `j`. -/
def stage (v : SessionLife) (j : ℕ) : Stage := lifecycle.eval (v.word j)

/-- Guard `i` receives a callback, and the call moves to `frame`. -/
def receive (v : SessionLife) (i : ℕ) (callback : Callback) (frame : StackFrame) : SessionLife :=
  { v with frame := frame.running, word := Function.update v.word i (v.word i ++ [callback]) }

/-- What a session does when its methods are called one after the other, next to `n` guards of
type `G`. -/
inductive Steps (G : Type*) [Guard G] (n : ℕ) : SessionLife → SessionMove → SessionLife → Prop
  | begin {v : SessionLife} {call : SessionCall} (hframe : v.frame = none)
      (hdropped : v.slot.dropped = false) :
      Steps G n v (.begin call)
        { v with slot := (call.first v.slot).1, frame := (call.first v.slot).2.running }
  | visit {v : SessionLife} {frame frame' : StackFrame} {g g' : G} {ctx : GuardContext}
      {now : Instant} {i : ℕ} {callback : Callback} {result : Except SynError Unit}
      {events : List GuardEvent} (hframe : v.frame = some frame) (hi : i < n)
      (hvisit : StackState.Visit g ctx now i frame callback result g' events frame') :
      Steps G n v .advance (v.receive i callback frame')
  | finish {v : SessionLife} {frame : StackFrame} {ctx : GuardContext} {now : Instant}
      {events : List GuardEvent} {result : Except SynError Unit} (hframe : v.frame = some frame)
      (hfinished : StackState.Finished n ctx now frame events result) :
      Steps G n v .advance { v with frame := none }

/-- A session that `reserve` has just returned: unless it is allowed, each of the `n` guards has
received the reservation. -/
structure Born (n : ℕ) (v : SessionLife) : Prop where
  frame : v.frame = none
  dropped : v.slot.dropped = false
  closed : v.slot.session.closed = false
  established : v.slot.session.established = false
  word : v.slot.session.allowed = false → ∀ j < n, v.word j = [.reserve]

/-- One session next to `n` guards of type `G`. -/
def system (G : Type*) [Guard G] (n : ℕ) : Transition.System SessionLife SessionMove where
  init := Born n
  step := Steps G n

/-- The word of the guard that receives a callback grows by it. -/
theorem stage_receive (v : SessionLife) (i j : ℕ) (callback : Callback) (frame : StackFrame) :
    (v.receive i callback frame).stage j =
      if j = i then (v.stage i).next callback else v.stage j := by
  unfold stage receive
  by_cases hij : j = i
  · subst hij
    rw [if_pos rfl]
    simp only [Function.update_self, DFA.eval_append_singleton]
    rfl
  · rw [if_neg hij]
    simp only [Function.update_of_ne hij]

/-- No step changes whether a session is allowed. -/
theorem Steps.allowed {G : Type*} [Guard G] {n : ℕ} {v v' : SessionLife} {m : SessionMove}
    (h : Steps G n v m v') : v'.slot.session.allowed = v.slot.session.allowed := by
  cases h with
  | begin _ _ => exact (SessionCall.first_allowed_owner _ _).1
  | visit _ _ _ => rfl
  | finish _ _ => rfl

/-- No run changes whether a session is allowed. -/
theorem allowed_of_run {G : Type*} [Guard G] {n : ℕ} {v v' : SessionLife}
    {tr : List (Transition.Taken SessionLife SessionMove)} (h : (system G n).Run v tr v') :
    v'.slot.session.allowed = v.slot.session.allowed := by
  induction h with
  | nil => rfl
  | cons hst _ ih => exact ih.trans (Steps.allowed hst)

/-! ## The words of a session without late calls -/

/-- Where a session can be as long as no call was late.

* `serving`: the session is open, and a call that does not establish it may run;
* `establishing`: `mark_established` has visited the guards before `i`;
* `closing`: `close` has visited the guards before `i`;
* `closed`: `close` has returned. -/
inductive Timely (n : ℕ) (v : SessionLife) : Prop
  | serving (hdropped : v.slot.dropped = false) (hopen : v.slot.session.closed = false)
      (hframe : v.frame = none ∨ (∃ i touched bytes, v.frame = some (.payload i touched bytes)) ∨
        ∃ i, v.frame = some (.activity i))
      (hstage : ∀ j < n, ∃ established, v.stage j = .serving established ∧
        (established = true → v.slot.session.established = true))
  | establishing {i : ℕ} (hdropped : v.slot.dropped = false)
      (hopen : v.slot.session.closed = false) (hframe : v.frame = some (.established i))
      (hestablished : v.slot.session.established = true)
      (hstage : ∀ j < n, v.stage j = .serving (decide (j < i)))
  | closing {i : ℕ} (hclosed : v.slot.session.closed = true) (hframe : v.frame = some (.close i))
      (hdone : ∀ j < n, j < i → v.stage j = .closed)
      (hleft : ∀ j < n, i ≤ j → ∃ established, v.stage j = .serving established)
  | closed (hclosed : v.slot.session.closed = true) (hframe : v.frame = none)
      (hstage : ∀ j < n, v.stage j = .closed)

/-- A session begins its life in time. -/
theorem Born.timely {n : ℕ} {v : SessionLife} (h : Born n v)
    (hguarded : v.slot.session.allowed = false) : Timely n v := by
  refine .serving h.dropped h.closed (.inl h.frame) fun j hj => ⟨false, ?_, nofun⟩
  rw [stage, h.word hguarded j hj]
  rfl

/-- Service at guard `i` keeps every guard serving. -/
theorem stage_receive_service {n : ℕ} {v : SessionLife} {i : ℕ} {callback : Callback}
    {frame : StackFrame} (hcallback : ∀ e, (Stage.serving e).next callback = .serving e)
    (hi : i < n) (hstage : ∀ j < n, ∃ established, v.stage j = .serving established ∧
      (established = true → v.slot.session.established = true)) :
    ∀ j < n, ∃ established, (v.receive i callback frame).stage j = .serving established ∧
      (established = true → v.slot.session.established = true) := by
  intro j hj
  rw [stage_receive]
  split_ifs with hij
  · obtain ⟨e, he, hest⟩ := hstage i hi
    exact ⟨e, by rw [he, hcallback], hest⟩
  · exact hstage j hj

variable {G : Type*} [Guard G] {n : ℕ} {v v' : SessionLife}

omit [Guard G] in
/-- A call that is not late begins in time.

**Proof sketch.** One case for each first step. In an open session every call leads to a running
frame or changes nothing, and no guard has seen an establishment before the first one. In a
closed one a call that is not late returns at once. -/
theorem Timely.begin (h : Timely n v) (hguarded : v.slot.session.allowed = false)
    (hframe : v.frame = none) {call : SessionCall} (hlate : call.isLate v.slot = false) :
    Timely n { v with slot := (call.first v.slot).1, frame := (call.first v.slot).2.running } := by
  have hfirst := SessionCall.begins_first call v.slot
  generalize (call.first v.slot).1 = slot at hfirst ⊢
  generalize (call.first v.slot).2 = frame at hfirst ⊢
  cases h with
  | serving hdropped hopen _ hstage =>
    cases hfirst with
    | returns hflag =>
      rcases hflag with hallowed | ⟨rfl, -⟩ | ⟨-, hclosed⟩
      · rw [hguarded] at hallowed
        cases hallowed
      · exact .serving hdropped hopen (.inl rfl) hstage
      · rw [hopen] at hclosed
        cases hclosed
    | establishes _ hnew =>
      refine .establishing hdropped hopen rfl rfl fun j hj => ?_
      obtain ⟨e, he, hestablished⟩ := hstage j hj
      cases e with
      | false => exact he
      | true =>
        rw [hnew] at hestablished
        cases hestablished rfl
    | @inspects bytes _ =>
      exact .serving hdropped hopen (.inr (.inl ⟨0, false, bytes, rfl⟩)) hstage
    | touches _ => exact .serving hdropped hopen (.inr (.inr ⟨0, rfl⟩)) hstage
    | closes _ _ _ =>
      exact .closing rfl rfl (fun _ _ hj => absurd hj (Nat.not_lt_zero _))
        fun j hj _ => (hstage j hj).imp fun _ => And.left
  | establishing _ _ hrunning _ _ => rw [hframe] at hrunning; cases hrunning
  | closing _ hrunning _ _ => rw [hframe] at hrunning; cases hrunning
  | closed hclosed _ hstage =>
    cases hfirst with
    | returns _ =>
      refine .closed ?_ rfl hstage
      rw [SessionCall.leaves_session]
      exact hclosed
    | establishes _ hnew => simp [SessionCall.isLate, hclosed, hnew] at hlate
    | inspects _ => exact absurd (hclosed.symm.trans hlate) nofun
    | touches _ => exact absurd (hclosed.symm.trans hlate) nofun
    | closes _ _ hopen =>
      rw [hclosed] at hopen
      cases hopen

/-- A visit of a guard keeps a session in time.

**Proof sketch.** One case for each call that may run, and in it one for each visit of such a
call. A payload or an activity leaves the stages as they are, an establishment at `i` joins
guard `i` to those that saw one, whatever the guard answers, and a close at `i` closes it. -/
theorem Timely.visit (h : Timely n v) {frame frame' : StackFrame} {g g' : G}
    {ctx : GuardContext} {now : Instant} {i : ℕ} {callback : Callback}
    {result : Except SynError Unit} {events : List GuardEvent} (hframe : v.frame = some frame)
    (hi : i < n) (hvisit : StackState.Visit g ctx now i frame callback result g' events frame') :
    Timely n (v.receive i callback frame') := by
  cases h with
  | serving hdropped hopen hrunning hstage =>
    rw [hframe] at hrunning
    rcases hrunning with hnone | ⟨k, touched, bytes, hpayload⟩ | ⟨k, hactivity⟩
    · cases hnone
    · cases hpayload
      cases hvisit with
      | payloadTouch _ | payloadOk _ =>
        exact .serving hdropped hopen (.inr (.inl ⟨_, _, _, rfl⟩))
          (stage_receive_service (by intro e; cases e <;> rfl) hi hstage)
      | payloadTouchError _ | payloadError _ =>
        exact .serving hdropped hopen (.inl rfl)
          (stage_receive_service (by intro e; cases e <;> rfl) hi hstage)
    · cases hactivity
      cases hvisit with
      | activityOk _ =>
        exact .serving hdropped hopen (.inr (.inr ⟨_, rfl⟩))
          (stage_receive_service (by intro e; cases e <;> rfl) hi hstage)
      | activityError _ =>
        exact .serving hdropped hopen (.inl rfl)
          (stage_receive_service (by intro e; cases e <;> rfl) hi hstage)
  | @establishing k hdropped hopen hrunning hestablished hstage =>
    cases hframe.symm.trans hrunning
    have hafter : ∀ frame : StackFrame, ∀ j < n,
        (v.receive k .established frame).stage j = .serving (decide (j < k + 1)) := by
      intro frame j hj
      rw [stage_receive]
      split_ifs with hjk
      · subst hjk
        rw [hstage j hj, decide_eq_false (Nat.lt_irrefl j), decide_eq_true (Nat.lt_succ_self j)]
        rfl
      · rw [hstage j hj]
        congr 1
        exact decide_eq_decide.mpr (by omega)
    cases hvisit with
    | establishedOk _ => exact .establishing hdropped hopen rfl hestablished (hafter _)
    | establishedError _ =>
      exact .serving hdropped hopen (.inl rfl) fun j hj =>
        ⟨_, hafter _ j hj, fun _ => hestablished⟩
  | @closing k hclosed hrunning hdone hleft =>
    cases hframe.symm.trans hrunning
    cases hvisit with
    | close =>
      refine .closing (i := i + 1) hclosed rfl (fun j hj hji => ?_) fun j hj hij => ?_
      · rw [stage_receive]
        split_ifs with heq
        · obtain ⟨e, he⟩ := hleft i hi le_rfl
          rw [he]
          cases e <;> rfl
        · exact hdone j hj (by omega)
      · rw [stage_receive, if_neg (by omega)]
        exact hleft j hj (by omega)
  | closed _ hnone _ => rw [hframe] at hnone; cases hnone

/-- A call that returns leaves the session in time. -/
theorem Timely.finish (h : Timely n v) {frame : StackFrame} {ctx : GuardContext} {now : Instant}
    {events : List GuardEvent} {result : Except SynError Unit} (hframe : v.frame = some frame)
    (hfinished : StackState.Finished n ctx now frame events result) :
    Timely n { v with frame := none } := by
  cases h with
  | serving hdropped hopen _ hstage => exact .serving hdropped hopen (.inl rfl) hstage
  | establishing hdropped hopen _ hestablished hstage =>
    exact .serving hdropped hopen (.inl rfl) fun j hj => ⟨_, hstage j hj, fun _ => hestablished⟩
  | closing hclosed hrunning hdone _ =>
    cases hframe.symm.trans hrunning
    cases hfinished with
    | close hn => exact .closed hclosed rfl fun j hj => hdone j hj (Nat.lt_of_lt_of_le hj hn)
  | closed hclosed _ hstage => exact .closed hclosed rfl hstage

/-- **A session stays in time** as long as no late call begins. -/
theorem Timely.step {m : SessionMove} (h : Timely n v)
    (hguarded : v.slot.session.allowed = false) (hst : Steps G n v m v')
    (hlate : m.isLate v.slot = false) : Timely n v' := by
  cases hst with
  | begin hframe _ => exact h.begin hguarded hframe hlate
  | visit hframe hi hvisit => exact h.visit hframe hi hvisit
  | finish hframe hfinished => exact h.finish hframe hfinished

/-! ## The word of a guard after a late call -/

/-- The call is about to visit guard `0` with no close. -/
def Pending (frame : StackFrame) : Prop :=
  (∃ bytes, frame = .payload 0 false bytes) ∨ frame = .activity 0 ∨ frame = .established 0

/-- A late call has begun: guard `0` was closed, and then it was called or will be. -/
def Spoiled (v : SessionLife) : Prop :=
  v.stage 0 = .broken ∨ v.stage 0 = .closed ∧ ∃ frame, v.frame = some frame ∧ Pending frame

/-- The first step of a late call leads to guard `0`. -/
theorem pending_of_isLate {slot : SessionSlot} (hguarded : slot.session.allowed = false)
    {call : SessionCall} (hlate : call.isLate slot = true) :
    ∃ frame, (call.first slot).2.running = some frame ∧ Pending frame := by
  have hfirst := SessionCall.begins_first call slot
  generalize (call.first slot).1 = slot' at hfirst
  generalize (call.first slot).2 = frame at hfirst
  cases hfirst with
  | returns hflag =>
    rcases hflag with hallowed | ⟨rfl, hest⟩ | ⟨rfl | rfl, -⟩
    · rw [hguarded] at hallowed
      cases hallowed
    · simp [SessionCall.isLate, hest] at hlate
    · cases hlate
    · cases hlate
  | establishes _ _ => exact ⟨_, rfl, .inr (.inr rfl)⟩
  | inspects _ => exact ⟨_, rfl, .inl ⟨_, rfl⟩⟩
  | touches _ => exact ⟨_, rfl, .inr (.inl rfl)⟩
  | closes hcall _ _ =>
    rcases hcall with rfl | rfl <;> cases hlate

/-- A session is late only when it is closed. -/
theorem closed_of_isLate {slot : SessionSlot} {call : SessionCall}
    (hlate : call.isLate slot = true) : slot.session.closed = true := by
  cases call with
  | markEstablished =>
    have hboth : (slot.session.closed && !slot.session.established) = true := hlate
    exact (Bool.and_eq_true_iff.mp hboth).1
  | recordPayload bytes => exact hlate
  | touch => exact hlate
  | close => cases hlate
  | drop => cases hlate

/-- A late call spoils the session. -/
theorem Timely.spoiled {m : SessionMove} (h : Timely n v) (hn : 0 < n)
    (hguarded : v.slot.session.allowed = false) (hst : Steps G n v m v')
    (hlate : m.isLate v.slot = true) : Spoiled v' := by
  cases hst with
  | @begin call hframe _ =>
    have hclosed := closed_of_isLate hlate
    have hstage : v.stage 0 = .closed := by
      cases h with
      | serving _ hopen _ _ => rw [hclosed] at hopen; cases hopen
      | establishing _ hopen _ _ _ => rw [hclosed] at hopen; cases hopen
      | closing _ hrunning _ _ => rw [hframe] at hrunning; cases hrunning
      | closed _ _ hstage => exact hstage 0 hn
    exact .inr ⟨hstage, pending_of_isLate hguarded hlate⟩
  | visit _ _ _ => cases hlate
  | finish _ _ => cases hlate

/-- Nothing repairs a spoiled session.

**Proof sketch.** A broken word stays broken. While the late call is still on its way to guard
`0`, no other call may begin, it cannot return without having been there, and its visit breaks
the word. -/
theorem Spoiled.step {m : SessionMove} (h : Spoiled v) (hn : 0 < n) (hst : Steps G n v m v') :
    Spoiled v' := by
  rcases h with hbroken | ⟨hclosed, frame, hframe, hpending⟩
  · left
    cases hst with
    | begin _ _ => exact hbroken
    | visit _ _ _ =>
      rw [stage_receive]
      split_ifs with hi
      · rw [← hi, hbroken]
        rfl
      · exact hbroken
    | finish _ _ => exact hbroken
  · cases hst with
    | begin hfree _ => rw [hframe] at hfree; cases hfree
    | @visit frame₁ _ _ _ _ _ i callback _ _ hrunning _ hvisit =>
      cases hframe.symm.trans hrunning
      left
      have hfirst : i = 0 ∧ ∀ stage, stage = Stage.closed → stage.next callback = .broken := by
        rcases hpending with ⟨bytes, rfl⟩ | rfl | rfl <;>
        · cases hvisit <;> exact ⟨rfl, by rintro _ rfl; rfl⟩
      rw [stage_receive, if_pos hfirst.1.symm, hfirst.1]
      exact hfirst.2 _ hclosed
    | finish hrunning hfinished =>
      cases hframe.symm.trans hrunning
      have hzero : n ≤ 0 := by
        rcases hpending with ⟨bytes, rfl⟩ | rfl | rfl
        · cases hfinished with
          | payload hle => exact hle
        · cases hfinished with
          | activity hle => exact hle
        · cases hfinished with
          | established hle => exact hle
      exact absurd hzero (Nat.not_le_of_lt hn)

/-! ## Every life -/

/-- **The words of a dropped session.** After its drop, every guard has received an expected word
iff there are no guards or no call on the session was late.

**Proof sketch.** As long as no late call begins the session is `Timely`; from the first late
call on it is `Spoiled`. Once the drop has returned, the first means that every guard is closed,
and the second that the word of guard `0` is broken. -/
theorem forall_lifecycle_iff {tr : List (Transition.Taken SessionLife SessionMove)}
    (h : (system G n).Run v tr v') (hborn : Born n v)
    (hguarded : v.slot.session.allowed = false) (hdropped : v'.slot.dropped = true)
    (hframe : v'.frame = none) :
    (∀ j < n, Lifecycle (v'.word j)) ↔
      n = 0 ∨ ∀ x ∈ tr, x.label.isLate x.source.slot = false := by
  rcases Nat.eq_zero_or_pos n with rfl | hn
  · exact iff_of_true (fun j hj => absurd hj (Nat.not_lt_zero j)) (.inl rfl)
  have hends := h.forall_or_exists
    (P := fun v => v.slot.session.allowed = false ∧ Timely n v) (Q := Spoiled)
    (G := fun v m => m.isLate v.slot = false)
    (fun v m v' ⟨hguarded, ht⟩ (hst : Steps G n v m v') hlate =>
      ⟨hst.allowed.trans hguarded, ht.step hguarded hst hlate⟩)
    (fun v m v' ⟨hguarded, ht⟩ (hst : Steps G n v m v') hlate =>
      ht.spoiled hn hguarded hst (Bool.eq_true_of_not_eq_false hlate))
    (fun v m v' hs (hst : Steps G n v m v') => hs.step hn hst)
    ⟨hguarded, hborn.timely hguarded⟩
  rcases hends with ⟨hall, -, ht⟩ | ⟨⟨x, hx, hlate⟩, hs⟩
  · refine iff_of_true (fun j hj => ?_) (.inr hall)
    cases ht with
    | serving hopen _ _ _ => rw [hdropped] at hopen; cases hopen
    | establishing _ _ hrunning _ _ => rw [hframe] at hrunning; cases hrunning
    | closing _ hrunning _ _ => rw [hframe] at hrunning; cases hrunning
    | closed _ _ hstage => exact mem_accepts_lifecycle_iff.mp (hstage j hj)
  · refine iff_of_false (fun hwords => ?_) ?_
    · have hclosed : v'.stage 0 = .closed := mem_accepts_lifecycle_iff.mpr (hwords 0 hn)
      rcases hs with hbroken | ⟨-, frame, hrunning, -⟩
      · rw [hclosed] at hbroken
        cases hbroken
      · rw [hframe] at hrunning
        cases hrunning
    · rintro (hzero | hall)
      · exact absurd hzero hn.ne'
      · exact hlate (hall x hx)

end SessionLife

end Synclaire
