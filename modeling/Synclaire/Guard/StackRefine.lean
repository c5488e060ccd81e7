import Synclaire.Lib.Table
import Synclaire.Guard.StackMachine

set_option relaxedAutoImplicit false
set_option autoImplicit false

/-!
# A reservation that runs alone

`GuardStack.reserve` computes a reservation in one go, the machine in one step for each guard.
When no other call moves in between, both end with the same guards, the same events and the
same result.

## Main definitions

* `Synclaire.StackState.Alone` — one call makes all the steps between two states.
* `Synclaire.StackState.stack` — the part of a state that `GuardStack.reserve` works on.

## Main results

* `Synclaire.StackState.alone_rollback` — a rollback closes the accepted guards.
* `Synclaire.StackState.alone_reserveLoop` — the machine follows the loop of `reserve`.
* `Synclaire.StackState.reserve_refines` — a lone call computes `GuardStack.reserve`.
-/

namespace Synclaire

namespace StackState

variable {G : Type*}

/-- The stack of a state. -/
def stack (s : StackState G) : GuardStack G := ⟨s.guards, s.observer, s.allowlist⟩

/-- Call `c` leads from a state to another with no other step in between. -/
inductive Alone [Guard G] (c : ℕ) : StackState G → StackState G → Prop
  | refl (s : StackState G) : Alone c s s
  | step {s t u : StackState G} {now : Instant} :
      s.next (.advance c now) = some t → Alone c t u → Alone c s u

/-- Call `c` has returned `result`: guards and sessions are as given, and the events were
emitted. -/
structure Ended (s : StackState G) (c : ℕ) (call : StackCall) (guards : List G)
    (sessions : List SessionSlot) (events : List GuardEvent) (result : Except SynError Unit)
    (s' : StackState G) : Prop where
  stack : s'.stack = ⟨guards, s.observer, s.allowlist⟩
  sessions : s'.sessions = s.sessions ++ sessions
  calls : s'.calls = s.calls.set c { call with frame := .returned result }
  events : s'.events = s.events ++ if s.observer then events else []

variable [Guard G]

/-- A step of the call that is at hand. -/
theorem Alone.head {s t u : StackState G} {c : ℕ} {call : StackCall} (now : Instant)
    (hc : s.calls[c]? = some call) (h : s.advanceCall c call now = some t)
    (ht : Alone c t u) : Alone c s u := by
  have hstep : s.next (.advance c now) = some t := by
    rw [next, hc]
    exact h
  exact .step hstep ht

omit [Guard G] in
/-- The call in place `c` after it moved. -/
theorem calls_set {s : StackState G} {c : ℕ} {call call' : StackCall}
    (hc : s.calls[c]? = some call) : (s.calls.set c call')[c]? = some call' := by
  have := (List.getElem?_eq_some_iff.mp hc).1
  simp [this]

omit [Guard G] in
/-- A visit before the end adds its events to those that follow. -/
theorem Ended.of_visited {s s' : StackState G} {c i : ℕ} {call call' : StackCall} {g : G}
    {callback : Callback} {answer result : Except SynError Unit} {events events' : List GuardEvent}
    {frame : StackFrame} {guards : List G} {sessions : List SessionSlot}
    (h : Ended (s.visited c call' i g callback answer events frame) c call guards sessions
      events' result s') : Ended s c call guards sessions (events ++ events') result s' where
  stack := h.stack
  sessions := h.sessions
  calls := h.calls.trans (List.set_set _)
  events := by
    refine h.events.trans ?_
    show s.events ++ (if s.observer then events else []) ++ (if s.observer then events' else []) =
      s.events ++ if s.observer then events ++ events' else []
    cases s.observer <;> simp

/-- **The rollback** closes the guards that accepted, latest first.

**Proof sketch.** Induction on the accepted guards, latest first. The step closes the latest
one in place, and the induction hypothesis the others. -/
theorem alone_rollback (now : Instant) (rejecting : Str) (err : SynError) {c : ℕ}
    (call : StackCall) (accepted : List G) :
    ∀ (s : StackState G) (rest : List G), s.guards = accepted.reverse ++ rest →
      s.calls[c]? = some { call with frame := .rollback accepted.length rejecting err } →
      ∃ s', Alone c s s' ∧ Ended s c call
        ((accepted.map fun a => Guard.onClose a call.context now).reverse ++ rest) []
        [rejectedEvent rejecting call.context err now]
        (.error (.guardRejected rejecting err.toStr)) s' := by
  induction accepted with
  | nil =>
    intro s rest hguards hc
    have hstack : (s.stack : GuardStack G) = ⟨rest, s.observer, s.allowlist⟩ :=
      congrArg (fun guards => (⟨guards, s.observer, s.allowlist⟩ : GuardStack G)) hguards
    exact ⟨_, .head now hc rfl (.refl _), hstack, (List.append_nil _).symm, rfl, rfl⟩
  | cons a accepted ih =>
    intro s rest hguards hc
    have hguards : s.guards = accepted.reverse ++ a :: rest := by
      rw [hguards, List.reverse_cons, List.append_assoc, List.singleton_append]
    have ha : s.guards[accepted.length]? = some a := by
      rw [hguards, Table.getElem?_reverse_append]
    obtain ⟨s', halone, hended⟩ := ih
      (s.visited c { call with frame := .rollback (accepted.length + 1) rejecting err }
        accepted.length (Guard.onClose a call.context now) .close (.ok ()) []
        (.rollback accepted.length rejecting err)) (Guard.onClose a call.context now :: rest)
      (by rw [← Table.set_reverse_append _ _ a, ← hguards]; rfl) (calls_set hc)
    refine ⟨s', .head now hc ?_ halone, ?_⟩
    · simp only [advanceCall, List.length_cons, ha]
    · rw [List.map_cons, List.reverse_cons, List.append_assoc, List.singleton_append]
      exact hended.of_visited

/-- **The machine follows the loop of `reserve`.** At the end the guards are those the loop
computes, and a session is there if the loop succeeds.

**Proof sketch.** Induction on the guards still to ask. An acceptance is one visit and the
induction hypothesis; a refusal is one visit and the rollback; after the last guard the call
admits the connection. -/
theorem alone_reserveLoop (clock : ℕ → Instant) (now : Instant) {c : ℕ} (call : StackCall)
    (rest : List G) : ∀ (s : StackState G) (accepted : List G),
      s.guards = accepted.reverse ++ rest →
      s.calls[c]? = some { call with frame := .reserve accepted.length } →
      ∃ s', Alone c s s' ∧ Ended s c call
        (GuardStack.reserveLoop call.context clock now accepted rest).2.1
        (if (GuardStack.reserveLoop call.context clock now accepted rest).1 = .ok () then
          [⟨.fresh call.context false, call.owner, false⟩] else [])
        (GuardStack.reserveLoop call.context clock now accepted rest).2.2
        (GuardStack.reserveLoop call.context clock now accepted rest).1 s' := by
  induction rest with
  | nil =>
    intro s accepted hguards hc
    rw [List.append_nil] at hguards
    have hend : s.guards[accepted.length]? = none := by
      rw [hguards, List.getElem?_eq_none_iff, List.length_reverse]
    refine ⟨_, .head now hc (by simp only [advanceCall, hend]; rfl) (.refl _), ?_⟩
    have hstack : s.stack = ⟨accepted.reverse, s.observer, s.allowlist⟩ :=
      congrArg (fun guards => (⟨guards, s.observer, s.allowlist⟩ : GuardStack G)) hguards
    refine ⟨hstack, rfl, rfl, ?_⟩
    show s.events = s.events ++ if s.observer then [] else []
    simp
  | cons g rest ih =>
    intro s accepted hguards hc
    have hg : s.guards[accepted.length]? = some g := by
      rw [hguards, Table.getElem?_reverse_append]
    rw [GuardStack.reserveLoop]
    rcases hr : Guard.onReserve g call.context (clock accepted.length) with ⟨_ | _, g'⟩
    · rename_i err
      obtain ⟨s', halone, hended⟩ := alone_rollback now (Guard.name g') err call accepted
        (s.visited c { call with frame := .reserve accepted.length } accepted.length g' .reserve
          (.error err) [] (.rollback accepted.length (Guard.name g') err)) (g' :: rest)
        (by rw [← Table.set_reverse_append _ _ g, ← hguards]; rfl) (calls_set hc)
      refine ⟨s', .head (clock accepted.length) hc ?_ halone, ?_⟩
      · simp only [advanceCall, hg, hr]
      · exact hended.of_visited
    · obtain ⟨s', halone, hended⟩ := ih
        (s.accept c { call with frame := .reserve accepted.length } accepted.length g' .reserve
          (clock accepted.length) (.reserve (accepted.length + 1))) (g' :: accepted)
        (by
          rw [List.reverse_cons, List.append_assoc, List.singleton_append,
            ← Table.set_reverse_append _ _ g, ← hguards]
          rfl) (calls_set hc)
      refine ⟨s', .head (clock accepted.length) hc ?_ halone, ?_⟩
      · simp only [advanceCall, hg, hr]
      · exact hended.of_visited

/-- **A lone call computes `GuardStack.reserve`**: from any state, a reservation that no other
step interrupts ends with the guards, the events and the result of the function, and with the
session it returns at the end of the table. -/
theorem reserve_refines (s : StackState G) (ctx : GuardContext) (clock : ℕ → Instant)
    (now : Instant) :
    ∃ t s', s.next (.reserve ctx) = some t ∧ Alone s.calls.length t s' ∧
      s'.stack = (s.stack.reserve ctx clock now).2.1 ∧
      s'.events = s.events ++ (s.stack.reserve ctx clock now).2.2 ∧
      s'.sessions = s.sessions ++ (match (s.stack.reserve ctx clock now).1 with
        | .ok session => [⟨session, s.calls.length, false⟩]
        | .error _ => []) ∧
      s'.calls = s.calls ++ [⟨s.calls.length, none, ctx,
        .returned ((s.stack.reserve ctx clock now).1.map fun _ => ())⟩] := by
  by_cases hlisted : s.allowlist.contains ctx.peerIp = true
  · refine ⟨_, _, rfl, .refl _, ?_⟩
    simp [beginReserve, GuardStack.reserve, stack, hlisted, Except.map]
  · have hbegin : s.beginReserve ctx =
        { s with calls := s.calls ++ [⟨s.calls.length, none, ctx, .reserve 0⟩] } :=
      if_neg hlisted
    obtain ⟨s', halone, hended⟩ := alone_reserveLoop clock now
      ⟨s.calls.length, none, ctx, .reserve 0⟩ s.guards (s.beginReserve ctx) []
      (by rw [hbegin]; rfl)
      (by rw [hbegin]; exact Table.getElem?_append_singleton.mpr (.inr ⟨rfl, rfl⟩))
    refine ⟨_, s', rfl, halone, ?_⟩
    have hreserve : s.stack.reserve ctx clock now = (_, _, _) := if_neg hlisted
    rw [hbegin] at hended
    obtain ⟨hstack, hsessions, hcalls, hevents⟩ := hended
    rw [hreserve]
    refine ⟨hstack, hevents, hsessions.trans ?_, hcalls.trans ?_⟩
    · show _ = s.sessions ++ (match Except.map (fun _ => GuardSession.fresh ctx false)
        (GuardStack.reserveLoop ctx clock now [] s.guards).1 with
          | .ok session => [⟨session, s.calls.length, false⟩]
          | .error _ => [])
      cases (GuardStack.reserveLoop ctx clock now [] s.guards).1 <;> simp [Except.map]
    · show (s.calls ++ [_]).set s.calls.length _ = s.calls ++ [⟨_, _, _, .returned
        (Except.map (fun _ => ()) (Except.map (fun _ => GuardSession.fresh ctx false)
          (GuardStack.reserveLoop ctx clock now [] s.guards).1))⟩]
      rw [List.set_append_right _ _ le_rfl, Nat.sub_self, List.set_cons_zero]
      cases (GuardStack.reserveLoop ctx clock now [] s.guards).1 <;> rfl

end StackState

end Synclaire
