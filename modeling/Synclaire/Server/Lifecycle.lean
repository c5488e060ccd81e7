import Synclaire.Guard.StackTimely
import Synclaire.Server.Footprint

set_option relaxedAutoImplicit false
set_option autoImplicit false

/-!
# What the guards see of a connection of a server

The methods of a `Connection` take it by a mutable reference and run their call on the session to
its end, so the calls of a handler come one after the other. A server marks a session established
before it has a handler, and it closes a session by its drop alone. So every guard sees for each
connection a reservation, service with at most one establishment, and one close.

## Main definitions

* `Synclaire.ServerState.InTurn` — the calls of a handler come one after the other.
* `Synclaire.ServerState.Unopened` — no call was made on a session that the server is opening.

## Main results

* `Synclaire.ServerState.reach_inTime` — a server uses its stack in time.
* `Synclaire.ServerState.lifecycle_of_given_up` — the words of a connection that is given up.
-/

namespace Synclaire

/-! ## Calls on sessions -/

namespace StackState

variable {G : Type*} [Guard G] {s s' : StackState G}

/-- A step that begins no call leaves the calls on the sessions in their places. -/
theorem session_of_next {a : StackAction G} (hnext : s.next a = some s') (hbegins : a.begins = none)
    {c : ℕ} {call : StackCall} (hcall : s'.calls[c]? = some call) (hsession : call.session ≠ none) :
    ∃ call', s.calls[c]? = some call' ∧ call'.session = call.session ∧
      (call.isReturned = false → call'.isReturned = false) := by
  have hset : ∀ {i : ℕ} {old : StackCall} {frame : StackFrame}, s.calls[i]? = some old →
      old.isReturned = false → (s.calls.set i { old with frame })[c]? = some call →
      ∃ call', s.calls[c]? = some call' ∧ call'.session = call.session ∧
        (call.isReturned = false → call'.isReturned = false) := by
    intro i old frame hi hrunning hc
    rcases (Table.getElem?_set_eq_some hi).mp hc with ⟨rfl, rfl⟩ | ⟨-, hc⟩
    · exact ⟨old, hi, rfl, fun _ => hrunning⟩
    · exact ⟨call, hc, rfl, id⟩
  have happend : ∀ {new : StackCall}, new.session = none → (s.calls ++ [new])[c]? = some call →
      ∃ call', s.calls[c]? = some call' ∧ call'.session = call.session ∧
        (call.isReturned = false → call'.isReturned = false) := by
    intro new hnew hc
    rcases Table.getElem?_append_singleton.mp hc with hc | ⟨-, rfl⟩
    · exact ⟨call, hc, rfl, id⟩
    · exact absurd hnew hsession
  cases steps_of_next hnext with
  | begin hbegins' _ _ => rw [hbegins] at hbegins'; cases hbegins'
  | pass => exact happend rfl hcall
  | ask => exact happend rfl hcall
  | grant hc hframe _ => exact hset hc (isReturned_of_reserve hframe) hcall
  | finish hc hfinished => exact hset hc hfinished.running hcall
  | visit hc _ hvisit => exact hset hc hvisit.running hcall
  | other _ _ hcalls _ => exact ⟨call, hcalls ▸ hcall, rfl, id⟩

omit [Guard G] in
/-- Reservations and calls that move on begin no call on a session. -/
theorem begins_eq_none {a : StackAction G}
    (h : (∃ ctx, a = .reserve ctx) ∨ ∃ c now, a = .advance c now) : a.begins = none := by
  rcases h with ⟨ctx, rfl⟩ | ⟨c, now, rfl⟩ <;> rfl

/-- A call is on a session of the stack. -/
theorem session_lt {stack : GuardStack G} {env : G → G → Prop} (h : (system stack env).Reach s)
    {call : StackCall} (hcall : call ∈ s.calls) {k : ℕ} (hk : call.session = some k) :
    k < s.sessions.length := by
  obtain ⟨c, hc⟩ := List.mem_iff_getElem?.mp hcall
  have howner := (owned_asked_of_reach h).1.session c call k hc hk
  simpa [owners] using (List.getElem?_eq_some_iff.mp howner).1

end StackState

namespace ServerState

variable {flavor : ServerFlavor} {config : GuardStackConfig} {start : Instant}
  {s s' : ServerState} {a : ServerAction}

/-! ## The calls of a handler -/

/-- A handler reads or writes only when none of its calls on the session is running. -/
def InTurn (s : ServerState) : ServerAction → Prop
  | .read k _ => ∀ call ∈ s.stack.calls, call.borrows k = false
  | .write k => ∀ call ∈ s.stack.calls, call.borrows k = false
  | _ => True

instance (s : ServerState) : (a : ServerAction) → Decidable (s.InTurn a)
  | .read _ _ => inferInstanceAs (Decidable (∀ call ∈ _, _))
  | .write _ => inferInstanceAs (Decidable (∀ call ∈ _, _))
  | .accept _ _ _ _ => .isTrue trivial
  | .advance _ _ => .isTrue trivial
  | .opened _ => .isTrue trivial
  | .openFailed _ => .isTrue trivial
  | .established _ => .isTrue trivial
  | .cloneStream _ => .isTrue trivial
  | .intoStream _ => .isTrue trivial
  | .dropConnection _ => .isTrue trivial
  | .dropStream _ => .isTrue trivial
  | .complete _ => .isTrue trivial

/-- The state after a step in turn. -/
def nextInTurn (flavor : ServerFlavor) (s : ServerState) (a : ServerAction) : Option ServerState :=
  if s.InTurn a then s.next flavor a else none

/-- No call was made on a session that the server is opening. -/
def Unopened (s : ServerState) : Prop :=
  ∀ k, s.custody[k]? = some .opening → ∀ call ∈ s.stack.calls, call.session ≠ some k

/-- A session is opened by the first call on it.

**Proof sketch.** A new session is at the end of the table, where no call is. A call that begins on
another session is not on this one, and one that begins on this session ends its opening. -/
theorem Unopened.step (h : s.Unopened) (hreach : (serverSystem flavor config start).Reach s)
    (hstep : s.next flavor a = some s') : s'.Unopened := by
  intro k hk call hcall hsession
  rcases next_cases hstep with ⟨action, stack, hreserve, hstack, rfl⟩ |
    ⟨k', old, action, new, hold, hover, hdone⟩
  · obtain ⟨c, hc⟩ := List.mem_iff_getElem?.mp hcall
    obtain ⟨call', hc', hsame, -⟩ := StackState.session_of_next hstack
      (StackState.begins_eq_none hreserve) hc (by rw [hsession]; simp)
    have hcall' := List.mem_of_getElem? hc'
    rw [hsession] at hsame
    have hlt : k < s.custody.length := by
      rw [(housed_of_reach hreach).rows.length_eq]
      exact StackState.session_lt (reach_stack hreach) hcall' hsame
    have hopening : s.custody[k]? = some .opening := by
      rwa [withStack, List.getElem?_append_left hlt] at hk
    exact h k hopening call' hcall' hsame
  · cases action with
    | none =>
      obtain rfl := hdone
      rcases (Table.getElem?_set_eq_some hold).mp hk with ⟨-, hnew⟩ | ⟨-, hk⟩
      · subst hnew
        cases hover
      · exact h k hk call hcall hsession
    | some action =>
      obtain ⟨stack, hstack, rfl⟩ := hdone
      obtain ⟨first, hbegins, -⟩ := hover.begins
      obtain ⟨slot, hslot, rfl⟩ := next_of_begins hbegins hstack
      rcases (Table.getElem?_set_eq_some hold).mp hk with ⟨-, hnew⟩ | ⟨hne, hk⟩
      · subst hnew
        cases hover
      · rcases List.mem_append.mp hcall with hcall | hcall
        · exact h k hk call hcall hsession
        · obtain rfl := List.mem_singleton.mp hcall
          exact hne (Option.some.inj hsession).symm

/-- No call was made on a session that the server is opening, in every reachable state. -/
theorem unopened_of_reach (h : (serverSystem flavor config start).Reach s) : s.Unopened := by
  refine Transition.System.Reach.invariant (I := Unopened) ?_ ?_ h
  · rintro _ rfl k hk
    cases hk
  · exact fun s a s' hr hI hstep => hI.step hr hstep

/-- **A step of a server uses its stack in time.**

**Proof sketch.** A server marks a session established by the first call on it, a handler calls in
its turn, and a drop waits for the other calls. No call is late, as a session that is not dropped
is open. -/
theorem inTime_of_handover (h : (serverSystem flavor config start).Reach s) {k : ℕ}
    {old new : Custody} {action : StackAction BuiltinGuard} {stack : StackState BuiltinGuard}
    (hinturn : s.InTurn a) (hold : s.custody[k]? = some old)
    (hover : Handover s.stack.calls.length k a old (some action) new)
    (hstack : s.stack.next action = some stack) : StackState.InTime s.stack action stack := by
  obtain ⟨call, hbegins, -⟩ := hover.begins
  obtain ⟨slot, hslot, -⟩ := next_of_begins hbegins hstack
  have hfree : ∀ c ∈ s.stack.calls, c.borrows k = false := by
    cases hover with
    | opened =>
      exact fun c hc => StackState.not_borrows (unopened_of_reach h k hold c hc)
    | read => exact hinturn
    | write => exact hinturn
    | _ => exact fun c hc => StackState.not_borrows_of_drop hstack hc
  have hopen : slot.session.closed = false := by
    have hrel := Table.forall₂_getElem? (housed_of_reach h).rows k
    rw [hold, hslot] at hrel
    obtain ⟨_, _, -, hkept, -⟩ := hover.begins
    cases hrel with
    | some hrow => rw [hrow.closed, hkept]; rfl
  refine StackState.inTime_of_begins hbegins hslot hfree ?_
  cases call <;> simp [SessionCall.isLate, hopen]

/-- The runs of a server whose handlers call in their turn. -/
def handledSystem (flavor : ServerFlavor) (config : GuardStackConfig) (start : Instant) :
    Transition.System ServerState ServerAction :=
  (serverSystem flavor config start).restrict fun s a _ => s.InTurn a

/-- **A server uses its stack in time.** -/
theorem reach_inTime (h : (handledSystem flavor config start).Reach s) :
    ((builtSystem config start).restrict StackState.InTime).Reach s.stack := by
  refine Transition.System.Reach.invariant (I := fun s : ServerState =>
    ((builtSystem config start).restrict StackState.InTime).Reach s.stack) ?_ ?_ h
  · rintro _ rfl
    exact .init rfl
  · rintro s a s' hr hI ⟨hstep, hinturn⟩
    rcases next_cases hstep with ⟨action, stack, hreserve, hstack, rfl⟩ |
      ⟨k, old, action, new, hold, hover, hdone⟩
    · refine .step hI ⟨⟨hstack, fun i g hi => ?_⟩,
        StackState.inTime_of_not_begins (StackState.begins_eq_none hreserve)⟩
      rcases hreserve with ⟨ctx, rfl⟩ | ⟨c, now, rfl⟩ <;> cases hi
    · cases action with
      | none =>
        obtain rfl := hdone
        exact hI
      | some action =>
        obtain ⟨stack, hstack, rfl⟩ := hdone
        refine .step hI ⟨⟨hstack, fun i g hi => ?_⟩,
          inTime_of_handover hr.of_restrict hinturn hold hover hstack⟩
        exact absurd hi (hover.action_ne.2.2.1 i g)

/-! ## The words of a connection -/

/-- **What the guards see of a connection**: once a connection is given up (its handler took the
stream, dropped the `Connection` or returned, or there was none) and no call on its session is
running, each guard has received for it a reservation, then service with at most one establishment,
then one close, and nothing else.

**Proof sketch.** A server uses its stack in time, and it closes the sessions it does not keep. -/
theorem lifecycle_of_given_up (h : (handledSystem flavor config start).Reach s) {k : ℕ}
    {custody : Custody} {slot : SessionSlot} (hk : s.custody[k]? = some custody)
    (hslot : s.stack.sessions[k]? = some slot) (hgiven : custody.keepsSession = false)
    (hidle : ∀ call ∈ s.stack.calls, call.borrows k = false) :
    ∀ j < s.stack.guards.length, Lifecycle (s.stack.word slot.owner j) := by
  have hrow : HousedRow custody slot := by
    have hrel := Table.forall₂_getElem? (housed_of_reach h.of_restrict).rows k
    rw [hk, hslot] at hrel
    cases hrel with
    | some hrow => exact hrow
  have hreach := reach_inTime h
  rw [StackState.length_guards_of_reach hreach.of_restrict]
  exact StackState.lifecycle_of_reach hreach hslot hrow.guarded
    (by rw [hrow.closed, hgiven]; rfl) hidle

/-- Of two connections next to three guards the first one reads and gives up its `Connection`. -/
def givenUpState : ServerState :=
  Transition.System.after (nextInTurn .async) (ServerState.start entriesConfig 0)
    (handledRun 1001 0 0 ++ [.read 0 [1]] ++ List.replicate 7 (.advance 2 0) ++ [.intoStream 0] ++
      List.replicate 4 (.advance 3 0) ++ handledRun 1002 4 1)

/-- Each guard saw the first connection come and go. -/
theorem lifecycle_of_given_up_givenUpState :
    (∀ j < 3, Lifecycle (givenUpState.stack.word 0 j)) ∧
      (givenUpState.stack.word 0 0).length = 5 := by
  have hreach : (handledSystem .async entriesConfig 0).Reach givenUpState := by
    refine Transition.System.reach_after (.init rfl) fun a _ s s' hnext => ?_
    unfold nextInTurn at hnext
    split_ifs at hnext with hinturn
    exact ⟨hnext, hinturn⟩
  have hk : givenUpState.custody[0]? = some (.handling false 1) := by decide +kernel
  have hslot : givenUpState.stack.sessions[0]? = some (givenUpState.stack.sessions.get
      ⟨0, by decide +kernel⟩) := List.getElem?_eq_getElem (by decide +kernel)
  have howner : (givenUpState.stack.sessions.get ⟨0, by decide +kernel⟩).owner = 0 := by
    decide +kernel
  refine ⟨?_, by decide +kernel⟩
  have hwords := lifecycle_of_given_up hreach hk hslot rfl (by decide +kernel)
  rw [howner] at hwords
  exact fun j hj => hwords j (lt_of_lt_of_eq hj (by decide +kernel))

end ServerState

end Synclaire
