import Synclaire.Proxy.Ledgers
import Synclaire.Server.Lifecycle

set_option relaxedAutoImplicit false
set_option autoImplicit false

/-!
# What the guards see of a connection of a proxy

A proxy makes three calls on the session of a connection: it marks the session established, closes
it, and drops it, each when the one before has returned. So every guard sees of a connection a
reservation, at most one establishment, and one close.

## Main definitions

* `Synclaire.ProxyServing.OneByOne` — the call that runs on a session is the one its stage waits
  for.

## Main results

* `Synclaire.ProxyServing.reach_inTime` — a proxy uses its stack in time.
* `Synclaire.ProxyServing.word_of_finished` — the words of a finished connection.
-/

namespace Synclaire

/-- The call of the stack for which a connection at this stage waits. -/
def ProxyStage.call : ProxyStage → Option ℕ
  | .establishing c => some c
  | .closing c => some c
  | _ => none

/-- The drop of a closed session returns at once. -/
theorem SessionCall.first_drop_of_closed {slot : SessionSlot}
    (hclosed : slot.session.closed = true) :
    (SessionCall.drop.first slot).2 = .returned (.ok ()) := by
  have hfirst := SessionCall.begins_first .drop slot
  generalize (SessionCall.drop.first slot).1 = slot' at hfirst
  generalize (SessionCall.drop.first slot).2 = frame at hfirst
  cases hfirst with
  | returns _ => rfl
  | closes _ _ hopen => rw [hclosed] at hopen; cases hopen

namespace ProxyServing

variable {flavor : ProxyFlavor} {config : GuardStackConfig} {start : Instant}
  {s s' : ProxyServing} {a : ProxyStep}

/-! ## The calls on a session -/

/-- A call that runs on a session is the one for which its connection waits. -/
def OneByOne (s : ProxyServing) : Prop :=
  ∀ (k : ℕ) (conn : ProxyConn) (c : ℕ) (call : StackCall), s.conns[k]? = some conn →
    s.stack.calls[c]? = some call → call.borrows k = true → conn.stage.call = some c

/-- A call that runs on a session is on it, and has not returned. -/
theorem eq_of_borrows {call : StackCall} {k : ℕ} (h : call.borrows k = true) :
    call.session = some k ∧ call.isReturned = false := by
  simpa [StackCall.borrows, and_comm] using h

/-- No call runs on a session whose connection waits for none. -/
theorem OneByOne.free (h : s.OneByOne) {k : ℕ} {conn : ProxyConn} (hk : s.conns[k]? = some conn)
    (hcall : conn.stage.call = none) : ∀ call ∈ s.stack.calls, call.borrows k = false := by
  intro call hmem
  obtain ⟨c, hc⟩ := List.mem_iff_getElem?.mp hmem
  by_contra hborrows
  have hwaits := h k conn c call hk hc (by simpa using hborrows)
  rw [hcall] at hwaits
  cases hwaits

/-- A connection comes to another stage while no call runs on its session. -/
theorem OneByOne.set (h : s.OneByOne) {k : ℕ} {old new : ProxyConn} (hk : s.conns[k]? = some old)
    (hfree : ∀ call ∈ s.stack.calls, call.borrows k = false) {metrics : MetricsRun} :
    OneByOne { s with metrics, conns := s.conns.set k new } := by
  intro k' conn c call hconn hc hborrows
  rcases (Table.getElem?_set_eq_some hk).mp hconn with ⟨rfl, rfl⟩ | ⟨-, hconn⟩
  · rw [hfree call (List.mem_of_getElem? hc)] at hborrows
    cases hborrows
  · exact h k' conn c call hconn hc hborrows

/-- A session on which a call begins is free. -/
theorem OneByOne.free_of_turn (h : s.OneByOne) {k n : ℕ} {peer : SocketAddr}
    {old new : ProxyStage} {call : SessionCall} {action : StackAction BuiltinGuard}
    {stack : StackState BuiltinGuard} (hk : s.conns[k]? = some ⟨peer, old⟩)
    (hturn : StackTurn n old call new) (hbegins : action.begins = some (k, call))
    (hstack : s.stack.next action = some stack) :
    ∀ call ∈ s.stack.calls, call.borrows k = false := by
  cases hturn with
  | drop =>
    cases action <;> cases hbegins
    exact fun c hc => StackState.not_borrows_of_drop hstack hc
  | _ => exact h.free hk rfl

/-- A call on the session of a connection begins. -/
theorem OneByOne.call (h : s.OneByOne) (hjoined : Joined flavor s) {k : ℕ} {peer : SocketAddr}
    {old new : ProxyStage} {call : SessionCall} {action : StackAction BuiltinGuard}
    {stack : StackState BuiltinGuard} (hk : s.conns[k]? = some ⟨peer, old⟩)
    (hturn : StackTurn s.stack.calls.length old call new)
    (hbegins : action.begins = some (k, call)) (hstack : s.stack.next action = some stack) :
    OneByOne { s with stack, conns := s.conns.set k ⟨peer, new⟩ } := by
  have hfree := h.free_of_turn hk hturn hbegins hstack
  obtain ⟨slot, hslot, rfl⟩ := ServerState.next_of_begins hbegins hstack
  intro k' conn c call' hconn hc hborrows
  rcases Table.getElem?_append_singleton.mp hc with hc | ⟨rfl, rfl⟩
  · have hset : OneByOne { s with conns := s.conns.set k ⟨peer, new⟩ } := h.set hk hfree
    exact hset k' conn c call' hconn hc hborrows
  · obtain ⟨hsession, hrunning⟩ := eq_of_borrows hborrows
    obtain rfl : k = k' := Option.some.inj hsession
    rcases (Table.getElem?_set_eq_some hk).mp hconn with ⟨-, rfl⟩ | ⟨hne, -⟩
    · cases hturn with
      | drop =>
        -- the session was closed before, so that its drop returns at once
        have hrel := Table.forall₂_getElem? hjoined.rows k
        rw [hk, hslot] at hrel
        cases hrel with
        | some hrow =>
          rw [StackCall.isReturned, SessionCall.first_drop_of_closed hrow.closed] at hrunning
          cases hrunning
      | _ => rfl
    · exact absurd rfl hne

/-- **What a step keeps**: the calls on a session come one after the other. -/
theorem OneByOne.step (h : s.OneByOne) (hreach : (proxySystem flavor config start).Reach s)
    (hstep : s.next flavor a = some s') : s'.OneByOne := by
  have hjoined := joined_of_reach hreach
  cases moves_of_next hstep with
  | @stack action stack haction hstack =>
    intro k conn c call hconn hc hborrows
    obtain ⟨hsession, hrunning⟩ := eq_of_borrows hborrows
    have hreserve : (∃ ctx, action = .reserve ctx) ∨ ∃ c now, action = .advance c now :=
      haction.imp_left fun ⟨ctx, hctx, _⟩ => ⟨ctx, hctx⟩
    obtain ⟨call', hc', hsame, hreturned⟩ := StackState.session_of_next hstack
      (StackState.begins_eq_none hreserve) hc (by rw [hsession]; simp)
    rw [hsession] at hsame
    have hlt : k < s.conns.length := by
      rw [hjoined.rows.length_eq]
      exact StackState.session_lt (reach_stack hreach) (List.mem_of_getElem? hc') hsame
    have hold : s.conns[k]? = some conn := by
      rwa [withStack, List.getElem?_append_left hlt] at hconn
    exact h k conn c call' hold hc' (StackState.borrows_of_session hsame (hreturned hrunning))
  | metrics haction hmetrics => exact h
  | onStack hk hturn hrecorded hbegins hstack => exact h.call hjoined hk hturn hbegins hstack
  | @onMetrics k peer old new action metrics hk hturn hreturned hmetrics =>
    refine h.set hk fun call hmem => ?_
    obtain ⟨c, hc⟩ := List.mem_iff_getElem?.mp hmem
    by_contra hborrows
    have hborrows : call.borrows k = true := by simpa using hborrows
    have hwaits := h k _ c call hk hc hborrows
    have hrunning := (eq_of_borrows hborrows).2
    have hdone : ∀ c', old = .establishing c' → c' = c → False := by
      rintro c' hold rfl
      have := hreturned c' hold
      rw [hc, Option.any_some, hrunning] at this
      cases this
    cases hturn with
    | record => exact hdone _ rfl (Option.some.inj hwaits)
    | refuse => exact hdone _ rfl (Option.some.inj hwaits)
    | close => cases hwaits
  | handOver hk hrecorded => exact h.set hk (h.free hk rfl)

/-- The calls on a session of a proxy come one after the other, in every reachable state. -/
theorem oneByOne_of_reach (h : (proxySystem flavor config start).Reach s) : s.OneByOne := by
  refine Transition.System.Reach.invariant (I := OneByOne) ?_ ?_ h
  · rintro _ rfl k conn c call hconn
    cases hconn
  · exact fun s a s' hr hI hstep => hI.step hr hstep

/-- **A proxy uses its stack in time.**

**Proof sketch.** The calls on a session come one after the other, and the only one after its close
is its drop. -/
theorem reach_inTime (h : (proxySystem flavor config start).Reach s) :
    ((builtSystem config start).restrict StackState.InTime).Reach s.stack := by
  refine Transition.System.Reach.invariant (I := fun s : ProxyServing =>
    ((builtSystem config start).restrict StackState.InTime).Reach s.stack) ?_ ?_ h
  · rintro _ rfl
    exact .init rfl
  · intro s a s' hr hI hstep
    cases moves_of_next hstep with
    | @stack action stack haction hstack =>
      have hreserve : (∃ ctx, action = .reserve ctx) ∨ ∃ c now, action = .advance c now :=
        haction.imp_left fun ⟨ctx, hctx, _⟩ => ⟨ctx, hctx⟩
      refine .step hI ⟨⟨hstack, fun i g hi => ?_⟩,
        StackState.inTime_of_not_begins (StackState.begins_eq_none hreserve)⟩
      rcases hreserve with ⟨ctx, rfl⟩ | ⟨c, now, rfl⟩ <;> cases hi
    | @onStack k peer old new call action stack hk hturn hrecorded hbegins hstack =>
      refine .step hI ⟨⟨hstack, fun i g hi => ?_⟩, ?_⟩
      · subst hi
        cases hbegins
      · obtain ⟨slot, hslot, -⟩ := ServerState.next_of_begins hbegins hstack
        refine StackState.inTime_of_begins hbegins hslot
          ((oneByOne_of_reach hr).free_of_turn hk hturn hbegins hstack) ?_
        have hrel := Table.forall₂_getElem? (joined_of_reach hr).rows k
        rw [hk, hslot] at hrel
        cases hrel with
        | some hrow =>
          have hclosed := hrow.closed
          cases hturn <;> simp_all [SessionCall.isLate, ProxyStage.isClosed]
    | metrics haction hmetrics => exact hI
    | onMetrics hk hturn hreturned hmetrics => exact hI
    | handOver hk hrecorded => exact hI

/-! ## The words of a connection -/

/-- A word of callbacks of the admission that a guard expects. -/
theorem eq_of_lifecycle {word : List Callback} (h : Lifecycle word)
    (hadmission : ∀ callback ∈ word, callback.isAdmission = true) :
    word = [.reserve, .close] ∨ word = [.reserve, .established, .close] := by
  obtain ⟨service, rfl, hreserve, hclose, hcount⟩ := h
  have hall : service = List.replicate service.length .established := by
    refine List.eq_replicate_iff.mpr ⟨rfl, fun callback hmem => ?_⟩
    have hcallback := hadmission callback (by simp [hmem])
    cases callback with
    | reserve => exact absurd hmem hreserve
    | close => exact absurd hmem hclose
    | established => rfl
    | payload bytes => cases hcallback
    | activity => cases hcallback
  rw [hall, List.count_replicate_self] at hcount
  rcases Nat.le_one_iff_eq_zero_or_eq_one.mp hcount with hzero | hone
  · rw [hall, hzero]
    exact .inl rfl
  · rw [hall, hone]
    exact .inr rfl

/-- **What the guards of a proxy see of a connection**: each guard has received for a finished
connection a reservation, at most one establishment and one close, in this order, and nothing else.

**Proof sketch.** A proxy uses its stack in time, so the words are expected ones, and its guards see
callbacks of the admission only. -/
theorem word_of_finished (h : (proxySystem flavor config start).Reach s) {k : ℕ} {conn : ProxyConn}
    {slot : SessionSlot} (hk : s.conns[k]? = some conn) (hslot : s.stack.sessions[k]? = some slot)
    (hfinished : conn.stage = .finished) :
    ∀ j < s.stack.guards.length, s.stack.word slot.owner j = [.reserve, .close] ∨
      s.stack.word slot.owner j = [.reserve, .established, .close] := by
  have hrow : ConnRow conn slot := by
    have hrel := Table.forall₂_getElem? (joined_of_reach h).rows k
    rw [hk, hslot] at hrel
    cases hrel with
    | some hrow => exact hrow
  have hclosed : slot.session.closed = true := by
    rw [hrow.closed, hfinished]
    rfl
  have hidle := (oneByOne_of_reach h).free hk (by rw [hfinished]; rfl)
  have hreach := reach_inTime h
  intro j hj
  rw [StackState.length_guards_of_reach hreach.of_restrict] at hj
  refine eq_of_lifecycle (StackState.lifecycle_of_reach hreach hslot hrow.guarded hclosed hidle j
    hj) fun callback hmem => ?_
  obtain ⟨r, hr, rfl⟩ := List.mem_map.mp hmem
  exact ((unread_of_reach h).log r (List.mem_of_mem_filter hr)).1

/-- The throttle saw the first connection of `forwardedState` come and go. -/
theorem word_of_finished_forwardedState :
    (forwardedState.stack.word 0 0 = [.reserve, .close] ∨
      forwardedState.stack.word 0 0 = [.reserve, .established, .close]) ∧
      forwardedState.stack.word 0 0 ≠ [.reserve, .close] := by
  have hreach : (proxySystem .sync ServerState.singleConfig 0).Reach forwardedState :=
    Transition.System.reach_after (.init rfl) fun _ _ _ _ hnext => hnext
  have hk : forwardedState.conns[0]? =
      some (forwardedState.conns.get ⟨0, by decide +kernel⟩) :=
    List.getElem?_eq_getElem (by decide +kernel)
  have hslot : forwardedState.stack.sessions[0]? =
      some (forwardedState.stack.sessions.get ⟨0, by decide +kernel⟩) :=
    List.getElem?_eq_getElem (by decide +kernel)
  have howner : (forwardedState.stack.sessions.get ⟨0, by decide +kernel⟩).owner = 0 := by
    decide +kernel
  refine ⟨?_, by decide +kernel⟩
  have hword := word_of_finished hreach hk hslot (by decide +kernel) 0 (by decide +kernel)
  rwa [howner] at hword

end ProxyServing

end Synclaire
