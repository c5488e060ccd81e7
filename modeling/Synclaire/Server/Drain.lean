import Synclaire.Guard.StackOwners
import Synclaire.Server.ConnectionCap

set_option relaxedAutoImplicit false
set_option autoImplicit false

/-!
# Winding a server down

A server keeps the session of a connection while it opens and establishes it and while the handler
has the `Connection`. The guards count these connections and no others, whatever a handler does with
its stream. Whenever a server accepts nothing any more and its handlers return, what is under way
comes to an end, and nothing is left at the guards.

## Main definitions

* `Synclaire.ServerState.Housed` — a session is open as long as the server or a handler keeps it.
* `Synclaire.ServerState.kept` — the connections that are kept.
* `Synclaire.ServerAction.windsDown` — the steps that end what is under way.
* `Synclaire.ServerState.work` — how many of them are left at most.
* `Synclaire.ServerState.Drained` — no connection is left, and no call.

## Main results

* `Synclaire.ServerState.Housed.step` — what every step of a server keeps.
* `Synclaire.ServerState.guards_count_kept` — the guards count the kept connections.
* `Synclaire.ServerState.work_lt`, `Synclaire.ServerState.Housed.exists_windsDown` — a step that
  winds down leaves less to do, and there is one unless the server is drained.
* `Synclaire.ServerState.drained_of_run` — a server that winds down ends, and ends drained.
-/

namespace Synclaire

/-! ## Calls that begin and calls that go on -/

/-- What the first step of a call makes of the two flags of a guarded session that is not closed by
anything but its drop. -/
theorem SessionCall.first_dropped_closed (call : SessionCall) {slot : SessionSlot}
    (hguarded : slot.session.allowed = false) :
    (call.first slot).1.dropped = (slot.dropped || call = .drop) ∧
      (call.first slot).1.session.closed =
        (slot.session.closed || (call = .close || call = .drop)) := by
  cases call with
  | markEstablished =>
    simp only [first, StackState.markEstablishedFirst, hguarded, Bool.false_eq_true, if_false]
    split_ifs <;> simp
  | recordPayload bytes => simp [first, StackState.recordPayloadFirst]
  | touch => simp [first, StackState.touchFirst]
  | close =>
    simp only [first, StackState.closeFirst, hguarded, Bool.false_eq_true, if_false]
    split_ifs with hclosed <;> simp [hclosed]
  | drop =>
    simp only [first, StackState.dropFirst, StackState.closeFirst, hguarded, Bool.false_eq_true,
      if_false]
    split_ifs with hclosed <;> simp [hclosed]

/-- How many steps a call in this frame takes at most, next to `n` guards. A reservation may end
with a session, which the server then opens, establishes and drops. -/
def StackFrame.work (n : ℕ) : StackFrame → ℕ
  | .returned _ => 0
  | .reserve i => n - i + (2 * n + 6)
  | .rollback r _ _ => r + 1
  | .established i => n - i + 1
  | .payload i touched _ => 2 * (n - i) + if touched then 1 else 2
  | .activity i => n - i + 1
  | .close i => n - i + 1

namespace StackState

variable {G : Type*} [Guard G]

/-- A visit leaves its call less to do. -/
theorem Visit.work_lt {g g' : G} {ctx : GuardContext} {now : Instant} {i n : ℕ}
    {frame frame' : StackFrame} {callback : Callback} {result : Except SynError Unit}
    {events : List GuardEvent} (h : Visit g ctx now i frame callback result g' events frame')
    (hi : i < n) : frame'.work n < frame.work n := by
  cases h <;> simp only [StackFrame.work, if_true, if_false, Bool.false_eq_true] <;> omega

/-- A call that is finished had something to do. -/
theorem Finished.work_pos {n : ℕ} {ctx : GuardContext} {now : Instant} {frame : StackFrame}
    {events : List GuardEvent} {result : Except SynError Unit}
    (h : Finished n ctx now frame events result) : 0 < frame.work n := by
  cases h with
  | @payload i touched bytes hi => cases touched <;> simp [StackFrame.work]
  | _ => simp [StackFrame.work]

/-- No rollback is beyond the guards. -/
def RollsBack (s : StackState G) : Prop :=
  ∀ call ∈ s.calls, ∀ r rejecting err, call.frame = .rollback r rejecting err →
    r ≤ s.guards.length

/-- **A call that has not returned can go on**, whatever the clock reads. -/
theorem exists_advance {s : StackState G} (h : s.RollsBack) {c : ℕ} {call : StackCall}
    (hc : s.calls[c]? = some call) (hrunning : call.isReturned = false) (now : Instant) :
    ∃ s', s.next (.advance c now) = some s' := by
  have hnext : s.next (.advance c now) = s.advanceCall c call now := by
    rw [StackState.next, hc]
  rw [hnext]
  have hframe := h call (List.mem_of_getElem? hc)
  unfold advanceCall
  cases hcall : call.frame with
  | returned result =>
    unfold StackCall.isReturned at hrunning
    rw [hcall] at hrunning
    cases hrunning
  | reserve i =>
    dsimp only
    cases s.guards[i]? with
    | none => exact ⟨_, rfl⟩
    | some g =>
      dsimp only
      rcases Guard.onReserve g call.context now with ⟨_ | _, g'⟩
      · exact ⟨_, rfl⟩
      · exact ⟨_, rfl⟩
  | rollback r rejecting err =>
    cases r with
    | zero => exact ⟨_, rfl⟩
    | succ r =>
      -- the guards below it are there
      have hr : r < s.guards.length := hframe (r + 1) rejecting err hcall
      dsimp only
      rw [List.getElem?_eq_getElem hr]
      exact ⟨_, rfl⟩
  | established i => exact ⟨_, rfl⟩
  | payload i touched bytes => cases touched <;> exact ⟨_, rfl⟩
  | activity i => exact ⟨_, rfl⟩
  | close i =>
    dsimp only
    cases s.guards[i]? with
    | none => exact ⟨_, rfl⟩
    | some g => exact ⟨_, rfl⟩

end StackState

/-! ## Who keeps a session -/

namespace ServerState

variable {flavor : ServerFlavor} {config : GuardStackConfig} {start : Instant}
  {s s' : ServerState} {a : ServerAction}

/-- A guarded session is open exactly as long as the server or a handler keeps it. -/
structure HousedRow (custody : Custody) (slot : SessionSlot) : Prop where
  guarded : slot.session.allowed = false
  dropped : slot.dropped = !custody.keepsSession
  closed : slot.session.closed = !custody.keepsSession

/-- What holds in every run of a server. -/
structure Housed (s : ServerState) : Prop where
  allowlist : s.stack.allowlist = .new
  rows : List.Forall₂ HousedRow s.custody s.stack.sessions
  establishing : ∀ custody ∈ s.custody, ∀ c, custody = .establishing c → c < s.stack.calls.length
  rollsBack : s.stack.RollsBack

/-- The step of the stack that belongs to a change of custody begins a call on the session, which
gives up the session iff it drops it. -/
theorem Handover.begins {n k : ℕ} {old new : Custody} {action : StackAction BuiltinGuard}
    (h : Handover n k a old (some action) new) :
    ∃ call, action.begins = some (k, call) ∧ call ≠ .close ∧ old.keepsSession = true ∧
      new.keepsSession = !decide (call = .drop) := by
  cases h with
  | opened => exact ⟨.markEstablished, rfl, nofun, rfl, rfl⟩
  | @read streams bytes => exact ⟨.recordPayload bytes, rfl, nofun, rfl, rfl⟩
  | write => exact ⟨.touch, rfl, nofun, rfl, rfl⟩
  | _ => exact ⟨.drop, rfl, nofun, rfl, rfl⟩

/-- A change of custody without a step of the stack keeps the session or does not. -/
theorem Handover.keepsSession_eq {n k : ℕ} {old new : Custody} (h : Handover n k a old none new) :
    new.keepsSession = old.keepsSession := by
  cases h <;> rfl

/-- The call that establishes a session is the one that begins. -/
theorem Handover.establishing {n k c : ℕ} {old new : Custody}
    {action : Option (StackAction BuiltinGuard)} (h : Handover n k a old action new)
    (hnew : new = .establishing c) : c = n ∧ action.isSome = true := by
  cases h <;> cases hnew
  exact ⟨rfl, rfl⟩

/-- A call that begins on a session appends itself and may change the flags of the session. -/
theorem next_of_begins {s s' : StackState BuiltinGuard} {action : StackAction BuiltinGuard} {k : ℕ}
    {call : SessionCall} (hbegins : action.begins = some (k, call))
    (h : s.next action = some s') :
    ∃ slot, s.sessions[k]? = some slot ∧ s' = { s with
      sessions := s.sessions.set k (call.first slot).1
      calls := s.calls ++ [⟨slot.owner, some k, slot.session.context, (call.first slot).2⟩] } := by
  have hon : s.beginOn k call.first = some s' := by
    cases action with
    | drop _ =>
      cases hbegins
      exact StackState.beginOn_of_drop h
    | markEstablished _ | recordPayload _ _ | touch _ | close _ =>
      cases hbegins
      exact h
    | _ => cases hbegins
  obtain ⟨slot, hslot, -, rfl⟩ := StackState.beginOn_cases hon
  exact ⟨slot, hslot, rfl⟩

/-- No call begins as a rollback. -/
theorem rollsBack_append {t : StackState BuiltinGuard} (h : t.RollsBack) {call : StackCall}
    (hcall : ∀ r rejecting err, call.frame ≠ .rollback r rejecting err)
    (sessions : List SessionSlot) :
    StackState.RollsBack { t with sessions, calls := t.calls ++ [call] } := by
  intro call' hmem r rejecting err hframe
  rcases List.mem_append.mp hmem with hmem | hmem
  · exact h call' hmem r rejecting err hframe
  · obtain rfl := List.mem_singleton.mp hmem
    exact absurd hframe (hcall r rejecting err)

/-- The first step of a call on a session leads to no rollback. -/
theorem first_ne_rollback (call : SessionCall) (slot : SessionSlot) (r : ℕ) (rejecting : Str)
    (err : SynError) : (call.first slot).2 ≠ .rollback r rejecting err := by
  have hfirst := call.begins_first slot
  generalize (call.first slot).1 = slot' at hfirst
  generalize (call.first slot).2 = frame at hfirst
  cases hfirst <;> exact nofun

/-- A step keeps the number of guards. -/
theorem length_guards_next {t t' : StackState BuiltinGuard} {action : StackAction BuiltinGuard}
    (h : t.next action = some t') : t'.guards.length = t.guards.length := by
  rcases StackState.next_effect h with ⟨heq, -⟩ | ⟨i, g, g', -, -, heq, -⟩ |
    ⟨c, call, now, i, g, callback, result, g', events, frame, -, -, -, heq, -⟩
  · rw [heq]
  · rw [heq, List.length_set]
  · rw [heq, List.length_set]

/-- A step forgets no call. -/
theorem length_calls_next {t t' : StackState BuiltinGuard} {action : StackAction BuiltinGuard}
    (h : t.next action = some t') : t.calls.length ≤ t'.calls.length := by
  cases StackState.steps_of_next h with
  | begin hbegins hslot hdropped => simp
  | pass => simp
  | ask => simp
  | grant hc hframe hi => simp [StackState.moveTo, StackState.addSession]
  | finish hc hfinished => simp [StackState.moveTo, StackState.emit]
  | visit hc hg hvisit =>
    simp [StackState.visited, StackState.moveTo, StackState.emit, StackState.record]
  | other hbegins hsessions hcalls hlog => rw [hcalls]

/-- **A step of a stack rolls back no further than its guards.** -/
theorem rollsBack_next {t t' : StackState BuiltinGuard} {action : StackAction BuiltinGuard}
    (h : t.RollsBack) (hnext : t.next action = some t') : t'.RollsBack := by
  have hset : ∀ {c : ℕ} {call : StackCall} {frame : StackFrame},
      (∀ r rejecting err, frame = .rollback r rejecting err → r ≤ t.guards.length) →
      ∀ call' ∈ t.calls.set c { call with frame }, ∀ r rejecting err,
        call'.frame = .rollback r rejecting err → r ≤ t.guards.length := by
    intro c call frame hframe call' hmem r rejecting err hcall'
    rcases List.mem_or_eq_of_mem_set hmem with hmem | rfl
    · exact h call' hmem r rejecting err hcall'
    · exact hframe r rejecting err hcall'
  have hlength := length_guards_next hnext
  unfold StackState.RollsBack
  cases StackState.steps_of_next hnext with
  | begin hbegins hslot hdropped => exact rollsBack_append h (first_ne_rollback _ _) _
  | pass => exact rollsBack_append h (by simp) _
  | ask => exact rollsBack_append h (by simp) t.sessions
  | grant hc hframe hi => exact hset (by simp)
  | finish hc hfinished => exact hset (by simp)
  | @visit c i now call g g' callback result events frame hc hg hvisit =>
    rw [hlength]
    refine hset fun r rejecting err hframe => ?_
    have hi := (List.getElem?_eq_some_iff.mp hg).1
    subst hframe
    generalize call.frame = before at hvisit
    cases hvisit with
    | reserveError _ => exact hi.le
    | rollback => exact hi.le
  | other hbegins hsessions hcalls hlog =>
    rw [hlength, hcalls]
    exact h

/-! ## What every step keeps -/

/-- A step of a reservation leaves the sessions as they are, or appends a guarded one. -/
theorem sessions_next {t t' : StackState BuiltinGuard} {action : StackAction BuiltinGuard}
    (hallowlist : t.allowlist = .new)
    (hreserve : (∃ ctx, action = .reserve ctx) ∨ ∃ c now, action = .advance c now)
    (h : t.next action = some t') :
    t'.sessions = t.sessions ∨
      ∃ ctx owner, t'.sessions = t.sessions ++ [⟨.fresh ctx false, owner, false⟩] := by
  rcases hreserve with ⟨ctx, rfl⟩ | ⟨c, now, rfl⟩
  · obtain rfl := Option.some.inj h
    simp [StackState.beginReserve, hallowlist, Allowlist.contains, Allowlist.new]
  · cases StackState.steps_of_next h with
    | begin hbegins hslot hdropped => cases hbegins
    | @grant c i now call hc hframe hi => exact .inr ⟨call.context, call.owner, rfl⟩
    | finish hc hfinished => exact .inl rfl
    | visit hc hg hvisit => exact .inl rfl
    | other hbegins hsessions hcalls hlog => exact .inl hsessions

/-- The stack moves in a reservation: a new session is kept by the server. -/
theorem HousedRow.withStack {stack : StackState BuiltinGuard} {action : StackAction BuiltinGuard}
    (h : s.Housed) (hreserve : (∃ ctx, action = .reserve ctx) ∨ ∃ c now, action = .advance c now)
    (hstack : s.stack.next action = some stack) :
    List.Forall₂ HousedRow (s.withStack stack).custody stack.sessions := by
  have hcustody : (s.withStack stack).custody = s.custody ++
      List.replicate (stack.sessions.length - s.stack.sessions.length) .opening := rfl
  rw [hcustody]
  rcases sessions_next h.allowlist hreserve hstack with heq | ⟨ctx, owner, heq⟩
  · rw [heq, Nat.sub_self, List.replicate_zero, List.append_nil]
    exact h.rows
  · rw [heq, List.length_append, Nat.add_sub_cancel_left]
    exact List.rel_append h.rows (.cons ⟨rfl, rfl, rfl⟩ .nil)

/-- The custody of a session changes, together with a step of the stack or not. -/
theorem HousedRow.handOver {k : ℕ} {old new : Custody} {action : Option (StackAction BuiltinGuard)}
    (h : s.Housed) (hold : s.custody[k]? = some old)
    (hover : Handover s.stack.calls.length k a old action new)
    (hdone : s.HandedOver k new action s') :
    List.Forall₂ HousedRow s'.custody s'.stack.sessions := by
  cases action with
  | none =>
    obtain rfl := hdone
    have hkeeps := hover.keepsSession_eq
    exact Table.forall₂_set_left h.rows hold fun slot hrow =>
      ⟨hrow.guarded, hkeeps ▸ hrow.dropped, hkeeps ▸ hrow.closed⟩
  | some action =>
    obtain ⟨stack, hstack, rfl⟩ := hdone
    obtain ⟨call, hbegins, hclose, hkept, hnew⟩ := hover.begins
    obtain ⟨slot, hslot, rfl⟩ := next_of_begins hbegins hstack
    have hrow : HousedRow old slot := by
      have hrel := Table.forall₂_getElem? h.rows k
      rw [hold, hslot] at hrel
      cases hrel with
      | some hrow => exact hrow
    obtain ⟨hdropped, hclosed⟩ := call.first_dropped_closed hrow.guarded
    refine Table.forall₂_set h.rows k ⟨?_, ?_, ?_⟩
    · rw [(call.first_allowed_owner slot).1]
      exact hrow.guarded
    · rw [hdropped, hrow.dropped, hkept, hnew]
      simp
    · rw [hclosed, hrow.closed, hkept, hnew]
      simp [hclose]

/-- The call that establishes a session is one of the calls. -/
theorem Housed.establishing_step (h : s.Housed) (hstep : s.next flavor a = some s') :
    ∀ custody ∈ s'.custody, ∀ c, custody = .establishing c → c < s'.stack.calls.length := by
  rintro _ hmem c rfl
  rcases next_cases hstep with ⟨action, stack, hreserve, hstack, rfl⟩ |
    ⟨k, old, action, new, hold, hover, hdone⟩
  · have hlength := length_calls_next hstack
    rcases List.mem_append.mp hmem with hmem | hmem
    · exact (h.establishing _ hmem c rfl).trans_le hlength
    · cases List.eq_of_mem_replicate hmem
  · cases action with
    | none =>
      obtain rfl := hdone
      rcases List.mem_or_eq_of_mem_set hmem with hmem | hnew
      · exact h.establishing _ hmem c rfl
      · exact absurd (hover.establishing hnew.symm).2 (by simp)
    | some action =>
      obtain ⟨stack, hstack, rfl⟩ := hdone
      obtain ⟨call, hbegins, -⟩ := hover.begins
      obtain ⟨slot, hslot, rfl⟩ := next_of_begins hbegins hstack
      rcases List.mem_or_eq_of_mem_set hmem with hmem | hnew
      · exact (h.establishing _ hmem c rfl).trans_le (by simp)
      · obtain rfl := (hover.establishing hnew.symm).1
        simp

/-- Only the calls of the allowlist change it. -/
theorem allowlist_next {t t' : StackState BuiltinGuard} {action : StackAction BuiltinGuard}
    (hallow : ∀ ip, action ≠ .allow ip) (hremove : ∀ ip, action ≠ .remove ip)
    (hclear : action ≠ .clear) (h : t.next action = some t') : t'.allowlist = t.allowlist := by
  rcases StackState.next_allowlist h with heq | ⟨ip, hip⟩ | ⟨ip, hip⟩ | hclears
  · exact heq
  · exact absurd hip (hallow ip)
  · exact absurd hip (hremove ip)
  · exact absurd hclears hclear

/-- **One step of a server**: the sessions that are kept stay open, and the others are closed. -/
theorem Housed.step (h : s.Housed) (hstep : s.next flavor a = some s') : s'.Housed := by
  have hnext := next_cases hstep
  constructor
  · rcases stack_step hstep with heq | ⟨action, hstack, -, hallow, hremove, hclear⟩
    · rw [heq]
      exact h.allowlist
    · exact (allowlist_next hallow hremove hclear hstack).trans h.allowlist
  · rcases hnext with ⟨action, stack, hreserve, hstack, rfl⟩ |
      ⟨k, old, action, new, hold, hover, hdone⟩
    · exact HousedRow.withStack h hreserve hstack
    · exact HousedRow.handOver h hold hover hdone
  · exact h.establishing_step hstep
  · rcases stack_step hstep with heq | ⟨action, hstack, -⟩
    · rw [heq]
      exact h.rollsBack
    · exact rollsBack_next h.rollsBack hstack

/-- Every reachable state is housed. -/
theorem housed_of_reach (h : (serverSystem flavor config start).Reach s) : s.Housed := by
  refine Transition.System.Reach.invariant (I := Housed) ?_ ?_ h
  · rintro _ rfl
    exact ⟨rfl, .nil, by simp [ServerState.start], by
      simp [ServerState.start, StackState.start, StackState.RollsBack]⟩
  · exact fun s a s' _ hI hstep => hI.step hstep

/-! ## What the guards count -/

/-- The connection is kept, and its context is in `P`. -/
def isKept (P : GuardContext → Bool) (x : Custody × SessionSlot) : Bool :=
  P x.2.session.context && x.1.keepsSession

/-- The connections from contexts in `P` that the server is opening or establishing, or whose
`Connection` a handler has. -/
def kept (s : ServerState) (P : GuardContext → Bool) : ℕ :=
  (s.custody.zip s.stack.sessions).countP (isKept P)

/-- The open sessions are those that are kept. -/
theorem Housed.openSessions_eq_kept (h : s.Housed) (P : GuardContext → Bool) :
    s.stack.openSessions P = s.kept P := by
  have hrows := h.rows
  unfold StackState.openSessions kept
  generalize s.custody = custody, s.stack.sessions = sessions at hrows
  induction hrows with
  | nil => rfl
  | @cons custody slot custodies slots hrow _ ih =>
    have hopen : StackState.isOpen P slot = isKept P (custody, slot) := by
      simp [StackState.isOpen, isKept, hrow.guarded, hrow.closed]
    rw [List.zip_cons_cons, List.countP_cons, List.countP_cons, ih, hopen]

/-- A guard of a running stack is of the kind it was built as. -/
theorem rank_of_reach {t : StackState BuiltinGuard} (h : (builtSystem config start).Reach t)
    {i : ℕ} {g : BuiltinGuard} (hg : t.guards[i]? = some g) :
    (buildGuardStack config start).guards[i]?.map BuiltinGuard.rank = some g.rank := by
  let built := (buildGuardStack config start).guards
  obtain ⟨-, hinv⟩ := StackState.guards_of_reach
    (I := fun i g => built[i]?.map BuiltinGuard.rank = some g.rank)
    (fun i => BuiltinGuard.keptByCallbacks_rank fun n => built[i]?.map BuiltinGuard.rank = some n)
    (fun i g g' hchange hg => by rw [hchange.rank, hg])
    (fun i g hg => congrArg (Option.map BuiltinGuard.rank) hg) h
  exact hinv i g hg

/-- A throttle of a running stack was built from a configuration. -/
theorem exists_throttle {t : StackState BuiltinGuard} (h : (builtSystem config start).Reach t)
    {g : Throttle} (hg : .throttle g ∈ t.guards) :
    ∃ (j : ℕ) (cap : ThrottleConfig),
      (buildGuardStack config start).guards[j]? = some (.throttle (.new cap)) ∧
        t.guards[j]? = some (.throttle g) := by
  obtain ⟨j, hj⟩ := List.mem_iff_getElem?.mp hg
  obtain ⟨b, hb, hrank⟩ := Option.map_eq_some_iff.mp (rank_of_reach h hj)
  have hmem : b ∈ (buildGuardStack config start).guards := List.mem_of_getElem? hb
  cases b with
  | throttle b =>
    have hnew : ∃ cap, config.throttle = some cap ∧ b = .new cap := by
      simpa [buildGuardStack, eq_comm] using hmem
    obtain ⟨cap, -, rfl⟩ := hnew
    exact ⟨j, cap, hb, hj⟩
  | _ => cases hrank

/-- Next to an idle stack, a guard has accepted what it was closed for, and what is kept. -/
theorem books_of_idle (h : (serverSystem flavor config start).Reach s) (hidle : s.stack.Idle)
    (P : GuardContext → Bool) {j : ℕ} (hj : j < s.stack.guards.length) :
    s.stack.accepted P j = s.stack.closes P j + s.kept P := by
  have hledger := StackState.ledger (reach_stack h) P j hj
  rwa [hidle.owing_eq_zero P j, Nat.add_zero, (housed_of_reach h).openSessions_eq_kept] at hledger

/-- Next to an idle stack, a throttle holds a slot for each open session. -/
theorem throttle_slots {t : StackState BuiltinGuard} (h : (builtSystem config start).Reach t)
    (hidle : t.Idle) {g : Throttle} (hg : .throttle g ∈ t.guards) :
    g.global = t.openSessions ofAny ∧ ∀ ip, g.heldBy ip = t.openSessions (ofIp ip) := by
  obtain ⟨j, cap, hbuilt, hj⟩ := exists_throttle h hg
  have hnew : BuiltinGuard.IsThrottle cap (.throttle (.new cap)) :=
    ⟨rfl, Nat.zero_le _, fun _ => Nat.zero_le _⟩
  have hlt := (List.getElem?_eq_some_iff.mp hj).1
  have hbook : ∀ P, t.accepted P j = t.closes P j + t.openSessions P := by
    intro P
    have hledger := StackState.ledger h P j hlt
    rwa [hidle.owing_eq_zero P j, Nat.add_zero] at hledger
  constructor
  · have hmeter :=
      ((meter_global cap).add_closes banChange_isThrottle hbuilt hnew rfl h _ hj).2
    have := hbook ofAny
    simp only [BuiltinGuard.global] at hmeter
    omega
  · intro ip
    have hmeter :=
      ((meter_heldBy cap ip).add_closes banChange_isThrottle hbuilt hnew rfl h _ hj).2
    have := hbook (ofIp ip)
    simp only [BuiltinGuard.heldBy] at hmeter
    omega

/-- Next to an idle stack, a throttle holds a slot for each connection that is kept. -/
theorem slots_of_idle (h : (serverSystem flavor config start).Reach s) (hidle : s.stack.Idle)
    {g : Throttle} (hg : .throttle g ∈ s.stack.guards) :
    g.global = s.kept ofAny ∧ ∀ ip, g.heldBy ip = s.kept (ofIp ip) := by
  have hkept := (housed_of_reach h).openSessions_eq_kept
  obtain ⟨hglobal, hheld⟩ := throttle_slots (reach_stack h) hidle hg
  exact ⟨hglobal.trans (hkept ofAny), fun ip => (hheld ip).trans (hkept (ofIp ip))⟩

/-- **The guards of a server count the connections that are kept**: whenever no call of the stack
is in progress, each guard has accepted as many reservations as it has received closes and as
connections are kept, from each kind of context, and a throttle holds a slot for each of them and
for nothing else.

**Proof sketch.** The open sessions are those that are kept (`Housed`). By the ledger they are all
that an idle stack owes to its guards, and a throttle is a meter of what it accepted. -/
theorem guards_count_kept (h : (serverSystem flavor config start).Reach s)
    (hidle : s.stack.Idle) :
    (∀ P j, j < s.stack.guards.length →
      s.stack.accepted P j = s.stack.closes P j + s.kept P) ∧
    ∀ g, .throttle g ∈ s.stack.guards →
      g.global = s.kept ofAny ∧ ∀ ip, g.heldBy ip = s.kept (ofIp ip) :=
  ⟨fun P _ hj => books_of_idle h hidle P hj, fun _ hg => slots_of_idle h hidle hg⟩

/-- A handler that took its stream, and one that has its `Connection`: the first session is closed,
and the throttle holds one slot. -/
theorem guards_count_kept_takenRun :
    let s := singleState .async
      (connectRun 1001 0 0 ++ [.intoStream 0, .advance 2 0, .advance 2 0] ++ connectRun 1002 3 1)
    s.stack.accepted ofAny 0 = s.stack.closes ofAny 0 + s.kept ofAny ∧ s.kept ofAny = 1 := by
  have hreach : (serverSystem .async singleConfig 0).Reach (singleState .async
      (connectRun 1001 0 0 ++ [.intoStream 0, .advance 2 0, .advance 2 0] ++
        connectRun 1002 3 1)) :=
    Transition.System.reach_after (.init rfl) fun _ _ _ _ hnext => hnext
  exact ⟨(guards_count_kept hreach (by unfold StackState.Idle; decide +kernel)).1 ofAny 0
    (by decide +kernel), by decide +kernel⟩

/-! ## Winding down -/

end ServerState

/-- The steps that end what is under way: a call goes on, a transport is ready or has failed, a
session is established or was refused, a handler returns. -/
def ServerAction.windsDown : ServerAction → Bool
  | .advance _ _ => true
  | .opened _ => true
  | .openFailed _ => true
  | .established _ => true
  | .complete _ => true
  | _ => false

/-- How many steps a connection in this custody takes at most, next to `n` guards. -/
def Custody.work (n : ℕ) : Custody → ℕ
  | .opening => 2 * n + 5
  | .establishing _ => n + 3
  | .handling _ _ => n + 2
  | .finished => 0

namespace ServerState

/-- How many steps that wind down are left at most. -/
def work (s : ServerState) : ℕ :=
  Table.tally (Custody.work s.stack.guards.length) s.custody +
    Table.tally (fun call => call.frame.work s.stack.guards.length) s.stack.calls

/-- No connection is left, and no call is in progress. -/
def Drained (s : ServerState) : Prop := (∀ custody ∈ s.custody, custody = .finished) ∧ s.stack.Idle

variable {flavor : ServerFlavor} {config : GuardStackConfig} {start : Instant}
  {s s' : ServerState} {a : ServerAction}

/-- The first step of a call that establishes or drops a session leaves one step for each guard,
and one more. -/
theorem first_work_le {n : ℕ} {call : SessionCall}
    (hcall : call = .markEstablished ∨ call = .drop) (slot : SessionSlot) :
    (call.first slot).2.work n ≤ n + 1 := by
  have hfirst := call.begins_first slot
  generalize (call.first slot).1 = slot' at hfirst
  generalize (call.first slot).2 = frame at hfirst
  cases hfirst with
  | inspects hguarded => rcases hcall with h | h <;> cases h
  | touches hguarded => rcases hcall with h | h <;> cases h
  | _ => simp [StackFrame.work]

/-- A step that neither accepts a connection nor moves a call on changes the custody of a
session. -/
theorem exists_handover (h : s.next flavor a = some s')
    (haccept : ∀ peer localAddr tls now, a ≠ .accept peer localAddr tls now)
    (hadvance : ∀ c now, a ≠ .advance c now) :
    ∃ k old action new, s.custody[k]? = some old ∧
      Handover s.stack.calls.length k a old action new ∧ s.HandedOver k new action s' := by
  cases a with
  | accept peer localAddr tls now => exact absurd rfl (haccept peer localAddr tls now)
  | advance c now => exact absurd rfl (hadvance c now)
  | opened k =>
    rw [next] at h
    split at h
    · next hk => exact ⟨k, _, _, _, hk, .opened, handOver_cases h⟩
    · cases h
  | openFailed k =>
    rw [next] at h
    split at h
    · next hk => exact ⟨k, _, _, _, hk, .openFailed, handOver_cases h⟩
    · cases h
  | established k =>
    rw [next] at h
    split at h
    · next c hk =>
      split at h
      · exact ⟨k, _, none, _, hk, .established, (Option.some.inj h).symm⟩
      · exact ⟨k, _, _, _, hk, .rejected, handOver_cases h⟩
      · cases h
    · cases h
  | read k bytes =>
    rw [next] at h
    split at h
    · next hk => exact ⟨k, _, _, _, hk, .read, handOver_cases h⟩
    · cases h
  | write k =>
    rw [next] at h
    split at h
    · next hk => exact ⟨k, _, _, _, hk, .write, handOver_cases h⟩
    · cases h
  | cloneStream k =>
    rw [next] at h
    split at h
    · next hk =>
      split_ifs at h with hheld
      exact ⟨k, _, none, _, hk, .cloneStream hheld, (Option.some.inj h).symm⟩
    · cases h
  | intoStream k =>
    rw [next] at h
    split at h
    · next hk => exact ⟨k, _, _, _, hk, .intoStream, handOver_cases h⟩
    · cases h
  | dropConnection k =>
    rw [next] at h
    split at h
    · next hk => exact ⟨k, _, _, _, hk, .dropConnection, handOver_cases h⟩
    · cases h
  | dropStream k =>
    rw [next] at h
    split at h
    · next hk => exact ⟨k, _, none, _, hk, .dropStream, (Option.some.inj h).symm⟩
    · cases h
  | complete k =>
    rw [next] at h
    split at h
    · next hk => exact ⟨k, _, _, _, hk, .completeOwning, handOver_cases h⟩
    · next hk => exact ⟨k, _, none, _, hk, .complete, (Option.some.inj h).symm⟩
    · cases h

/-- A custody that winds down pays for the call it begins. -/
theorem Handover.work_lt {m k n : ℕ} {old new : Custody}
    {action : Option (StackAction BuiltinGuard)} (h : Handover m k a old action new)
    (ha : a.windsDown = true) :
    new.work n + (if action.isSome then n + 1 else 0) < old.work n ∧
      ∀ act ∈ action, ∃ call, act.begins = some (k, call) ∧
        (call = .markEstablished ∨ call = .drop) := by
  cases h with
  | opened =>
    refine ⟨?_, fun act hact => ?_⟩
    · simp only [Custody.work, Option.isSome_some, if_true]
      omega
    · obtain rfl := Option.some.inj hact
      exact ⟨.markEstablished, rfl, .inl rfl⟩
  | openFailed | rejected | completeOwning =>
    refine ⟨?_, fun act hact => ?_⟩
    · simp only [Custody.work, Option.isSome_some, if_true]
      omega
    · obtain rfl := Option.some.inj hact
      exact ⟨.drop, rfl, .inr rfl⟩
  | established | complete => exact ⟨by simp [Custody.work], nofun⟩
  | _ => cases ha

/-- A step of a call leaves less to do: a session that it grants is paid for by the reservation. -/
theorem work_withStack_lt {c : ℕ} {now : Instant} {stack : StackState BuiltinGuard}
    (h : s.stack.next (.advance c now) = some stack) : (s.withStack stack).work < s.work := by
  have hlength := length_guards_next h
  have hset : ∀ {call : StackCall} (frame : StackFrame), s.stack.calls[c]? = some call →
      Table.tally (fun call => call.frame.work s.stack.guards.length)
          (s.stack.calls.set c { call with frame }) + call.frame.work s.stack.guards.length =
        Table.tally (fun call => call.frame.work s.stack.guards.length) s.stack.calls +
          frame.work s.stack.guards.length :=
    fun frame hc => Table.tally_set _ hc _
  show Table.tally (Custody.work stack.guards.length) (s.custody ++
      List.replicate (stack.sessions.length - s.stack.sessions.length) .opening) +
    Table.tally (fun call => call.frame.work stack.guards.length) stack.calls < s.work
  rw [hlength]
  unfold work
  obtain ⟨call, hc, hadvance⟩ := StackState.advanceCall_of_advance h
  rcases StackState.advanceCall_cases hadvance with ⟨i, hframe, hi, rfl⟩ |
    ⟨events, result, hfinished, rfl⟩ |
    ⟨i, g, callback, result, g', events, frame, hg, hvisit, rfl⟩
  · have hcalls := hset (.returned (.ok ())) hc
    have hsessions : ((s.stack.addSession call).moveTo c call
        (.returned (.ok ()))).sessions.length - s.stack.sessions.length = 1 := by
      simp [StackState.moveTo, StackState.addSession]
    rw [hsessions, List.replicate_one, Table.tally_append_singleton]
    rw [hframe] at hcalls
    simp only [StackFrame.work, Custody.work] at hcalls ⊢
    change _ + Table.tally _ (s.stack.calls.set c _) < _
    omega
  · have hcalls := hset (.returned result) hc
    have hpos := hfinished.work_pos
    have hsessions : ((s.stack.emit events).moveTo c call (.returned result)).sessions.length -
        s.stack.sessions.length = 0 := Nat.sub_self _
    rw [hsessions, List.replicate_zero, List.append_nil]
    change _ + Table.tally _ (s.stack.calls.set c _) < _
    simp only [StackFrame.work] at hcalls hpos ⊢
    omega
  · have hcalls := hset frame hc
    have hlt := hvisit.work_lt (List.getElem?_eq_some_iff.mp hg).1
    have hsessions : (s.stack.visited c call i g' callback result events frame).sessions.length -
        s.stack.sessions.length = 0 := Nat.sub_self _
    rw [hsessions, List.replicate_zero, List.append_nil]
    change _ + Table.tally _ (s.stack.calls.set c _) < _
    omega

/-- **A step that winds down leaves less to do.** -/
theorem work_lt (h : s.next flavor a = some s') (ha : a.windsDown = true) : s'.work < s.work := by
  by_cases hadvance : ∃ c now, a = .advance c now
  · obtain ⟨c, now, rfl⟩ := hadvance
    obtain ⟨stack, hstack, rfl⟩ := Option.map_eq_some_iff.mp h
    exact work_withStack_lt hstack
  · have haccept : ∀ peer localAddr tls now, a ≠ .accept peer localAddr tls now := by
      rintro _ _ _ _ rfl
      cases ha
    obtain ⟨k, old, action, new, hold, hover, hdone⟩ :=
      exists_handover h haccept fun c now heq => hadvance ⟨c, now, heq⟩
    obtain ⟨hwork, hcalls⟩ := hover.work_lt (n := s.stack.guards.length) ha
    have hset := Table.tally_set (Custody.work s.stack.guards.length) hold new
    unfold work
    cases action with
    | none =>
      obtain rfl := hdone
      show Table.tally (Custody.work s.stack.guards.length) (s.custody.set k new) +
        Table.tally (fun call => call.frame.work s.stack.guards.length) s.stack.calls < _
      simp only [Option.isSome_none, Bool.false_eq_true, if_false] at hwork
      omega
    | some action =>
      obtain ⟨stack, hstack, rfl⟩ := hdone
      obtain ⟨call, hbegins, hcall⟩ := hcalls action rfl
      obtain ⟨slot, hslot, rfl⟩ := next_of_begins hbegins hstack
      have hfirst := first_work_le (n := s.stack.guards.length) hcall slot
      show Table.tally (Custody.work s.stack.guards.length) (s.custody.set k new) +
        Table.tally (fun call => call.frame.work s.stack.guards.length) (s.stack.calls ++ [_]) < _
      rw [Table.tally_append_singleton]
      simp only [Option.isSome_some, if_true] at hwork
      dsimp only
      omega

/-- Next to an idle stack, a call can begin on a session that is kept. -/
theorem Housed.exists_next (h : s.Housed) (hidle : s.stack.Idle) {k : ℕ} {custody : Custody}
    (hk : s.custody[k]? = some custody) (hkeeps : custody.keepsSession = true)
    {action : StackAction BuiltinGuard} (haction : action = .markEstablished k ∨ action = .drop k) :
    ∃ stack, s.stack.next action = some stack := by
  have hrel := Table.forall₂_getElem? h.rows k
  rw [hk] at hrel
  obtain ⟨slot, hslot, hrow⟩ :
      ∃ slot, s.stack.sessions[k]? = some slot ∧ HousedRow custody slot := by
    cases hs : s.stack.sessions[k]? with
    | none =>
      rw [hs] at hrel
      cases hrel
    | some slot =>
      rw [hs] at hrel
      cases hrel with
      | some hrow => exact ⟨slot, rfl, hrow⟩
  have hdropped : slot.dropped = false := by
    rw [hrow.dropped, hkeeps]
    rfl
  have hon : ∀ f, ∃ stack, s.stack.beginOn k f = some stack := by
    intro f
    unfold StackState.beginOn
    rw [hslot]
    exact ⟨_, if_neg (by simp [hdropped])⟩
  rcases haction with rfl | rfl
  · exact hon _
  · -- no call has borrowed the session
    have hfree : s.stack.calls.any (StackCall.borrows k) = false := by
      rw [List.any_eq_false]
      intro call hcall
      simp [StackCall.borrows, hidle call hcall]
    rw [StackState.next, hfree]
    exact hon _

/-- **Unless the server is drained, some step winds it down**: a call that is in progress goes on,
and if none is, the connection that is left is established, handled or given up. -/
theorem Housed.exists_windsDown (h : s.Housed) (hleft : ¬s.Drained) :
    ∃ a s', a.windsDown = true ∧ s.next flavor a = some s' := by
  have hhandOver : ∀ {k custody new action}, s.stack.Idle → s.custody[k]? = some custody →
      custody.keepsSession = true → action = .markEstablished k ∨ action = .drop k →
      ∃ s', s.handOver k new action = some s' := by
    intro k custody new action hidle hk hkeeps haction
    obtain ⟨stack, hstack⟩ := h.exists_next hidle hk hkeeps haction
    exact ⟨_, by rw [handOver, hstack]⟩
  by_cases hidle : s.stack.Idle
  · have hcustody : ∃ custody ∈ s.custody, custody ≠ .finished := by
      by_contra hall
      push Not at hall
      exact hleft ⟨hall, hidle⟩
    obtain ⟨custody, hmem, hne⟩ := hcustody
    obtain ⟨k, hk⟩ := List.mem_iff_getElem?.mp hmem
    cases custody with
    | opening =>
      obtain ⟨s', hs'⟩ :=
        @hhandOver k _ (.establishing s.stack.calls.length) _ hidle hk rfl (.inl rfl)
      exact ⟨.opened k, s', rfl, by rw [next, hk]; exact hs'⟩
    | establishing c =>
      have hc := h.establishing _ hmem c rfl
      have hreturned := hidle s.stack.calls[c] (List.getElem_mem hc)
      unfold StackCall.isReturned at hreturned
      refine ⟨.established k, ?_⟩
      rw [next, hk]
      dsimp only
      rw [List.getElem?_eq_getElem hc, Option.map_some]
      cases hframe : s.stack.calls[c].frame with
      | returned result =>
        cases result with
        | ok _ => exact ⟨_, rfl, rfl⟩
        | error err =>
          obtain ⟨s', hs'⟩ := @hhandOver k _ .finished _ hidle hk rfl (.inr rfl)
          exact ⟨s', rfl, hs'⟩
      | _ =>
        rw [hframe] at hreturned
        cases hreturned
    | handling connection streams =>
      refine ⟨.complete k, ?_⟩
      rw [next, hk]
      cases connection with
      | true =>
        obtain ⟨s', hs'⟩ := @hhandOver k _ .finished _ hidle hk rfl (.inr rfl)
        exact ⟨s', rfl, hs'⟩
      | false => exact ⟨_, rfl, rfl⟩
    | finished => exact absurd rfl hne
  · have hcall : ∃ call ∈ s.stack.calls, call.isReturned = false := by
      by_contra hall
      push Not at hall
      exact hidle fun call hmem => Bool.not_eq_false _ ▸ hall call hmem
    obtain ⟨call, hmem, hrunning⟩ := hcall
    obtain ⟨c, hc⟩ := List.mem_iff_getElem?.mp hmem
    obtain ⟨stack, hstack⟩ := StackState.exists_advance h.rollsBack hc hrunning 0
    exact ⟨.advance c 0, s.withStack stack, rfl, Option.map_eq_some_iff.mpr ⟨stack, hstack, rfl⟩⟩

/-- In a drained state nothing is kept. -/
theorem Drained.kept_eq_zero (h : s.Drained) (P : GuardContext → Bool) : s.kept P = 0 := by
  refine List.countP_eq_zero.mpr fun x hx => ?_
  rw [isKept, h.1 x.1 (List.of_mem_zip hx).1]
  simp [Custody.keepsSession]

/-- The runs of a server that only winds down. -/
def windingSystem (flavor : ServerFlavor) (config : GuardStackConfig) (start : Instant) :
    Transition.System ServerState ServerAction :=
  (serverSystem flavor config start).restrict fun _ a _ => a.windsDown = true

/-- **A server that winds down ends, and ends drained.** From every reachable state, whatever its
handlers and clients have done, no sequence of steps that wind down is longer than the work that
was left. It can stop only when the server is drained, and some sequence gets there. Then every
guard has received a close for each reservation it accepted, and a throttle holds no slot.

**Proof sketch.** Each such step lowers the work that is left, and unless the server is drained
there is one. In a drained state no connection is kept. -/
theorem drained_of_run (h : (serverSystem flavor config start).Reach s) :
    (∃ tr s', (windingSystem flavor config start).Run s tr s' ∧ s'.Drained) ∧
    ∀ tr s', (windingSystem flavor config start).Run s tr s' →
      tr.length ≤ s.work ∧
      ((∀ a, a.windsDown = true → s'.next flavor a = none) →
        s'.Drained ∧
        (∀ P j, j < s'.stack.guards.length → s'.stack.accepted P j = s'.stack.closes P j) ∧
        ∀ g, .throttle g ∈ s'.stack.guards → g.global = 0 ∧ ∀ ip, g.heldBy ip = 0) := by
  have hlower : ∀ s a s', (windingSystem flavor config start).step s a s' → s'.work < s.work :=
    fun s a s' hst => work_lt hst.1 hst.2
  constructor
  · obtain ⟨tr, s', hrun, -, hend⟩ := Transition.System.exists_run_of_measure
      (M := windingSystem flavor config start) (μ := work) (I := Housed) (D := Drained)
      (fun s hI hleft => by
        obtain ⟨a, s', ha, hnext⟩ := hI.exists_windsDown hleft
        exact ⟨a, s', ⟨hnext, ha⟩, hI.step hnext, work_lt hnext ha⟩)
      (housed_of_reach h)
    exact ⟨tr, s', hrun, hend⟩
  · intro tr s' hrun
    have hlength := Transition.System.Run.length_add_le hlower hrun
    refine ⟨by omega, fun hstuck => ?_⟩
    have hreach := hrun.of_restrict.reach h
    have hdrained : s'.Drained := by
      by_contra hleft
      obtain ⟨a, s'', ha, hnext⟩ :=
        (housed_of_reach hreach).exists_windsDown hleft
      rw [hstuck a ha] at hnext
      cases hnext
    refine ⟨hdrained, fun P j hj => ?_, fun g hg => ?_⟩
    · rw [books_of_idle hreach hdrained.2 P hj, hdrained.kept_eq_zero, Nat.add_zero]
    · obtain ⟨hglobal, hperIp⟩ := slots_of_idle hreach hdrained.2 hg
      exact ⟨hglobal.trans (hdrained.kept_eq_zero _), fun ip =>
        (hperIp ip).trans (hdrained.kept_eq_zero _)⟩

/-- From the two handlers above, at most six steps wind the server down. -/
theorem drained_of_run_takenRun :
    let s := singleState .async
      (connectRun 1001 0 0 ++ [.intoStream 0, .advance 2 0, .advance 2 0] ++ connectRun 1002 3 1)
    s.work = 6 ∧ ∃ tr s', (windingSystem .async singleConfig 0).Run s tr s' ∧ s'.Drained := by
  have hreach : (serverSystem .async singleConfig 0).Reach (singleState .async
      (connectRun 1001 0 0 ++ [.intoStream 0, .advance 2 0, .advance 2 0] ++
        connectRun 1002 3 1)) :=
    Transition.System.reach_after (.init rfl) fun _ _ _ _ hnext => hnext
  exact ⟨by decide +kernel, (drained_of_run hreach).1⟩

end ServerState

end Synclaire
