import Mathlib.Data.Multiset.AddSub
import Synclaire.Guard.StackLedger
import Synclaire.Guard.StackOwners

set_option relaxedAutoImplicit false
set_option autoImplicit false

/-!
# The reservations a guard still has

A reservation that a guard accepted and that was not closed yet is *live* at the guard. In runs
whose sessions are closed by their drop alone, a guard is asked about live reservations only: a
drop waits for the calls that are under way. So what a guard keeps about a connection can be
compared with its live reservations, one callback at a time.

## Main definitions

* `Synclaire.StackState.live` — the contexts of the live reservations of a guard.
* `Synclaire.StackState.Attended` — a call that shows a session to the guards shows an open one.
* `Synclaire.StackAction.Serves` — an action closes no session other than by its drop.
* `Synclaire.StackState.LiveKept` — what callbacks keep of a guard and its live reservations.

## Main results

* `Synclaire.StackState.countP_live` — the live reservations are those accepted minus the closes.
* `Synclaire.StackState.Attended.next` — what every step keeps, unless it closes a session that
  is not dropped.
* `Synclaire.StackState.LiveKept.of_reach` — the invariant rule for the guards and their live
  reservations.
-/

namespace Synclaire

/-- The call shows its session to the guards. -/
def StackFrame.inspects : StackFrame → Bool
  | .established _ => true
  | .payload _ _ _ => true
  | .activity _ => true
  | _ => false

/-- The action closes no session other than by its drop, and reserves for contexts of the kind `K`
only. -/
def StackAction.Serves {G : Type*} (K : GuardContext → Prop) (a : StackAction G) : Prop :=
  (∀ k, a ≠ .close k) ∧ ∀ ctx, a = .reserve ctx → K ctx

/-- No call changes the context of a session. -/
theorem SessionCall.first_context (call : SessionCall) (slot : SessionSlot) :
    (call.first slot).1.session.context = slot.session.context := by
  have hfirst := call.begins_first slot
  generalize (call.first slot).1 = slot' at hfirst
  generalize (call.first slot).2 = frame at hfirst
  cases hfirst with
  | returns _ => rw [SessionCall.leaves_session]
  | _ => rfl

namespace StackState

variable {G : Type*}

/-! ## The live reservations of a guard -/

/-- The contexts of the reservations that guard `j` accepted. -/
def acceptedContexts (s : StackState G) (j : ℕ) : Multiset GuardContext :=
  (s.log.filter (isAccepted (fun _ => true) j)).map CallbackRecord.context

/-- The contexts guard `j` was closed for. -/
def closedContexts (s : StackState G) (j : ℕ) : Multiset GuardContext :=
  (s.log.filter (isClose (fun _ => true) j)).map CallbackRecord.context

/-- The contexts of the reservations that guard `j` accepted and that were not closed yet. -/
def live (s : StackState G) (j : ℕ) : Multiset GuardContext :=
  s.acceptedContexts j - s.closedContexts j

/-- The contexts in `P` among those of some records. -/
theorem countP_contexts (log : List CallbackRecord) (P : GuardContext → Bool)
    (p : CallbackRecord → Bool) :
    Multiset.countP (fun ctx => P ctx = true)
        (((log.filter p).map CallbackRecord.context : List GuardContext) : Multiset GuardContext) =
      log.countP fun r => P r.context && p r := by
  rw [Multiset.coe_countP, List.countP_map, List.countP_filter]
  exact List.countP_congr fun r _ => by simp

/-- The contexts of a kind that a guard accepted are its acceptances of that kind. -/
theorem countP_acceptedContexts (s : StackState G) (P : GuardContext → Bool) (j : ℕ) :
    (s.acceptedContexts j).countP (fun ctx => P ctx = true) = s.accepted P j :=
  countP_contexts s.log P (isAccepted (fun _ => true) j)

/-- The contexts of a kind that a guard closed are its closes of that kind. -/
theorem countP_closedContexts (s : StackState G) (P : GuardContext → Bool) (j : ℕ) :
    (s.closedContexts j).countP (fun ctx => P ctx = true) = s.closes P j :=
  countP_contexts s.log P (isClose (fun _ => true) j)

/-- How often a context occurs, as a number of contexts of a kind. -/
theorem count_eq_countP_ofContext (L : Multiset GuardContext) (ctx : GuardContext) :
    L.count ctx = L.countP (fun c => decide (c = ctx) = true) := by
  exact Multiset.countP_congr rfl fun c _ => by simp [eq_comm]

/-- No context was closed for more often than it was accepted. -/
theorem closedContexts_le {s : StackState G} (hs : s.Balanced) {j : ℕ}
    (hj : j < s.guards.length) : s.closedContexts j ≤ s.acceptedContexts j := by
  refine Multiset.le_iff_count.mpr fun ctx => ?_
  have hbal := hs (fun c => c = ctx) j hj
  rw [count_eq_countP_ofContext, count_eq_countP_ofContext,
    countP_closedContexts s (fun c => c = ctx), countP_acceptedContexts s (fun c => c = ctx)]
  omega

/-- **The live reservations are those accepted minus the closes**: they belong to the open
sessions and to the calls that owe the guard a close. -/
theorem countP_live {s : StackState G} (hs : s.Balanced) {j : ℕ} (hj : j < s.guards.length)
    (P : GuardContext → Bool) :
    (s.live j).countP (fun ctx => P ctx = true) = s.openSessions P + s.owing P j := by
  have hbal := hs P j hj
  rw [live, Multiset.countP_sub (closedContexts_le hs hj), countP_acceptedContexts,
    countP_closedContexts]
  omega

/-- What is live after one more callback with this result. -/
def liveAfter (L : Multiset GuardContext) (ctx : GuardContext) :
    Callback → Except SynError Unit → Multiset GuardContext
  | .reserve, .ok _ => ctx ::ₘ L
  | .close, _ => L.erase ctx
  | _, _ => L

/-- **One more callback changes what is live** at its guard. -/
theorem live_of_log {s s' : StackState G} (hs : s.Balanced) {r : CallbackRecord}
    (hr : r.guard < s.guards.length) (hlog : s'.log = s.log ++ [r]) (j : ℕ) :
    s'.live j = if r.guard = j then liveAfter (s.live j) r.context r.callback r.result
      else s.live j := by
  have haccepted : s'.acceptedContexts j = s.acceptedContexts j +
      if isAccepted (fun _ => true) j r then {r.context} else 0 := by
    rw [acceptedContexts, hlog, List.filter_append, List.map_append, ← Multiset.coe_add]
    cases h : isAccepted (fun _ => true) j r <;> simp [acceptedContexts, h]
  have hclosed : s'.closedContexts j = s.closedContexts j +
      if isClose (fun _ => true) j r then {r.context} else 0 := by
    rw [closedContexts, hlog, List.filter_append, List.map_append, ← Multiset.coe_add]
    cases h : isClose (fun _ => true) j r <;> simp [closedContexts, h]
  rw [live, haccepted, hclosed]
  by_cases hj : r.guard = j
  · subst hj
    have hle := closedContexts_le hs hr
    rw [if_pos rfl]
    obtain ⟨i, owner, ctx, callback, result⟩ := r
    cases callback with
    | reserve =>
      cases result with
      | ok _ =>
        have hcons := Multiset.cons_sub_of_le ctx hle
        rw [← Multiset.singleton_add, add_comm] at hcons
        simpa [isAccepted, isClose, liveAfter, live] using hcons
      | error err => simp [isAccepted, isClose, liveAfter, live]
    | close =>
      simp only [liveAfter, live]
      rw [← Multiset.sub_singleton, ← Multiset.sub_add_eq_sub_sub]
      simp [isAccepted, isClose]
    | _ => simp [isAccepted, isClose, liveAfter, live]
  · simp [isAccepted, isClose, hj, live]

/-- A context of an open session is live at every guard. -/
theorem mem_live_of_isOpen {s : StackState G} (hs : s.Balanced) {j : ℕ}
    (hj : j < s.guards.length) {slot : SessionSlot} (hslot : slot ∈ s.sessions)
    (hguarded : slot.session.allowed = false) (hopen : slot.session.closed = false) :
    slot.session.context ∈ s.live j := by
  have hpos : 0 < s.openSessions (fun c => c = slot.session.context) :=
    List.countP_pos_iff.mpr ⟨slot, hslot, by simp [isOpen, hguarded, hopen]⟩
  have hlive := countP_live hs hj fun c => c = slot.session.context
  rw [← Multiset.count_pos, count_eq_countP_ofContext]
  omega

/-- A context of a call that owes a guard a close is live at the guard. -/
theorem mem_live_of_owes {s : StackState G} (hs : s.Balanced) {j : ℕ}
    (hj : j < s.guards.length) {call : StackCall} (hcall : call ∈ s.calls)
    (howes : call.frame.owes j = true) : call.context ∈ s.live j := by
  have hpos : 0 < s.owing (fun c => c = call.context) j :=
    List.countP_pos_iff.mpr ⟨call, hcall, by simp [isOwing, howes]⟩
  have hlive := countP_live hs hj fun c => c = call.context
  rw [← Multiset.count_pos, count_eq_countP_ofContext]
  omega

/-! ## Calls show open sessions -/

/-- The call is on a guarded session that is open. -/
def OnOpen (sessions : List SessionSlot) (call : StackCall) : Prop :=
  ∃ k slot, call.session = some k ∧ sessions[k]? = some slot ∧
    slot.session.context = call.context ∧ slot.session.allowed = false ∧
    slot.session.closed = false

/-- A call that shows a session to the guards shows an open one, and a closed session was
dropped. -/
structure Attended (s : StackState G) : Prop where
  shown : ∀ call ∈ s.calls, call.frame.inspects = true → OnOpen s.sessions call
  dropped : ∀ slot ∈ s.sessions, slot.session.closed = true → slot.dropped = true

/-- A new session leaves the others open. -/
theorem OnOpen.append {sessions : List SessionSlot} {call : StackCall} (h : OnOpen sessions call)
    (slot : SessionSlot) : OnOpen (sessions ++ [slot]) call := by
  obtain ⟨k, slot', hsession, hslot, hrest⟩ := h
  exact ⟨k, slot', hsession, Table.getElem?_append_singleton.mpr (.inl hslot), hrest⟩

variable [Guard G]

/-- A call goes on to show a session only if it did before. -/
theorem Visit.inspects {g g' : G} {ctx : GuardContext} {now : Instant} {i : ℕ}
    {frame frame' : StackFrame} {callback : Callback} {result : Except SynError Unit}
    {events : List GuardEvent} (h : Visit g ctx now i frame callback result g' events frame')
    (hnew : frame'.inspects = true) : frame.inspects = true := by
  cases h <;> first | rfl | cases hnew

omit [Guard G] in
/-- A call that shows a session to the guards has not returned. -/
theorem running_of_inspects {call : StackCall} (h : call.frame.inspects = true) :
    call.isReturned = false := by
  unfold StackCall.isReturned
  split
  · next hframe =>
    rw [hframe] at h
    cases h
  · rfl

/-- A session is dropped when no call is on it. -/
theorem not_borrows_of_drop {s s' : StackState G} {k : ℕ} (h : s.next (.drop k) = some s')
    {call : StackCall} (hcall : call ∈ s.calls) : call.borrows k = false := by
  rw [StackState.next] at h
  split_ifs at h with hborrowed
  simp only [List.any_eq_true, not_exists, not_and, Bool.not_eq_true] at hborrowed
  exact hborrowed call hcall

/-- A call that begins shows an open session, and takes away none that is shown.

**Proof sketch.** Its session is not dropped, so it is open. Only a drop changes whether it is,
and a drop finds no call on its session. -/
theorem Attended.begin {s s' : StackState G} {a : StackAction G} {k : ℕ} {call : SessionCall}
    {slot : SessionSlot} (hs : s.Attended) (hnext : s.next a = some s')
    (hbegins : a.begins = some (k, call)) (hclose : call ≠ .close)
    (hslot : s.sessions[k]? = some slot) (hdropped : slot.dropped = false) :
    Attended { s with
      sessions := s.sessions.set k (call.first slot).1
      calls := s.calls ++ [⟨slot.owner, some k, slot.session.context, (call.first slot).2⟩] } := by
  have hopen : slot.session.closed = false := by
    by_contra hclosed
    have := hs.dropped slot (List.mem_of_getElem? hslot) (by simpa using hclosed)
    rw [hdropped] at this
    cases this
  have hfree : call = .drop → ∀ c ∈ s.calls, c.borrows k = false := by
    rintro rfl c hc
    cases a with
    | drop _ =>
      cases hbegins
      exact not_borrows_of_drop hnext hc
    | _ => cases hbegins
  have hfirst := call.begins_first slot
  generalize (call.first slot).1 = slot' at hfirst
  generalize (call.first slot).2 = frame at hfirst
  have hflags : slot'.session.context = slot.session.context ∧
      slot'.session.allowed = slot.session.allowed ∧
      (slot'.session.closed = true → call = .drop ∧ slot'.dropped = true) := by
    cases hfirst with
    | returns _ => simp [SessionCall.leaves_session, hopen]
    | closes hcall _ _ =>
      obtain rfl := hcall.resolve_left hclose
      simp [SessionCall.leaves]
    | _ => simp [hopen]
  obtain ⟨hcontext, hallowed, hclosed⟩ := hflags
  constructor
  · intro call' hcall' hinspects
    rcases List.mem_append.mp hcall' with hold | hcall'
    · obtain ⟨i, slot'', hsession, hslot'', hctx, hguarded, hopen''⟩ :=
        hs.shown call' hold hinspects
      by_cases hi : i = k
      · obtain rfl := hi
        obtain rfl := Option.some.inj (hslot.symm.trans hslot'')
        refine ⟨i, slot', hsession, (Table.getElem?_set_eq_some hslot).mpr (.inl ⟨rfl, rfl⟩),
          hcontext.trans hctx, hallowed.trans hguarded, ?_⟩
        by_contra hnew
        -- only a drop closes the session, and it would have found this call on it
        have hborrows := hfree (hclosed (by simpa using hnew)).1 call' hold
        rw [StackCall.borrows, hsession, running_of_inspects hinspects] at hborrows
        simp at hborrows
      · exact ⟨i, slot'', hsession, (Table.getElem?_set_eq_some hslot).mpr (.inr ⟨hi, hslot''⟩),
          hctx, hguarded, hopen''⟩
    · obtain rfl := List.mem_singleton.mp hcall'
      have hnew : slot.session.allowed = false ∧ slot'.session.closed = false := by
        cases hfirst with
        | returns _ => cases hinspects
        | closes _ _ _ => cases hinspects
        | _ hguarded => exact ⟨hguarded, hopen⟩
      exact ⟨k, slot', rfl, (Table.getElem?_set_eq_some hslot).mpr (.inl ⟨rfl, rfl⟩), hcontext,
        hallowed.trans hnew.1, hnew.2⟩
  · intro slot'' hslot'' hclosed''
    rcases List.mem_or_eq_of_mem_set hslot'' with hold | rfl
    · exact hs.dropped slot'' hold hclosed''
    · exact (hclosed hclosed'').2

/-- **What every step keeps**, unless it closes a session that is not dropped. -/
theorem Attended.next {s s' : StackState G} {a : StackAction G} (hs : s.Attended)
    (hnext : s.next a = some s') (hclose : ∀ k, a ≠ .close k) : s'.Attended := by
  -- a call that moves shows its session only if it did before
  have hset : ∀ {c : ℕ} {call : StackCall} {frame : StackFrame} {sessions : List SessionSlot},
      s.calls[c]? = some call → (frame.inspects = true → call.frame.inspects = true) →
      (∀ call', OnOpen s.sessions call' → OnOpen sessions call') →
      ∀ call' ∈ s.calls.set c { call with frame }, call'.frame.inspects = true →
        OnOpen sessions call' := by
    intro c call frame sessions hc hframe hsessions call' hmem hinspects
    rcases List.mem_or_eq_of_mem_set hmem with hmem | rfl
    · exact hsessions _ (hs.shown call' hmem hinspects)
    · exact hsessions _ (hs.shown call (List.mem_of_getElem? hc) (hframe hinspects))
  have hnone : ∀ {call : StackCall} {sessions : List SessionSlot},
      call.frame.inspects = false → (∀ call', OnOpen s.sessions call' → OnOpen sessions call') →
      ∀ call' ∈ s.calls ++ [call], call'.frame.inspects = true → OnOpen sessions call' := by
    intro call sessions hframe hsessions call' hmem hinspects
    rcases List.mem_append.mp hmem with hmem | hmem
    · exact hsessions _ (hs.shown call' hmem hinspects)
    · rw [List.mem_singleton.mp hmem, hframe] at hinspects
      cases hinspects
  have hfresh : ∀ {ctx : GuardContext} {allowed : Bool} {owner : ℕ},
      ∀ slot ∈ s.sessions ++ [(⟨.fresh ctx allowed, owner, false⟩ : SessionSlot)],
        slot.session.closed = true → slot.dropped = true := by
    intro ctx allowed owner slot hmem hclosed
    rcases List.mem_append.mp hmem with hmem | hmem
    · exact hs.dropped slot hmem hclosed
    · rw [List.mem_singleton.mp hmem] at hclosed
      cases hclosed
  cases steps_of_next hnext with
  | @begin _ k call slot hbegins hslot hdropped =>
    refine hs.begin hnext hbegins ?_ hslot hdropped
    rintro rfl
    cases a with
    | close _ => exact hclose _ rfl
    | _ => cases hbegins
  | pass => exact ⟨hnone rfl fun _ h => h.append _, hfresh⟩
  | ask => exact ⟨hnone rfl fun _ h => h, hs.dropped⟩
  | @grant c i now call hc hframe hi => exact ⟨hset hc nofun fun _ h => h.append _, hfresh⟩
  | finish hc hfinished => exact ⟨hset hc nofun fun _ h => h, hs.dropped⟩
  | visit hc hg hvisit => exact ⟨hset hc hvisit.inspects fun _ h => h, hs.dropped⟩
  | other hbegins hsessions hcalls hlog =>
    exact ⟨by rw [hsessions, hcalls]; exact hs.shown, by rw [hsessions]; exact hs.dropped⟩

/-! ## Contexts -/

/-- All contexts are of one kind. -/
structure Known (K : GuardContext → Prop) (s : StackState G) : Prop where
  calls : ∀ call ∈ s.calls, K call.context
  sessions : ∀ slot ∈ s.sessions, K slot.session.context

/-- The contexts of a stack are those that were reserved for. -/
theorem Known.next {K : GuardContext → Prop} {s s' : StackState G} {a : StackAction G}
    (hs : Known K s) (hnext : s.next a = some s') (hreserve : ∀ ctx, a = .reserve ctx → K ctx) :
    Known K s' := by
  have hset : ∀ {c : ℕ} {call : StackCall} {frame : StackFrame}, s.calls[c]? = some call →
      ∀ call' ∈ s.calls.set c { call with frame }, K call'.context := by
    intro c call frame hc call' hmem
    rcases List.mem_or_eq_of_mem_set hmem with hmem | rfl
    · exact hs.calls call' hmem
    · exact hs.calls call (List.mem_of_getElem? hc)
  cases steps_of_next hnext with
  | @begin _ k call slot hbegins hslot hdropped =>
    have hctx := hs.sessions slot (List.mem_of_getElem? hslot)
    constructor
    · exact List.forall_mem_append.mpr ⟨hs.calls, by simpa using hctx⟩
    · intro slot' hmem
      rcases List.mem_or_eq_of_mem_set hmem with hmem | rfl
      · exact hs.sessions slot' hmem
      · rw [call.first_context]
        exact hctx
  | @pass ctx =>
    have hctx := hreserve ctx rfl
    exact ⟨List.forall_mem_append.mpr ⟨hs.calls, by simpa using hctx⟩,
      List.forall_mem_append.mpr ⟨hs.sessions, by simpa [GuardSession.fresh] using hctx⟩⟩
  | @ask ctx =>
    exact ⟨List.forall_mem_append.mpr ⟨hs.calls, by simpa using hreserve ctx rfl⟩, hs.sessions⟩
  | @grant c i now call hc hframe hi =>
    have hctx := hs.calls call (List.mem_of_getElem? hc)
    exact ⟨hset hc,
      List.forall_mem_append.mpr ⟨hs.sessions, by simpa [GuardSession.fresh] using hctx⟩⟩
  | finish hc hfinished => exact ⟨hset hc, hs.sessions⟩
  | visit hc hg hvisit => exact ⟨hset hc, hs.sessions⟩
  | other hbegins hsessions hcalls hlog =>
    exact ⟨by rw [hcalls]; exact hs.calls, by rw [hsessions]; exact hs.sessions⟩

/-! ## The invariant rule -/

/-- What callbacks keep of a guard and its live reservations, when a guard is asked to reserve for
contexts of the kind `K`, and about live reservations only. -/
structure LiveKept (K : GuardContext → Prop) (I : G → Multiset GuardContext → Prop) : Prop where
  onReserveOk : ∀ g L ctx now, I g L → K ctx → (Guard.onReserve g ctx now).1 = .ok () →
    I (Guard.onReserve g ctx now).2 (ctx ::ₘ L)
  onReserveError : ∀ g L ctx now err, I g L → (Guard.onReserve g ctx now).1 = .error err →
    I (Guard.onReserve g ctx now).2 L
  onEstablished : ∀ g L ctx now, I g L → ctx ∈ L → I (Guard.onEstablished g ctx now).2 L
  onPayload : ∀ g L ctx bytes now, I g L → ctx ∈ L → I (Guard.onPayload g ctx bytes now).2 L
  onActivity : ∀ g L ctx now, I g L → ctx ∈ L → I (Guard.onActivity g ctx now).2 L
  onClose : ∀ g L ctx now, I g L → ctx ∈ L → I (Guard.onClose g ctx now) (L.erase ctx)

/-- **A visit keeps what callbacks keep**, if its context is live. -/
theorem LiveKept.visit {K : GuardContext → Prop} {I : G → Multiset GuardContext → Prop}
    (hI : LiveKept K I) {g g' : G} {ctx : GuardContext} {now : Instant} {i : ℕ}
    {frame frame' : StackFrame} {callback : Callback} {result : Except SynError Unit}
    {events : List GuardEvent} (h : Visit g ctx now i frame callback result g' events frame')
    {L : Multiset GuardContext} (hg : I g L) (hctx : K ctx)
    (hlive : frame.inspects = true ∨ frame.owes i = true → ctx ∈ L) :
    I g' (liveAfter L ctx callback result) := by
  cases h with
  | reserveOk hr =>
    have hkept := hI.onReserveOk g L ctx now hg hctx (by rw [hr])
    rwa [hr] at hkept
  | reserveError hr =>
    have hkept := hI.onReserveError g L ctx now _ hg (by rw [hr])
    rwa [hr] at hkept
  | establishedOk hr | establishedError hr =>
    have hkept := hI.onEstablished g L ctx now hg (hlive (.inl rfl))
    rwa [hr] at hkept
  | payloadTouch hr | payloadTouchError hr | activityOk hr | activityError hr =>
    have hkept := hI.onActivity g L ctx now hg (hlive (.inl rfl))
    rwa [hr] at hkept
  | @payloadOk _ bytes hr =>
    have hkept := hI.onPayload g L ctx bytes now hg (hlive (.inl rfl))
    rwa [hr] at hkept
  | @payloadError _ bytes _ hr =>
    have hkept := hI.onPayload g L ctx bytes now hg (hlive (.inl rfl))
    rwa [hr] at hkept
  | rollback | close =>
    exact hI.onClose g L ctx now hg (hlive (.inr (by simp [StackFrame.owes])))

/-- **The invariant rule for guards and their live reservations**: what callbacks keep of guard
`j` and of its live reservations holds in every state that is reached without closing a session
other than by its drop.

**Proof sketch.** A visit shows an open session (`Attended`), or it closes a guard that the call
owes a close. By the ledger the context is live at the guard in both cases. -/
theorem LiveKept.of_reach {K : GuardContext → Prop} {I : G → Multiset GuardContext → Prop}
    (hI : LiveKept K I) {stack : GuardStack G} {env : G → G → Prop}
    (henv : ∀ g g' L, env g g' → I g L → I g' L) {j : ℕ} {g₀ : G}
    (h0 : stack.guards[j]? = some g₀) (hnew : I g₀ 0) {s : StackState G}
    (h : ((system stack env).restrict fun _ a _ => a.Serves K).Reach s) :
    ∀ g, s.guards[j]? = some g → I g (s.live j) := by
  have hrun := h.invariant (I := fun s : StackState G => s.Attended ∧ Known K s ∧
    ∀ g, s.guards[j]? = some g → I g (s.live j)) ?_ ?_
  · exact hrun.2.2
  · rintro _ rfl
    refine ⟨⟨by simp [start], by simp [start]⟩, ⟨by simp [start], by simp [start]⟩,
      fun g hg => ?_⟩
    obtain rfl := Option.some.inj (h0.symm.trans hg)
    exact hnew
  · rintro s a s' hr ⟨hatt, hknown, hs⟩ hstep
    obtain ⟨hnext, hallowed⟩ := hstep.1
    have hserves : a.Serves K := hstep.2
    refine ⟨hatt.next hnext hserves.1, hknown.next hnext hserves.2, fun b hb => ?_⟩
    have hbal := ledger hr.of_restrict
    rcases next_effect hnext with ⟨hguards, hlog⟩ | ⟨i, g, g', rfl, hg, hguards, hlog⟩ |
      ⟨c, call, now, i, g, callback, result, g', events, frame, hc, hg, hvisit, hguards, hlog⟩
    · rw [hguards] at hb
      simpa only [live, acceptedContexts, closedContexts, hlog] using hs b hb
    · rw [hguards] at hb
      simp only [live, acceptedContexts, closedContexts, hlog]
      rcases (Table.getElem?_set_eq_some hg).mp hb with ⟨rfl, rfl⟩ | ⟨-, hb⟩
      · exact henv g b _ (hallowed j b rfl g hg) (hs g hg)
      · exact hs b hb
    · rw [hguards] at hb
      have hi := (List.getElem?_eq_some_iff.mp hg).1
      rw [live_of_log hbal hi hlog j]
      rcases (Table.getElem?_set_eq_some hg).mp hb with ⟨rfl, rfl⟩ | ⟨hne, hb⟩
      · rw [if_pos rfl]
        have hcall := List.mem_of_getElem? hc
        refine hI.visit hvisit (hs g hg) (hknown.calls call hcall) fun hframe => ?_
        rcases hframe with hinspects | howes
        · obtain ⟨k, slot, -, hslot, hctx, hguarded, hopen⟩ := hatt.shown call hcall hinspects
          rw [← hctx]
          exact mem_live_of_isOpen hbal hi (List.mem_of_getElem? hslot) hguarded hopen
        · exact mem_live_of_owes hbal hi hcall howes
      · rw [if_neg (Ne.symm hne)]
        exact hs b hb

end StackState

end Synclaire
