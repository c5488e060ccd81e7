import Synclaire.Guard.StackLedger
import Synclaire.Guard.StackOwners

set_option relaxedAutoImplicit false
set_option autoImplicit false

/-!
# The callbacks of a session, in any run of its stack

The calls on one session are interleaved with those on every other session of the stack, with
reservations, and with changes of the guards and of the allowlist. This module finds the life of
the session (`Synclaire.Guard.SessionLife`) in such a run: every step of the machine is a step of
the life or does not touch it.

## Main definitions

* `Synclaire.StackState.OneCall` — the calls on a session come one after the other.
* `Synclaire.StackState.IsLate` — the step begins a late call on a session.
* `Synclaire.StackState.Borrowed` — the call that runs on a session.
* `Synclaire.StackState.Views` — what the machine shows of the life of a session.

## Main results

* `Synclaire.StackState.views_step` — a step of the machine, seen from one session.
* `Synclaire.StackState.exists_life` — a run that adds a session contains its life.
* `Synclaire.StackState.forall_lifecycle_iff_not_late` — after the drop of a session every guard
  has received an expected word for it iff no call on it was late.
-/

namespace Synclaire

namespace StackState

variable {G : Type*}

/-- A call on session `k` begins only when none is running on it. -/
def OneCall (k : ℕ) (s : StackState G) (a : StackAction G) (_ : StackState G) : Prop :=
  a.begins.map Prod.fst = some k → ∀ call ∈ s.calls, call.borrows k = false

instance (k : ℕ) (s s' : StackState G) (a : StackAction G) : Decidable (OneCall k s a s') :=
  inferInstanceAs (Decidable (_ → _))

/-- The state after an action that begins no second call on session `k`. -/
def nextInTurn [Guard G] (k : ℕ) (s : StackState G) (a : StackAction G) : Option (StackState G) :=
  if OneCall k s a s then s.next a else none

/-- In this state the action begins a call that reaches the guards of session `k` after its
close. -/
def IsLate (k : ℕ) (s : StackState G) (a : StackAction G) : Prop :=
  ∃ call slot, a.begins = some (k, call) ∧ s.sessions[k]? = some slot ∧ call.isLate slot = true

/-! ## The call that runs on a session -/

/-- The frame of the one call that runs on session `k`, if there is one. -/
inductive Borrowed (calls : List StackCall) (k : ℕ) : Option StackFrame → Prop
  | free (hfree : ∀ call ∈ calls, call.borrows k = false) : Borrowed calls k none
  | running {c : ℕ} {call : StackCall} (hc : calls[c]? = some call)
      (hborrows : call.borrows k = true)
      (hunique : ∀ (c' : ℕ) (call' : StackCall), calls[c']? = some call' →
        call'.borrows k = true → c' = c) : Borrowed calls k (some call.frame)

/-- A call on another session, or a reservation, does not run on session `k`. -/
theorem not_borrows {call : StackCall} {k : ℕ} (h : call.session ≠ some k) :
    call.borrows k = false := by
  unfold StackCall.borrows
  rw [decide_eq_false h, Bool.and_false]

/-- A call on session `k` that has not returned runs on it. -/
theorem borrows_of_session {call : StackCall} {k : ℕ} (h : call.session = some k)
    (hrunning : call.isReturned = false) : call.borrows k = true := by
  unfold StackCall.borrows
  rw [hrunning, decide_eq_true h]
  rfl

section Borrowed

variable {calls : List StackCall} {k : ℕ} {running : Option StackFrame}

/-- The running call is the one that runs. -/
theorem Borrowed.eq_some (h : Borrowed calls k running) {c : ℕ} {call : StackCall}
    (hc : calls[c]? = some call) (hborrows : call.borrows k = true) :
    running = some call.frame ∧ ∀ (c' : ℕ) (call' : StackCall), calls[c']? = some call' →
      call'.borrows k = true → c' = c := by
  cases h with
  | free hfree =>
    rw [hfree call (List.mem_of_getElem? hc)] at hborrows
    cases hborrows
  | @running c₁ call₁ hc₁ _ hunique =>
    obtain rfl := hunique c call hc hborrows
    rw [hc] at hc₁
    obtain rfl := Option.some.inj hc₁
    exact ⟨rfl, hunique⟩

/-- No call is running if none may. -/
theorem Borrowed.eq_none (h : Borrowed calls k running)
    (hfree : ∀ call ∈ calls, call.borrows k = false) : running = none := by
  cases h with
  | free _ => rfl
  | @running _ call hc hborrows _ =>
    rw [hfree call (List.mem_of_getElem? hc)] at hborrows
    cases hborrows

/-- A call on another session begins. -/
theorem Borrowed.append_other (h : Borrowed calls k running) {call : StackCall}
    (hother : call.session ≠ some k) : Borrowed (calls ++ [call]) k running := by
  cases h with
  | free hfree =>
    refine .free fun call' hcall' => ?_
    rcases List.mem_append.mp hcall' with hcall' | hcall'
    · exact hfree call' hcall'
    · obtain rfl := List.mem_singleton.mp hcall'
      exact not_borrows hother
  | @running c call₁ hc hborrows hunique =>
    refine .running (Table.getElem?_append_singleton.mpr (.inl hc)) hborrows
      fun c' call' hc' hborrows' => ?_
    rcases Table.getElem?_append_singleton.mp hc' with hc' | ⟨rfl, rfl⟩
    · exact hunique c' call' hc' hborrows'
    · rw [not_borrows hother] at hborrows'
      cases hborrows'

/-- A call on session `k` begins while none runs on it. -/
theorem Borrowed.append (hfree : ∀ call ∈ calls, call.borrows k = false) {call : StackCall}
    (hsession : call.session = some k) :
    Borrowed (calls ++ [call]) k call.frame.running := by
  cases hreturned : call.isReturned with
  | true =>
    have hnone : call.frame.running = none := by
      unfold StackCall.isReturned at hreturned
      split at hreturned
      · next hframe => rw [hframe]; rfl
      · cases hreturned
    rw [hnone]
    refine .free fun call' hcall' => ?_
    rcases List.mem_append.mp hcall' with hcall' | hcall'
    · exact hfree call' hcall'
    · obtain rfl := List.mem_singleton.mp hcall'
      unfold StackCall.borrows
      rw [hreturned]
      rfl
  | false =>
    have hsome : call.frame.running = some call.frame := by
      unfold StackCall.isReturned at hreturned
      unfold StackFrame.running
      split
      · next hframe => rw [hframe] at hreturned; cases hreturned
      · rfl
    rw [hsome]
    refine .running (Table.getElem?_append_singleton.mpr (.inr ⟨rfl, rfl⟩))
      (borrows_of_session hsession hreturned) fun c' call' hc' hborrows' => ?_
    rcases Table.getElem?_append_singleton.mp hc' with hc' | ⟨rfl, rfl⟩
    · rw [hfree call' (List.mem_of_getElem? hc')] at hborrows'
      cases hborrows'
    · rfl

/-- A call on another session moves on. -/
theorem Borrowed.set_other (h : Borrowed calls k running) {c : ℕ} {call : StackCall}
    (hc : calls[c]? = some call) (hother : call.session ≠ some k) (frame : StackFrame) :
    Borrowed (calls.set c { call with frame }) k running := by
  have hnew : StackCall.borrows k { call with frame } = false := not_borrows hother
  cases h with
  | free hfree =>
    refine .free fun call' hcall' => ?_
    obtain ⟨c', hc'⟩ := List.mem_iff_getElem?.mp hcall'
    rcases (Table.getElem?_set_eq_some hc).mp hc' with ⟨rfl, rfl⟩ | ⟨-, hc'⟩
    · exact hnew
    · exact hfree call' (List.mem_of_getElem? hc')
  | @running c₁ call₁ hc₁ hborrows hunique =>
    have hne : c₁ ≠ c := by
      rintro rfl
      rw [hc] at hc₁
      obtain rfl := Option.some.inj hc₁
      rw [not_borrows hother] at hborrows
      cases hborrows
    refine .running ((Table.getElem?_set_eq_some hc).mpr (.inr ⟨hne, hc₁⟩)) hborrows
      fun c' call' hc' hborrows' => ?_
    rcases (Table.getElem?_set_eq_some hc).mp hc' with ⟨rfl, rfl⟩ | ⟨-, hc'⟩
    · rw [hnew] at hborrows'
      cases hborrows'
    · exact hunique c' call' hc' hborrows'

/-- The call that runs on session `k` moves on: it still runs, in its new frame, or it has
returned and nothing runs. -/
theorem Borrowed.set (h : Borrowed calls k running) {c : ℕ} {call : StackCall}
    (hc : calls[c]? = some call) (hborrows : call.borrows k = true)
    (hsession : call.session = some k) (frame : StackFrame) :
    Borrowed (calls.set c { call with frame }) k frame.running := by
  obtain ⟨-, hunique⟩ := h.eq_some hc hborrows
  have hself : (calls.set c { call with frame })[c]? = some { call with frame } :=
    (Table.getElem?_set_eq_some hc).mpr (.inl ⟨rfl, rfl⟩)
  have honly : ∀ (c' : ℕ) (call' : StackCall), (calls.set c { call with frame })[c']? =
      some call' → call'.borrows k = true → c' = c := by
    intro c' call' hc' hborrows'
    rcases (Table.getElem?_set_eq_some hc).mp hc' with ⟨rfl, -⟩ | ⟨-, hc'⟩
    · rfl
    · exact hunique c' call' hc' hborrows'
  cases frame with
  | returned result =>
    refine .free fun call' hcall' => ?_
    obtain ⟨c', hc'⟩ := List.mem_iff_getElem?.mp hcall'
    rcases (Table.getElem?_set_eq_some hc).mp hc' with ⟨rfl, rfl⟩ | ⟨hne, hold⟩
    · rfl
    · exact Bool.eq_false_iff.mpr fun hb => hne (honly c' call' hc' hb)
  | _ => exact .running hself (borrows_of_session hsession rfl) honly

end Borrowed

/-! ## The life of a session in a run -/

/-- What the machine shows of the life of session `k`. -/
structure Views (s : StackState G) (k : ℕ) (v : SessionLife) : Prop where
  slot : s.sessions[k]? = some v.slot
  frame : Borrowed s.calls k v.frame
  word : v.word = s.word v.slot.owner

/-- A late step is late for the session it is on. -/
theorem isLate_iff {s : StackState G} {a : StackAction G} {k : ℕ} {call : SessionCall}
    {slot : SessionSlot} (hbegins : a.begins = some (k, call))
    (hslot : s.sessions[k]? = some slot) : IsLate k s a ↔ call.isLate slot = true := by
  constructor
  · rintro ⟨call', slot', hbegins', hslot', hlate⟩
    obtain ⟨-, rfl⟩ := Prod.mk.inj (Option.some.inj (hbegins.symm.trans hbegins'))
    obtain rfl := Option.some.inj (hslot.symm.trans hslot')
    exact hlate
  · exact fun hlate => ⟨call, slot, hbegins, hslot, hlate⟩

/-- A step that begins no call on session `k` is not late for it. -/
theorem not_isLate {s : StackState G} {a : StackAction G} {k : ℕ}
    (h : ∀ call, a.begins ≠ some (k, call)) : ¬ IsLate k s a := by
  rintro ⟨call, slot, hbegins, -⟩
  exact h call hbegins

/-- A reservation is no late call. -/
theorem not_isLate_reserve (s : StackState G) (k : ℕ) (ctx : GuardContext) :
    ¬ IsLate k s (.reserve ctx) :=
  not_isLate fun _ => by simp [StackAction.begins]

/-- A call that moves on is no late call. -/
theorem not_isLate_advance (s : StackState G) (k c : ℕ) (now : Instant) :
    ¬ IsLate k s (.advance c now) :=
  not_isLate fun _ => by simp [StackAction.begins]

variable [Guard G]

/-- **A step, seen from one session**: it is a step of the life of session `k`, late when the
life's step is, or it leaves the life alone.

**Proof sketch.** One case for each kind of step. A call that begins on `k` finds none running, as
the calls on `k` come one after the other. A call that moves on is a step of the life exactly if
it is on `k`: a callback of any other call is recorded for another owner, since no two sessions
share one and a reservation that still runs owns no session. -/
theorem views_step {s s' : StackState G} {a : StackAction G} {k : ℕ} {v : SessionLife}
    (hown : Owned s.calls s.owners) (hone : OneCall k s a s') (hv : Views s k v)
    (hst : Steps s a s') :
    (Views s' k v ∧ ¬ IsLate k s a) ∨
      ∃ m v', SessionLife.Steps G s.guards.length v m v' ∧ Views s' k v' ∧
        (IsLate k s a ↔ m.isLate v.slot = true) := by
  have hk : k < s.sessions.length := (List.getElem?_eq_some_iff.mp hv.slot).1
  have howner := getElem?_owners hv.slot
  cases hst with
  | @begin _ k' call slot hbegins hslot hdropped =>
    by_cases hkk : k' = k
    · subst hkk
      obtain rfl := Option.some.inj (hslot.symm.trans hv.slot)
      have hfree := hone (by rw [hbegins]; rfl)
      refine .inr ⟨.begin call, _, .begin (hv.frame.eq_none hfree) hdropped, ⟨?_, ?_, ?_⟩,
        isLate_iff hbegins hslot⟩
      · exact (Table.getElem?_set_eq_some hslot).mpr (.inl ⟨rfl, rfl⟩)
      · exact Borrowed.append hfree rfl
      · show v.word = s.word (call.first v.slot).1.owner
        rw [(call.first_allowed_owner v.slot).2]
        exact hv.word
    · refine .inl ⟨⟨?_, hv.frame.append_other ?_, hv.word⟩, not_isLate ?_⟩
      · exact (Table.getElem?_set_eq_some hslot).mpr (.inr ⟨Ne.symm hkk, hv.slot⟩)
      · exact fun h => hkk (Option.some.inj h)
      · exact fun call' h =>
          hkk (Prod.mk.inj (Option.some.inj (hbegins.symm.trans h))).1
  | pass =>
    refine .inl ⟨⟨?_, hv.frame.append_other (by simp), hv.word⟩, not_isLate_reserve _ _ _⟩
    exact Table.getElem?_append_singleton.mpr (.inl hv.slot)
  | ask =>
    exact .inl ⟨⟨hv.slot, hv.frame.append_other (by simp), hv.word⟩, not_isLate_reserve _ _ _⟩
  | @grant c i now call hc hframe hi =>
    have hother : call.session ≠ some k := by
      rw [hown.frame c call i hc hframe]
      exact (Option.some_ne_none k).symm
    refine .inl ⟨⟨?_, hv.frame.set_other hc hother _, hv.word⟩, not_isLate_advance _ _ _ _⟩
    exact Table.getElem?_append_singleton.mpr (.inl hv.slot)
  | @finish c now call events result hc hfinished =>
    by_cases hsession : call.session = some k
    · have hborrows := borrows_of_session hsession hfinished.running
      refine .inr ⟨.advance, _, .finish (hv.frame.eq_some hc hborrows).1 hfinished,
        ⟨hv.slot, hv.frame.set hc hborrows hsession _, hv.word⟩, ?_⟩
      exact iff_of_false (not_isLate_advance _ _ _ _) Bool.false_ne_true
    · exact .inl ⟨⟨hv.slot, hv.frame.set_other hc hsession _, hv.word⟩,
        not_isLate_advance _ _ _ _⟩
  | @visit c i now call g g' callback result events frame hc hg hvisit =>
    by_cases hsession : call.session = some k
    · have hborrows := borrows_of_session hsession hvisit.running
      have hi : i < s.guards.length := (List.getElem?_eq_some_iff.mp hg).1
      have hmine : call.owner = v.slot.owner := by
        rw [hown.session c call k hc hsession] at howner
        exact Option.some.inj howner
      refine .inr ⟨.advance, _, .visit (hv.frame.eq_some hc hborrows).1 hi hvisit,
        ⟨hv.slot, hv.frame.set hc hborrows hsession _, ?_⟩,
        iff_of_false (not_isLate_advance _ _ _ _) Bool.false_ne_true⟩
      funext j
      show Function.update v.word i (v.word i ++ [callback]) j = _
      rw [word_visited, hv.word]
      by_cases hij : i = j
      · subst hij
        rw [Function.update_self, if_pos ⟨hmine, rfl⟩]
        rfl
      · rw [Function.update_of_ne (Ne.symm hij), if_neg fun hboth => hij hboth.2,
          List.append_nil]
        rfl
    · have hother := hown.owner_ne hc hvisit.running howner hsession
      refine .inl ⟨⟨hv.slot, hv.frame.set_other hc hsession _, ?_⟩, not_isLate_advance _ _ _ _⟩
      funext j
      rw [word_visited, if_neg fun hboth => hother hboth.1, List.append_nil, hv.word]
  | other hbegins hsessions hcalls hlog =>
    refine .inl ⟨⟨?_, ?_, ?_⟩, not_isLate fun call h => ?_⟩
    · rw [hsessions]
      exact hv.slot
    · rw [hcalls]
      exact hv.frame
    · rw [hv.word]
      unfold word
      rw [hlog]
    · rw [hbegins] at h
      cases h

/-- **How a session is born**: a step that adds session `k` begins its life. -/
theorem born_step {s s' : StackState G} {a : StackAction G} {k : ℕ} {slot : SessionSlot}
    (hown : Owned s.calls s.owners) (hasked : Asked s) (hst : Steps s a s')
    (hlen : s.sessions.length ≤ k) (hslot : s'.sessions[k]? = some slot) :
    ∃ v, SessionLife.Born s.guards.length v ∧ Views s' k v := by
  have hnone : s.sessions[k]? = none := List.getElem?_eq_none hlen
  -- no call is on a session that does not exist
  have hfree : ∀ call ∈ s.calls, call.session ≠ some k := by
    intro call hcall hsession
    obtain ⟨c, hc⟩ := List.mem_iff_getElem?.mp hcall
    have howner := hown.session c call k hc hsession
    rw [owners, List.getElem?_map, hnone] at howner
    cases howner
  cases hst with
  | begin hbegins hslot' hdropped =>
    rw [List.getElem?_eq_none (by simpa using hlen)] at hslot
    cases hslot
  | @pass ctx =>
    rcases Table.getElem?_append_singleton.mp hslot with hold | ⟨-, rfl⟩
    · rw [hnone] at hold
      cases hold
    · refine ⟨⟨_, none, s.word s.calls.length⟩, ⟨rfl, rfl, rfl, rfl, (fun h => by cases h)⟩,
        ⟨hslot, ?_, rfl⟩⟩
      exact Borrowed.append_other (.free fun call hcall => not_borrows (hfree call hcall))
        (by simp)
  | ask =>
    rw [hnone] at hslot
    cases hslot
  | @grant c i now call hc hframe hi =>
    rcases Table.getElem?_append_singleton.mp hslot with hold | ⟨-, rfl⟩
    · rw [hnone] at hold
      cases hold
    · refine ⟨⟨_, none, s.word call.owner⟩, ⟨rfl, rfl, rfl, rfl, fun _ j hj => ?_⟩,
        ⟨hslot, ?_, rfl⟩⟩
      · show s.word call.owner j = _
        rw [hasked.asked c call i j hc hframe, if_pos (Nat.lt_of_lt_of_le hj hi)]
      · have hother := hfree call (List.mem_of_getElem? hc)
        exact Borrowed.set_other
          (.free fun call hcall => not_borrows (hfree call hcall)) hc hother _
  | finish _ _ =>
    have hold : s.sessions[k]? = some slot := hslot
    rw [hnone] at hold
    cases hold
  | visit _ _ _ =>
    have hold : s.sessions[k]? = some slot := hslot
    rw [hnone] at hold
    cases hold
  | other _ hsessions _ _ =>
    rw [hsessions, hnone] at hslot
    cases hslot

/-- **The life of a session in a run**: a run in which session `k` is added and its calls come one
after the other contains a life of the session, with a late call iff the run has one.

**Proof sketch.** Induction on the run up to the step that adds the session, and from there a
simulation by `views_step`. Nothing before that step is late, as there is no session yet. -/
theorem exists_life {stack : GuardStack G} {env : G → G → Prop} {s s' : StackState G} {k : ℕ}
    {slot : SessionSlot} {tr : List (Transition.Taken (StackState G) (StackAction G))}
    (h : ((system stack env).restrict (OneCall k)).Run s tr s')
    (hr : ((system stack env).restrict (OneCall k)).Reach s) (hlen : s.sessions.length ≤ k)
    (hslot : s'.sessions[k]? = some slot) :
    ∃ v tr' v', SessionLife.Born stack.guards.length v ∧
      (SessionLife.system G stack.guards.length).Run v tr' v' ∧ Views s' k v' ∧
      ((∃ x ∈ tr, IsLate k x.source x.label) ↔
        ∃ x ∈ tr', x.label.isLate x.source.slot = true) := by
  induction h with
  | nil =>
    rw [List.getElem?_eq_none hlen] at hslot
    cases hslot
  | @cons s s₁ s' a tr hst htail ih =>
    have hreach := hr.of_restrict
    obtain ⟨hown, hasked⟩ := owned_asked_of_reach hreach
    have hguards := length_guards_of_reach hreach
    have hhead : ¬ IsLate k s a := by
      rintro ⟨call, slot', -, hslot', -⟩
      rw [List.getElem?_eq_none hlen] at hslot'
      cases hslot'
    rcases Nat.lt_or_ge k s₁.sessions.length with hk | hk
    · obtain ⟨v, hborn, hv⟩ := born_step hown hasked (steps_of_next hst.1.1) hlen
        (List.getElem?_eq_getElem hk)
      rw [hguards] at hborn
      obtain ⟨tr', v', hrun, hv', hlate⟩ := htail.simulate
        (N := SessionLife.system G stack.guards.length) (R := fun s v => Views s k v)
        (p := IsLate k) (q := fun v m => m.isLate v.slot = true)
        (fun s a s' v hr hv hst => by
          have hreach := hr.of_restrict
          have hstep := views_step (owned_asked_of_reach hreach).1 hst.2 hv
            (steps_of_next hst.1.1)
          rw [length_guards_of_reach hreach] at hstep
          exact hstep)
        (.step hr hst) hv
      refine ⟨v, tr', v', hborn, hrun, hv', ?_⟩
      rw [List.exists_mem_cons_iff, ← hlate]
      exact or_iff_right hhead
    · obtain ⟨v, tr', v', hborn, hrun, hv', hlate⟩ := ih (.step hr hst) hk hslot
      refine ⟨v, tr', v', hborn, hrun, hv', ?_⟩
      rw [List.exists_mem_cons_iff, ← hlate]
      exact or_iff_right hhead

/-- **The callbacks of a session.** In any run of a stack, in which the calls on session `k` come
one after the other and everything else is interleaved with them, once the guarded session is
dropped and the drop has returned: every guard has received for it a reservation, then service
with at most one establishment, then one close and nothing more, if and only if the stack has no
guards or no call reached the guards after the close. Only the late calls break the order: a
`record_payload` or a `touch` of a closed session, or its first `mark_established`. -/
theorem forall_lifecycle_iff_not_late {stack : GuardStack G} {env : G → G → Prop}
    {s : StackState G} {k : ℕ} {slot : SessionSlot}
    {tr : List (Transition.Taken (StackState G) (StackAction G))}
    (h : ((system stack env).restrict (OneCall k)).Run (start stack) tr s)
    (hslot : s.sessions[k]? = some slot) (hguarded : slot.session.allowed = false)
    (hdropped : slot.dropped = true) (hidle : ∀ call ∈ s.calls, call.borrows k = false) :
    (∀ j < stack.guards.length, Lifecycle (s.word slot.owner j)) ↔
      stack.guards = [] ∨ ∀ x ∈ tr, ¬ IsLate k x.source x.label := by
  obtain ⟨v, tr', v', hborn, hrun, hv', hlate⟩ :=
    exists_life h (.init rfl) (Nat.zero_le k) hslot
  obtain rfl := Option.some.inj (hv'.slot.symm.trans hslot)
  have hguarded₀ := (SessionLife.allowed_of_run hrun).symm.trans hguarded
  rw [← hv'.word, SessionLife.forall_lifecycle_iff hrun hborn hguarded₀ hdropped
    (hv'.frame.eq_none hidle), List.length_eq_zero_iff]
  refine or_congr_right ?_
  have hnone : (∀ x ∈ tr, ¬ IsLate k x.source x.label) ↔
      ¬ ∃ x ∈ tr, IsLate k x.source x.label := by simp
  rw [hnone, hlate]
  simp

/-- Actions in turn are steps in turn. -/
theorem step_of_nextInTurn {stack : GuardStack G} {k : ℕ} {s s' : StackState G}
    {a : StackAction G} (h : nextInTurn k s a = some s') :
    ((system stack fun _ _ => True).restrict (OneCall k)).step s a s' := by
  unfold nextInTurn at h
  split_ifs at h with hone
  exact ⟨⟨h, fun _ _ _ _ _ => trivial⟩, hone⟩

/-- A session of two throttles is touched once and dropped. -/
def touchedRun : List (StackAction Throttle) :=
  [.reserve (localContext 1001), .advance 0 0, .advance 0 0, .advance 0 0, .touch 0,
    .advance 1 0, .advance 1 0, .advance 1 0, .drop 0, .advance 2 0, .advance 2 0, .advance 2 0]

/-- Both throttles saw the reservation, the activity and the close, as no call was late. -/
theorem lifecycle_touchedRun :
    (∀ j < twoThrottles.guards.length, Lifecycle ((Transition.System.follow (nextInTurn 0)
      (start twoThrottles) touchedRun).2.word 0 j)) ↔
      twoThrottles.guards = [] ∨ ∀ x ∈ (Transition.System.follow (nextInTurn 0)
        (start twoThrottles) touchedRun).1, ¬ IsLate 0 x.source x.label := by
  have hrun := Transition.System.run_follow
    (M := (system twoThrottles fun _ _ => True).restrict (OneCall 0))
    (fun _ _ _ => step_of_nextInTurn) touchedRun (start twoThrottles)
  have hslot : (Transition.System.follow (nextInTurn 0) (start twoThrottles)
      touchedRun).2.sessions[0]? =
      some ⟨⟨localContext 1001, true, false, false⟩, 0, true⟩ := by decide +kernel
  exact forall_lifecycle_iff_not_late hrun hslot rfl rfl (by decide +kernel)

/-- The session is closed, touched, and dropped. -/
def lateRun : List (StackAction Throttle) :=
  [.reserve (localContext 1001), .advance 0 0, .advance 0 0, .advance 0 0, .close 0,
    .advance 1 0, .advance 1 0, .advance 1 0, .touch 0, .advance 2 0, .advance 2 0,
    .advance 2 0, .drop 0]

/-- **A callback after the close**: a touch of a closed session still reaches its guards. -/
theorem not_forall_lifecycle :
    ¬ ∀ (stack : GuardStack Throttle) (env : Throttle → Throttle → Prop)
      (s : StackState Throttle) (k : ℕ) (slot : SessionSlot)
      (tr : List (Transition.Taken (StackState Throttle) (StackAction Throttle))),
      ((system stack env).restrict (OneCall k)).Run (start stack) tr s →
        s.sessions[k]? = some slot → slot.session.allowed = false → slot.dropped = true →
        (∀ call ∈ s.calls, call.borrows k = false) →
        ∀ j < stack.guards.length, Lifecycle (s.word slot.owner j) := by
  intro hall
  have hrun := Transition.System.run_follow
    (M := (system twoThrottles fun _ _ => True).restrict (OneCall 0))
    (fun _ _ _ => step_of_nextInTurn) lateRun (start twoThrottles)
  have hword := hall _ _ _ _ ⟨⟨localContext 1001, true, false, false⟩, 0, true⟩ _ hrun
    (by decide +kernel) rfl rfl (by decide +kernel) 0 (by decide)
  have hclosed := mem_accepts_lifecycle_iff.mpr hword
  have hbroken : lifecycle.eval ((Transition.System.follow (nextInTurn 0)
      (start twoThrottles) lateRun).2.word 0 0) = .broken := by decide +kernel
  rw [DFA.mem_accepts, hbroken] at hclosed
  cases hclosed

end StackState

end Synclaire
