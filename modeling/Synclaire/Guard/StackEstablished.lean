import Synclaire.Guard.StackLedger
import Synclaire.Guard.StackOwners

set_option relaxedAutoImplicit false
set_option autoImplicit false

/-!
# What an established session has been told

`mark_established` sets the flag of its session before it asks the guards, and does not take it
back when one of them refuses. A later call finds the flag and asks nobody. The calls on one session
may come in any order, also while an earlier one is asking, and everything else on the stack is
interleaved with them.

## Main definitions

* `Synclaire.StackState.answers` — the answers of the guards to the establishment of a session.
* `Synclaire.StackState.Progress` — how far the establishment of a session has come.
* `Synclaire.StackState.MarkedOk` — a call of `mark_established` returns `Ok`.
* `Synclaire.StackState.Confirmed` — every guard has returned `Ok` for the session.
* `Synclaire.StackState.Settled` — no guard has refused, and no call is still asking.

## Main results

* `Synclaire.StackState.establishing_of_reach` — the progress of every session.
* `Synclaire.StackState.confirmed_iff` — when every `Ok` is that of all guards.
-/

namespace Synclaire

namespace StackState

open Transition

/-! ## Answers and askers -/

/-- The answers to the establishment of the session of `o`: the guards and what they returned. -/
def answers (log : List CallbackRecord) (o : ℕ) : List (ℕ × Except SynError Unit) :=
  (log.filter fun r => r.owner = o && r.callback = .established).map fun r => (r.guard, r.result)

/-- The first `i` guards returned `Ok`. -/
def confirmations (i : ℕ) : List (ℕ × Except SynError Unit) :=
  (List.range i).map fun j => (j, .ok ())

/-- Call `c` belongs to `o` and asks guard `i` next whether the session is established. -/
def Asks (calls : List StackCall) (o c i : ℕ) : Prop :=
  ∃ call, calls[c]? = some call ∧ call.owner = o ∧ call.frame = .established i

/-- One more guard. -/
theorem confirmations_succ (i : ℕ) : confirmations (i + 1) = confirmations i ++ [(i, .ok ())] := by
  unfold confirmations
  rw [List.range_succ, List.map_append]
  rfl

/-- Guard `j` is among the first `i`. -/
theorem mem_confirmations {i j : ℕ} {result : Except SynError Unit} :
    (j, result) ∈ confirmations i ↔ j < i ∧ result = .ok () := by
  unfold confirmations
  constructor
  · intro h
    obtain ⟨j', hj', heq⟩ := List.mem_map.mp h
    obtain ⟨rfl, rfl⟩ := Prod.mk.inj heq
    exact ⟨List.mem_range.mp hj', rfl⟩
  · rintro ⟨hj, rfl⟩
    exact List.mem_map.mpr ⟨j, List.mem_range.mpr hj, rfl⟩

/-- An answer is a record. -/
theorem mem_answers {log : List CallbackRecord} {o j : ℕ} {result : Except SynError Unit} :
    (j, result) ∈ answers log o ↔ ∃ r ∈ log, r.owner = o ∧ r.callback = .established ∧
      r.guard = j ∧ r.result = result := by
  unfold answers
  constructor
  · intro h
    obtain ⟨r, hr, heq⟩ := List.mem_map.mp h
    obtain ⟨hlog, hmine⟩ := List.mem_filter.mp hr
    obtain ⟨hguard, hresult⟩ := Prod.mk.inj heq
    rw [Bool.and_eq_true, decide_eq_true_iff, decide_eq_true_iff] at hmine
    exact ⟨r, hlog, hmine.1, hmine.2, hguard, hresult⟩
  · rintro ⟨r, hlog, howner, hcallback, rfl, rfl⟩
    refine List.mem_map.mpr ⟨r, List.mem_filter.mpr ⟨hlog, ?_⟩, rfl⟩
    rw [Bool.and_eq_true, decide_eq_true_iff, decide_eq_true_iff]
    exact ⟨howner, hcallback⟩

/-- A record that is no answer. -/
theorem answers_append_other {log : List CallbackRecord} {o : ℕ} {r : CallbackRecord}
    (h : ¬(r.owner = o ∧ r.callback = .established)) : answers (log ++ [r]) o = answers log o := by
  unfold answers
  rw [List.filter_append, List.filter_cons_of_neg (by simpa using h), List.filter_nil,
    List.append_nil]

/-- A record that is an answer. -/
theorem answers_append {log : List CallbackRecord} {o : ℕ} {r : CallbackRecord}
    (howner : r.owner = o) (hcallback : r.callback = .established) :
    answers (log ++ [r]) o = answers log o ++ [(r.guard, r.result)] := by
  unfold answers
  rw [List.filter_append, List.map_append,
    List.filter_cons_of_pos (by simpa using ⟨howner, hcallback⟩), List.filter_nil]
  rfl

/-- Who asks after a call began. -/
theorem asks_append {calls : List StackCall} {call : StackCall} {o c i : ℕ} :
    Asks (calls ++ [call]) o c i ↔ Asks calls o c i ∨
      c = calls.length ∧ call.owner = o ∧ call.frame = .established i := by
  constructor
  · rintro ⟨call', hc, howner, hframe⟩
    rcases Table.getElem?_append_singleton.mp hc with hc | ⟨rfl, rfl⟩
    · exact .inl ⟨call', hc, howner, hframe⟩
    · exact .inr ⟨rfl, howner, hframe⟩
  · rintro (⟨call', hc, howner, hframe⟩ | ⟨rfl, howner, hframe⟩)
    · exact ⟨call', Table.getElem?_append_singleton.mpr (.inl hc), howner, hframe⟩
    · exact ⟨call, Table.getElem?_append_singleton.mpr (.inr ⟨rfl, rfl⟩), howner, hframe⟩

/-- Who asks after a call moved on. -/
theorem asks_set {calls : List StackCall} {call : StackCall} {c : ℕ} (hc : calls[c]? = some call)
    (frame : StackFrame) {o c' i : ℕ} :
    Asks (calls.set c { call with frame }) o c' i ↔
      c' = c ∧ call.owner = o ∧ frame = .established i ∨ c' ≠ c ∧ Asks calls o c' i := by
  constructor
  · rintro ⟨call', hc', howner, hframe⟩
    rcases (Table.getElem?_set_eq_some hc).mp hc' with ⟨rfl, rfl⟩ | ⟨hne, hc'⟩
    · exact .inl ⟨rfl, howner, hframe⟩
    · exact .inr ⟨hne, call', hc', howner, hframe⟩
  · rintro (⟨rfl, howner, hframe⟩ | ⟨hne, call', hc', howner, hframe⟩)
    · exact ⟨{ call with frame }, (Table.getElem?_set_eq_some hc).mpr (.inl ⟨rfl, rfl⟩), howner,
        hframe⟩
    · exact ⟨call', (Table.getElem?_set_eq_some hc).mpr (.inr ⟨hne, hc'⟩), howner, hframe⟩

/-! ## The progress of an establishment -/

/-- How far the establishment of the session of `o` has come at `n` guards; the flag tells whether
it was begun. -/
inductive Progress (n : ℕ) (log : List CallbackRecord) (calls : List StackCall) (o : ℕ) :
    Bool → Prop
  | unasked (hanswers : answers log o = []) (hasks : ∀ c i, ¬Asks calls o c i) :
      Progress n log calls o false
  | asking {c i : ℕ} (hanswers : answers log o = confirmations i) (hasks : Asks calls o c i)
      (honly : ∀ c' i', Asks calls o c' i' → c' = c) (hi : i ≤ n) : Progress n log calls o true
  | confirmed (hanswers : answers log o = confirmations n) (hasks : ∀ c i, ¬Asks calls o c i) :
      Progress n log calls o true
  | refused {i : ℕ} {err : SynError}
      (hanswers : answers log o = confirmations i ++ [(i, .error err)])
      (hasks : ∀ c i, ¬Asks calls o c i) (hi : i < n) : Progress n log calls o true

section Progress

variable {n : ℕ} {log log' : List CallbackRecord} {calls calls' : List StackCall} {o : ℕ}
  {flag : Bool}

/-- The progress is a matter of answers and askers. -/
theorem Progress.congr (h : Progress n log calls o flag) (hanswers : answers log' o = answers log o)
    (hasks : ∀ c i, Asks calls' o c i ↔ Asks calls o c i) : Progress n log' calls' o flag := by
  cases h with
  | unasked hnone hidle =>
    exact .unasked (hanswers.trans hnone) fun c i => mt (hasks c i).mp (hidle c i)
  | asking hsome hask honly hi =>
    exact .asking (hanswers.trans hsome) ((hasks _ _).mpr hask)
      (fun c' i' h' => honly c' i' ((hasks c' i').mp h')) hi
  | confirmed hall hidle =>
    exact .confirmed (hanswers.trans hall) fun c i => mt (hasks c i).mp (hidle c i)
  | refused hsome hidle hi =>
    exact .refused (hanswers.trans hsome) (fun c i => mt (hasks c i).mp (hidle c i)) hi

/-- A new call that does not ask for `o`. -/
theorem Progress.append_other (h : Progress n log calls o flag) {call : StackCall}
    (hother : call.owner = o → ∀ i, call.frame ≠ .established i) :
    Progress n log (calls ++ [call]) o flag := by
  refine h.congr rfl fun c i => asks_append.trans (or_iff_left ?_)
  rintro ⟨-, howner, hframe⟩
  exact hother howner i hframe

/-- A call that moves on and neither asked for `o` nor asks for it now. -/
theorem Progress.set_other (h : Progress n log calls o flag) {c : ℕ} {call : StackCall}
    {frame : StackFrame} (hc : calls[c]? = some call)
    (hother : call.owner = o → (∀ i, call.frame ≠ .established i) ∧ ∀ i, frame ≠ .established i)
    (hanswers : answers log' o = answers log o) :
    Progress n log' (calls.set c { call with frame }) o flag := by
  refine h.congr hanswers fun c' i => (asks_set hc frame).trans ?_
  constructor
  · rintro (⟨-, howner, hframe⟩ | ⟨-, hasks⟩)
    · exact absurd hframe ((hother howner).2 i)
    · exact hasks
  · rintro ⟨call', hc', howner, hframe⟩
    refine .inr ⟨?_, call', hc', howner, hframe⟩
    rintro rfl
    obtain rfl := Option.some.inj (hc.symm.trans hc')
    exact (hother howner).1 i hframe

/-- The first call of `mark_established` begins. -/
theorem Progress.begin (h : Progress n log calls o false) {call : StackCall}
    (howner : call.owner = o) (hframe : call.frame = .established 0) :
    Progress n log (calls ++ [call]) o true := by
  cases h with
  | unasked hanswers hasks =>
    refine .asking (c := calls.length) (i := 0) hanswers
      (asks_append.mpr (.inr ⟨rfl, howner, hframe⟩)) (fun c' i' h' => ?_) (Nat.zero_le n)
    rcases asks_append.mp h' with h' | ⟨hc', -⟩
    · exact absurd h' (hasks c' i')
    · exact hc'

/-- While a call asks, the guards before its next one have returned `Ok`, and no other call asks. -/
theorem Progress.of_asks (h : Progress n log calls o flag) {c i : ℕ} (hasks : Asks calls o c i) :
    flag = true ∧ i ≤ n ∧ answers log o = confirmations i ∧
      ∀ c' i', Asks calls o c' i' → c' = c := by
  cases h with
  | unasked _ hidle | confirmed _ hidle | refused _ hidle _ => exact absurd hasks (hidle c i)
  | @asking c₀ i₀ hanswers hask honly hi =>
    obtain rfl := honly c i hasks
    obtain ⟨call, hc, -, hframe⟩ := hasks
    obtain ⟨call₀, hc₀, -, hframe₀⟩ := hask
    obtain rfl := Option.some.inj (hc.symm.trans hc₀)
    cases hframe.symm.trans hframe₀
    exact ⟨rfl, hi, hanswers, honly⟩

variable {c i : ℕ} {call : StackCall}

/-- The call that asks returns: nobody asks any more. -/
theorem not_asks_set (h : Progress n log calls o flag) (hc : calls[c]? = some call)
    (hasks : Asks calls o c i) {result : Except SynError Unit} (c' i' : ℕ) :
    ¬Asks (calls.set c { call with frame := .returned result }) o c' i' := by
  intro h'
  rcases (asks_set hc _).mp h' with ⟨-, -, hframe⟩ | ⟨hne, h'⟩
  · cases hframe
  · exact hne ((h.of_asks hasks).2.2.2 c' i' h')

/-- The call that asks has asked all guards and returns. -/
theorem Progress.finish (h : Progress n log calls o flag) (hc : calls[c]? = some call)
    (hasks : Asks calls o c i) (hi : n ≤ i) {result : Except SynError Unit} :
    Progress n log (calls.set c { call with frame := .returned result }) o flag := by
  obtain ⟨rfl, hle, hanswers, -⟩ := h.of_asks hasks
  rw [le_antisymm hle hi] at hanswers
  exact .confirmed hanswers (not_asks_set h hc hasks)

/-- The next guard returns `Ok`. -/
theorem Progress.accept (h : Progress n log calls o flag) (hc : calls[c]? = some call)
    (hasks : Asks calls o c i) (hi : i < n) {ctx : GuardContext} :
    Progress n (log ++ [⟨i, o, ctx, .established, .ok ()⟩])
      (calls.set c { call with frame := .established (i + 1) }) o flag := by
  obtain ⟨rfl, -, hanswers, honly⟩ := h.of_asks hasks
  obtain ⟨call', hc', howner, -⟩ := hasks
  obtain rfl := Option.some.inj (hc.symm.trans hc')
  refine .asking (c := c) (i := i + 1) ?_ ((asks_set hc _).mpr (.inl ⟨rfl, howner, rfl⟩))
    (fun c' i' h' => ?_) hi
  · rw [answers_append rfl rfl, hanswers, confirmations_succ]
  · rcases (asks_set hc _).mp h' with ⟨rfl, -⟩ | ⟨-, h'⟩
    · rfl
    · exact honly c' i' h'

/-- The next guard refuses. -/
theorem Progress.refuse (h : Progress n log calls o flag) (hc : calls[c]? = some call)
    (hasks : Asks calls o c i) (hi : i < n) {ctx : GuardContext} {err : SynError}
    {result : Except SynError Unit} :
    Progress n (log ++ [⟨i, o, ctx, .established, .error err⟩])
      (calls.set c { call with frame := .returned result }) o flag := by
  obtain ⟨rfl, -, hanswers, -⟩ := h.of_asks hasks
  have hrefused : answers (log ++ [⟨i, o, ctx, .established, .error err⟩]) o =
      confirmations i ++ [(i, .error err)] := by
    rw [answers_append rfl rfl, hanswers]
  exact .refused hrefused (not_asks_set h hc hasks) hi

end Progress

/-- A visit is a question whether the session is established, with its answer, or nothing of the
sort. -/
theorem Visit.established_cases {G : Type*} [Guard G] {g g' : G} {ctx : GuardContext}
    {now : Instant} {i : ℕ} {frame frame' : StackFrame} {callback : Callback}
    {result : Except SynError Unit} {events : List GuardEvent}
    (h : Visit g ctx now i frame callback result g' events frame') :
    (frame = .established i ∧ callback = .established ∧
      (result = .ok () ∧ frame' = .established (i + 1) ∨
        ∃ err, result = .error err ∧ frame' = .returned (.error err))) ∨
    (∀ j, frame ≠ .established j) ∧ callback ≠ .established ∧ ∀ j, frame' ≠ .established j := by
  cases h with
  | establishedOk _ => exact .inl ⟨rfl, rfl, .inl ⟨rfl, rfl⟩⟩
  | establishedError _ => exact .inl ⟨rfl, rfl, .inr ⟨_, rfl, rfl⟩⟩
  | _ => exact .inr ⟨by simp, by simp, by simp⟩

/-- A call that begins and asks is the first `mark_established` of its session. -/
theorem first_established_cases (call : SessionCall) (slot : SessionSlot) :
    ((call.first slot).2 = .established 0 ∧ slot.session.established = false ∧
      (call.first slot).1.session.established = true) ∨
    (∀ i, (call.first slot).2 ≠ .established i) ∧
      (call.first slot).1.session.established = slot.session.established := by
  have hfirst := call.begins_first slot
  generalize (call.first slot).1 = slot' at hfirst
  generalize (call.first slot).2 = frame at hfirst
  cases hfirst with
  | returns _ => exact .inr ⟨by simp, by rw [SessionCall.leaves_session]⟩
  | establishes _ hnew => exact .inl ⟨rfl, hnew, rfl⟩
  | inspects _ | touches _ | closes _ _ _ => exact .inr ⟨by simp, rfl⟩

/-! ## The progress of every session -/

variable {G : Type*}

/-- Every session has its progress, and nobody asks for what has no session. -/
structure Establishing (n : ℕ) (s : StackState G) : Prop where
  session : ∀ (k : ℕ) (slot : SessionSlot), s.sessions[k]? = some slot →
    Progress n s.log s.calls slot.owner slot.session.established
  other : ∀ o, o ∉ s.owners → Progress n s.log s.calls o false

section Establishing

variable [Guard G] {n : ℕ} {s s' : StackState G} {a : StackAction G}

/-- A step that begins no call on a session keeps the progress of each. -/
theorem Progress.step {o : ℕ} {flag : Bool} (h : Progress n s.log s.calls o flag)
    (hn : s.guards.length = n) (hbegins : a.begins = none) (hst : Steps s a s') :
    Progress n s'.log s'.calls o flag := by
  cases hst with
  | begin hbegins' _ _ =>
    rw [hbegins] at hbegins'
    cases hbegins'
  | pass => exact h.append_other fun _ _ => by simp
  | ask => exact h.append_other fun _ _ => by simp
  | @grant c i now call hc hframe hi =>
    exact h.set_other hc (fun _ => ⟨fun j => by rw [hframe]; simp, by simp⟩) rfl
  | @finish c now call events result hc hfinished =>
    by_cases hasks : ∃ i, Asks s.calls o c i
    · obtain ⟨i, hasks⟩ := hasks
      have hi : n ≤ i := by
        obtain ⟨call', hc', -, hframe⟩ := hasks
        obtain rfl := Option.some.inj (hc.symm.trans hc')
        rw [hframe, hn] at hfinished
        cases hfinished with
        | established hi => exact hi
      exact h.finish hc hasks hi
    · refine h.set_other hc (fun howner => ⟨fun i hframe => ?_, by simp⟩) rfl
      exact hasks ⟨i, call, hc, howner, hframe⟩
  | @visit c i now call g g' callback result events frame hc hg hvisit =>
    have hi : i < n := hn ▸ (List.getElem?_eq_some_iff.mp hg).1
    show Progress n (s.log ++ [_]) _ o flag
    by_cases howner : call.owner = o
    · subst howner
      rcases hvisit.established_cases with
        ⟨hframe, rfl, ⟨rfl, rfl⟩ | ⟨err, rfl, rfl⟩⟩ | ⟨hframe, hcallback, hframe'⟩
      · exact h.accept hc ⟨call, hc, rfl, hframe⟩ hi
      · exact h.refuse hc ⟨call, hc, rfl, hframe⟩ hi
      · exact h.set_other hc (fun _ => ⟨hframe, hframe'⟩)
          (answers_append_other fun hmine => hcallback hmine.2)
    · exact h.set_other hc (fun hmine => absurd hmine howner)
        (answers_append_other fun hmine => howner hmine.1)
  | other _ _ hcalls hlog =>
    rw [hcalls, hlog]
    exact h

/-- Every step keeps the progress of every session.

**Proof sketch.** A call that begins asks only if it sets the flag of its session, which nobody has
asked for then, and no other session has its owner. A new session has an owner that had none. -/
theorem Establishing.step (h : Establishing n s) (hown : Owned s.calls s.owners)
    (hn : s.guards.length = n) (hst : Steps s a s') : Establishing n s' := by
  have hkeep : ∀ {o : ℕ} {flag : Bool}, a.begins = none → Progress n s.log s.calls o flag →
      Progress n s'.log s'.calls o flag := fun hbegins hp => hp.step hn hbegins hst
  -- a new session has the progress of an owner without one
  have hadd : ∀ {o : ℕ} {ctx : GuardContext} {allowed : Bool}, a.begins = none → o ∉ s.owners →
      s'.sessions = s.sessions ++ [⟨.fresh ctx allowed, o, false⟩] → Establishing n s' := by
    intro o ctx allowed hbegins ho hsessions
    refine ⟨fun k slot hslot => ?_, fun o' ho' => hkeep hbegins (h.other o' fun hmem => ho' ?_)⟩
    · rw [hsessions] at hslot
      rcases Table.getElem?_append_singleton.mp hslot with hslot | ⟨-, rfl⟩
      · exact hkeep hbegins (h.session k slot hslot)
      · exact hkeep hbegins (h.other o ho)
    · rw [owners, hsessions, List.map_append]
      exact List.mem_append_left _ hmem
  have hsame : a.begins = none → s'.sessions = s.sessions → Establishing n s' := by
    intro hbegins hsessions
    refine ⟨fun k slot hslot => hkeep hbegins (h.session k slot ?_),
      fun o ho => hkeep hbegins (h.other o ?_)⟩
    · rwa [hsessions] at hslot
    · rwa [owners, hsessions] at ho
  cases hst with
  | @begin _ k call slot hbegins hslot hdropped =>
    obtain ⟨-, howner⟩ := call.first_allowed_owner slot
    have hk := getElem?_owners hslot
    -- the others are not concerned
    have hothers : ∀ {o : ℕ} {flag : Bool}, o ≠ slot.owner → Progress n s.log s.calls o flag →
        Progress n s.log (s.calls ++
          [⟨slot.owner, some k, slot.session.context, (call.first slot).2⟩]) o flag :=
      fun ho hp => hp.append_other fun hmine => absurd hmine.symm ho
    refine ⟨fun k' slot' hslot' => ?_, fun o ho => ?_⟩
    · rcases (Table.getElem?_set_eq_some hslot).mp hslot' with ⟨rfl, rfl⟩ | ⟨hne, hslot'⟩
      · have hp := h.session k' slot hslot
        rw [howner]
        rcases first_established_cases call slot with ⟨hframe, hold, hnew⟩ | ⟨hframe, hflag⟩
        · rw [hold] at hp
          rw [hnew]
          exact hp.begin rfl hframe
        · rw [hflag]
          exact hp.append_other fun _ => hframe
      · refine hothers (fun heq => hne ?_) (h.session k' slot' hslot')
        have hk' := getElem?_owners hslot'
        rw [heq] at hk'
        exact (List.getElem?_inj (List.getElem?_eq_some_iff.mp hk').1 hown.nodup).mp
          (hk'.trans hk.symm)
    · have hne : o ∉ s.owners := by
        rwa [owners, owners_first hslot call] at ho
      refine hothers ?_ (h.other o hne)
      rintro rfl
      exact hne (List.mem_of_getElem? hk)
  | pass =>
    refine hadd rfl (fun hmem => ?_) rfl
    obtain ⟨_, howner, -⟩ := hown.admitted _ hmem
    exact absurd (List.getElem?_eq_some_iff.mp howner).1 (Nat.lt_irrefl _)
  | @grant c i now call hc hframe hi =>
    have hsession := hown.frame c call i hc hframe
    exact hadd rfl (hown.owner_not_mem hc hsession (isReturned_of_reserve hframe)) rfl
  | ask => exact hsame rfl rfl
  | finish _ _ => exact hsame rfl rfl
  | visit _ _ _ => exact hsame rfl rfl
  | other hbegins hsessions _ _ => exact hsame hbegins hsessions

/-- In every reachable state each session has its progress. -/
theorem establishing_of_reach {stack : GuardStack G} {env : G → G → Prop}
    (h : (system stack env).Reach s) : Establishing stack.guards.length s := by
  refine System.Reach.invariant (I := Establishing stack.guards.length) ?_ ?_ h
  · rintro _ rfl
    refine ⟨fun k slot hslot => ?_, fun o _ => .unasked rfl ?_⟩
    · simp [start] at hslot
    · rintro c i ⟨call, hc, -⟩
      simp [start] at hc
  · rintro s a s' hr hest hst
    exact hest.step (owned_asked_of_reach hr).1 (length_guards_of_reach hr) (steps_of_next hst.1)

end Establishing

/-! ## The verdict of `mark_established` -/

/-- With this step a call of `mark_established` returns `Ok` for a session of `o` that is not
allowed: at once, or after it asked. -/
inductive MarkedOk (x : Taken (StackState G) (StackAction G)) : ℕ → Prop
  | atOnce {k : ℕ} {slot : SessionSlot} {call : StackCall} (hlabel : x.label = .markEstablished k)
      (hslot : x.source.sessions[k]? = some slot) (hguarded : slot.session.allowed = false)
      (hcall : x.target.calls[x.source.calls.length]? = some call)
      (hok : call.frame = .returned (.ok ())) : MarkedOk x slot.owner
  | afterAsking {o c i : ℕ} {now : Instant} {call : StackCall} (hlabel : x.label = .advance c now)
      (hasks : Asks x.source.calls o c i) (hcall : x.target.calls[c]? = some call)
      (hok : call.frame = .returned (.ok ())) : MarkedOk x o

/-- Every guard has returned `Ok` for the establishment of the session of `o`. -/
def Confirmed (s : StackState G) (o : ℕ) : Prop :=
  ∀ j < s.guards.length, ∃ r ∈ s.log, r.owner = o ∧ r.callback = .established ∧ r.guard = j ∧
    r.result = .ok ()

instance (s : StackState G) (o : ℕ) : Decidable (Confirmed s o) :=
  inferInstanceAs (Decidable (∀ j < _, ∃ r ∈ _, _))

/-- No guard has refused the establishment of the session of `o`, and no call has still to ask one
of them. -/
def Settled (s : StackState G) (o : ℕ) : Prop :=
  (∀ r ∈ s.log, r.owner = o → r.callback = .established → r.result = .ok ()) ∧
    ∀ c i, Asks s.calls o c i → s.guards.length ≤ i

/-- If the action calls `mark_established` again, the establishment is settled. -/
def MarksSettled (s : StackState G) (a : StackAction G) : Prop :=
  ∀ k slot, a = .markEstablished k → s.sessions[k]? = some slot → slot.session.allowed = false →
    slot.session.established = true → Settled s slot.owner

section Verdict

variable {s s' : StackState G} {o : ℕ}

/-- All guards have answered `Ok`. -/
theorem confirmed_iff_mem_answers :
    Confirmed s o ↔ ∀ j < s.guards.length, (j, .ok ()) ∈ answers s.log o :=
  forall₂_congr fun _ _ => mem_answers.symm

/-- A begun establishment is confirmed exactly if it is settled. -/
theorem Progress.confirmed_iff_settled (h : Progress s.guards.length s.log s.calls o true) :
    Confirmed s o ↔ Settled s o := by
  rw [confirmed_iff_mem_answers]
  have hok : ∀ {i : ℕ}, answers s.log o = confirmations i →
      ∀ r ∈ s.log, r.owner = o → r.callback = .established → r.result = .ok () := by
    intro i hanswers r hr howner hcallback
    have hmem := mem_answers.mpr ⟨r, hr, howner, hcallback, rfl, rfl⟩
    rw [hanswers] at hmem
    exact (mem_confirmations.mp hmem).2
  cases h with
  | @asking c i hanswers hasks honly hi =>
    constructor
    · intro hall
      refine ⟨hok hanswers, fun c' i' hasks' => ?_⟩
      obtain ⟨-, -, hanswers', -⟩ :=
        (Progress.asking hanswers hasks honly hi : Progress _ _ _ _ true).of_asks hasks'
      by_contra hlt
      have hmem := hall i' (Nat.not_le.mp hlt)
      rw [hanswers'] at hmem
      exact Nat.lt_irrefl _ (mem_confirmations.mp hmem).1
    · rintro ⟨-, hdone⟩ j hj
      rw [hanswers]
      exact mem_confirmations.mpr ⟨hj.trans_le (hdone c i hasks), rfl⟩
  | confirmed hanswers hasks =>
    refine iff_of_true (fun j hj => ?_) ⟨hok hanswers, fun c i h => absurd h (hasks c i)⟩
    rw [hanswers]
    exact mem_confirmations.mpr ⟨hj, rfl⟩
  | @refused i err hanswers hasks hi =>
    refine iff_of_false (fun hall => ?_) fun hsettled => ?_
    · have hmem := hall i hi
      rw [hanswers] at hmem
      rcases List.mem_append.mp hmem with hmem | hmem
      · exact Nat.lt_irrefl _ (mem_confirmations.mp hmem).1
      · cases (Prod.mk.inj (List.mem_singleton.mp hmem)).2
    · have hmem : (i, .error err) ∈ answers s.log o := by
        rw [hanswers]
        exact List.mem_append_right _ (.head _)
      obtain ⟨r, hr, howner, hcallback, -, hresult⟩ := mem_answers.mp hmem
      rw [hsettled.1 r hr howner hcallback] at hresult
      cases hresult

/-- What is confirmed is a matter of the record. -/
theorem Confirmed.congr (h : Confirmed s o) (hguards : s'.guards.length = s.guards.length)
    (hlog : s'.log = s.log) : Confirmed s' o := by
  unfold Confirmed
  rw [hguards, hlog]
  exact h

variable [Guard G] {stack : GuardStack G} {env : G → G → Prop}

/-- A call that has asked all guards and returns `Ok` is right.

**Proof sketch.** The call returns without an error only when no guard is left, and all answers so
far were `Ok`. -/
theorem confirmed_of_afterAsking {c i : ℕ} {now : Instant} {call : StackCall}
    (hest : Establishing s.guards.length s) (hst : Steps s (.advance c now) s')
    (hasks : Asks s.calls o c i) (hcall : s'.calls[c]? = some call)
    (hok : call.frame = .returned (.ok ())) : Confirmed s' o := by
  obtain ⟨asker, hc, howner, hframe⟩ := hasks
  have hself : ∀ {frame : StackFrame},
      (s.calls.set c { asker with frame })[c]? = some call → frame = .returned (.ok ()) := by
    intro frame h
    rcases (Table.getElem?_set_eq_some hc).mp h with ⟨-, rfl⟩ | ⟨hne, -⟩
    · exact hok
    · exact absurd rfl hne
  have hprogress : ∃ flag, Progress s.guards.length s.log s.calls o flag := by
    by_cases hmem : o ∈ s.owners
    · obtain ⟨slot, hslot, rfl⟩ := List.mem_map.mp hmem
      obtain ⟨k, hk⟩ := List.mem_iff_getElem?.mp hslot
      exact ⟨_, hest.session k slot hk⟩
    · exact ⟨_, hest.other o hmem⟩
  obtain ⟨flag, hprogress⟩ := hprogress
  obtain ⟨-, hle, hanswers, -⟩ := hprogress.of_asks ⟨asker, hc, howner, hframe⟩
  generalize ha : StackAction.advance c now = a at hst
  cases hst with
  | begin hbegins _ _ =>
    rw [← ha] at hbegins
    cases hbegins
  | pass | ask => cases ha
  | @grant c' i' now' call' hc' hframe' _ =>
    cases ha
    obtain rfl := Option.some.inj (hc.symm.trans hc')
    rw [hframe] at hframe'
    cases hframe'
  | @finish c' now' call' events result hc' hfinished =>
    cases ha
    obtain rfl := Option.some.inj (hc.symm.trans hc')
    rw [hframe] at hfinished
    cases hfinished with
    | established hi =>
      have hconfirmed : Confirmed s o := by
        rw [confirmed_iff_mem_answers, hanswers]
        exact fun j hj => mem_confirmations.mpr ⟨hj.trans_le hi, rfl⟩
      exact hconfirmed.congr rfl rfl
  | @visit c' i' now' call' g g' callback result events frame hc' hg hvisit =>
    cases ha
    obtain rfl := Option.some.inj (hc.symm.trans hc')
    obtain rfl := hself hcall
    rcases hvisit.established_cases with ⟨-, -, ⟨-, hgo⟩ | ⟨err, -, hgo⟩⟩ | ⟨hnot, -⟩
    · cases hgo
    · cases hgo
    · exact absurd hframe (hnot i)
  | other _ _ hcalls _ =>
    rw [hcalls, hc] at hcall
    obtain rfl := Option.some.inj hcall
    rw [hframe] at hok
    cases hok

/-- What a call of `mark_established` does at once. -/
theorem next_markEstablished {k : ℕ} {slot : SessionSlot}
    (h : s.next (.markEstablished k) = some s') (hslot : s.sessions[k]? = some slot) :
    s'.guards = s.guards ∧ s'.log = s.log ∧ s'.calls[s.calls.length]? =
      some ⟨slot.owner, some k, slot.session.context, (markEstablishedFirst slot).2⟩ := by
  obtain ⟨slot', hslot', -, rfl⟩ := beginOn_cases (f := markEstablishedFirst) h
  obtain rfl := Option.some.inj (hslot.symm.trans hslot')
  exact ⟨rfl, rfl, Table.getElem?_append_singleton.mpr (.inr ⟨rfl, rfl⟩)⟩

/-- **When every `Ok` is that of all guards**: in a run of a stack, with all calls interleaved,
`mark_established` returns `Ok` for a session that is not allowed only after every guard has
returned `Ok` for it, if and only if it is called again only when no guard has refused the session
and no earlier call on it has still to ask one.

**Proof sketch.** A call that asked is always right. A call that returns at once found the flag, so
the establishment was begun, and it is confirmed exactly if it is settled. -/
theorem confirmed_iff {tr : List (Taken (StackState G) (StackAction G))}
    (h : (system stack env).Run (start stack) tr s) :
    (∀ x ∈ tr, ∀ o, MarkedOk x o → Confirmed x.target o) ↔
      ∀ x ∈ tr, MarksSettled x.source x.label := by
  refine forall₂_congr fun x hx => ?_
  obtain ⟨hr, hstep⟩ := h.taken (.init rfl) hx
  have hest := establishing_of_reach hr
  rw [← length_guards_of_reach hr] at hest
  have hprogress : ∀ {k : ℕ} {slot : SessionSlot}, x.source.sessions[k]? = some slot →
      slot.session.established = true →
      Progress x.source.guards.length x.source.log x.source.calls slot.owner true :=
    fun hslot hflag => hflag ▸ hest.session _ _ hslot
  constructor
  · intro hall k slot hlabel hslot hguarded hflag
    obtain ⟨hguards, hlog, hcall⟩ := next_markEstablished (hlabel ▸ hstep.1) hslot
    have hmarked : MarkedOk x slot.owner := by
      refine .atOnce hlabel hslot hguarded hcall ?_
      simp [markEstablishedFirst, hguarded, hflag]
    have hconfirmed : Confirmed x.source slot.owner :=
      (hall slot.owner hmarked).congr (congrArg List.length hguards).symm hlog.symm
    exact (hprogress hslot hflag).confirmed_iff_settled.mp hconfirmed
  · rintro hsettled _ (@⟨k, slot, call, hlabel, hslot, hguarded, hcall, hok⟩ |
      @⟨o, c, i, now, call, hlabel, hasks, hcall, hok⟩)
    · obtain ⟨hguards, hlog, hcall'⟩ := next_markEstablished (hlabel ▸ hstep.1) hslot
      have hflag : slot.session.established = true := by
        obtain rfl := Option.some.inj (hcall.symm.trans hcall')
        by_contra hflag
        simp [markEstablishedFirst, hguarded, hflag] at hok
      have hconfirmed : Confirmed x.source slot.owner :=
        (hprogress hslot hflag).confirmed_iff_settled.mpr
          (hsettled k slot hlabel hslot hguarded hflag)
      exact hconfirmed.congr (congrArg List.length hguards) hlog
    · have hst := steps_of_next hstep.1
      rw [hlabel] at hst
      exact confirmed_of_afterAsking hest hst hasks hcall hok

/-- A session of two throttles is established, and marked again later. -/
def markedTwice : List (StackAction Throttle) :=
  [.reserve (localContext 1001), .advance 0 0, .advance 0 0, .advance 0 0, .markEstablished 0,
    .advance 1 0, .advance 1 0, .advance 1 0, .markEstablished 0]

/-- Both throttles confirm the session before it is marked again. -/
theorem confirmed_iff_markedTwice :
    (∀ x ∈ (System.follow next (start twoThrottles) markedTwice).1, ∀ o, MarkedOk x o →
      Confirmed x.target o) ↔
      ∀ x ∈ (System.follow next (start twoThrottles) markedTwice).1,
        MarksSettled x.source x.label :=
  confirmed_iff (System.run_follow (M := system twoThrottles fun _ _ => True)
    (fun _ _ _ hnext => ⟨hnext, fun _ _ _ _ _ => trivial⟩) markedTwice (start twoThrottles))

end Verdict

/-- A guard that refuses every establishment. -/
inductive Refuser
  | refuser
  deriving DecidableEq

instance : Guard Refuser where
  name _ := "refuser".toList
  onEstablished g _ _ := (.error (.runtime "not established".toList), g)

/-- A stack of one such guard. -/
def oneRefuser : GuardStack Refuser := ⟨[.refuser], false, .new⟩

/-- A session is marked, which its guard refuses, and marked again. -/
def markedAgain : List (StackAction Refuser) :=
  [.reserve (localContext 1001), .advance 0 0, .advance 0 0, .markEstablished 0, .advance 1 0,
    .markEstablished 0]

/-- **Not every `Ok` is that of all guards**: after the guard has refused the session, the second
call returns `Ok`. -/
theorem not_forall_confirmed :
    ¬∀ (stack : GuardStack Refuser) (env : Refuser → Refuser → Prop)
      (tr : List (Taken (StackState Refuser) (StackAction Refuser))) (s : StackState Refuser),
      (system stack env).Run (start stack) tr s →
        ∀ x ∈ tr, ∀ o, MarkedOk x o → Confirmed x.target o := by
  intro hall
  have hrun := System.run_follow (M := system oneRefuser fun _ _ => True)
    (fun _ _ _ hnext => ⟨hnext, fun _ _ _ _ _ => trivial⟩) markedAgain (start oneRefuser)
  have hx : (System.follow next (start oneRefuser) markedAgain).1[5]? =
      some ⟨after oneRefuser (markedAgain.take 5), .markEstablished 0,
        after oneRefuser markedAgain⟩ := rfl
  have hslot : (after oneRefuser (markedAgain.take 5)).sessions[0]? =
      some ⟨⟨localContext 1001, false, true, false⟩, 0, false⟩ := by decide +kernel
  have hcall : (after oneRefuser markedAgain).calls[2]? =
      some ⟨0, some 0, localContext 1001, .returned (.ok ())⟩ := by decide +kernel
  have hmarked := MarkedOk.atOnce (x := ⟨after oneRefuser (markedAgain.take 5),
    .markEstablished 0, after oneRefuser markedAgain⟩) rfl hslot rfl hcall rfl
  have hconfirmed := hall _ _ _ _ hrun _ (List.mem_of_getElem? hx) 0 hmarked
  exact absurd hconfirmed (by decide +kernel)

end StackState

end Synclaire
