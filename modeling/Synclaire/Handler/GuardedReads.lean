import Synclaire.Handler.Connection
import Synclaire.Lib.Pipeline

set_option relaxedAutoImplicit false
set_option autoImplicit false

/-!
# Guarded reads

What a handler reads through its connection has passed all guards: every payload is shown to them in
the order of the stack until one refuses it, and the handler gets exactly the payloads that none
refused. Nothing is shown twice or out of order, whatever the other connections do meanwhile.

## Main definitions

* `Synclaire.StackState.acceptedPayloads` — the payloads of a session that a guard accepted.
* `Synclaire.StackState.PayloadMove` — what a step of the stack does to the payloads of a session.
* `Synclaire.ConnectionState.Passing` — how many guards each payload has passed.

## Main results

* `Synclaire.StackState.payloadMove_of_steps` — these are all moves.
* `Synclaire.ConnectionState.Passing.step` — every step keeps the count of the guards passed.
* `Synclaire.ConnectionState.payloads_pass` — the guards and the handler get the payloads that
  passed the guards before them.

## Implementation notes

A read that a guard refused leaves its bytes in the buffer of the caller all the same. The payloads
that the handler got are those of the reads that returned without an error.
-/

namespace Synclaire

/-- The bytes that a callback shows. -/
def Callback.bytes : Callback → Option (List UInt8)
  | .payload bytes => some bytes
  | _ => none

/-- The call shows a payload and has not returned. -/
def StackFrame.ShowsPayload (frame : StackFrame) : Prop :=
  ∃ i touched bytes, frame = .payload i touched bytes

/-- The payload that a record shows as accepted by guard `j` for `owner`. -/
def CallbackRecord.acceptedPayload (owner j : ℕ) (r : CallbackRecord) : Option (List UInt8) :=
  if r.owner = owner ∧ r.guard = j ∧ r.result = .ok () then r.callback.bytes else none

namespace StackState

variable {G : Type*}

/-- The payloads of the session of `owner` that guard `j` accepted, in order. -/
def acceptedPayloads (s : StackState G) (owner j : ℕ) : List (List UInt8) :=
  s.log.filterMap (CallbackRecord.acceptedPayload owner j)

/-! ## What a step does to the payloads of a session -/

/-- How the call that shows a payload to `n` guards moves on at guard `i`. -/
inductive Moved (n i : ℕ) (bytes : List UInt8) : Bool → StackFrame → Prop
  | finished {touched : Bool} (hi : n ≤ i) : Moved n i bytes touched (.returned (.ok ()))
  | touched (hi : i < n) : Moved n i bytes false (.payload i true bytes)
  | refused {touched : Bool} {err : SynError} (hi : i < n) :
      Moved n i bytes touched (.returned (.error err))
  | accepted (hi : i < n) : Moved n i bytes true (.payload (i + 1) false bytes)

/-- What a step does to the payloads of session `k`, which belongs to `owner`. -/
inductive PayloadMove (s s' : StackState G) (k owner : ℕ) : Prop
  /-- Nothing: the calls that show them or have returned stay. -/
  | still
      (hstay : ∀ (c : ℕ) (call : StackCall), s.calls[c]? = some call → call.session = some k →
        call.frame.ShowsPayload ∨ call.isReturned = true → s'.calls[c]? = some call)
      (hback : ∀ (c : ℕ) (call : StackCall), s'.calls[c]? = some call → call.session = some k →
        call.frame.ShowsPayload → s.calls[c]? = some call)
      (haccepted : ∀ j, s'.acceptedPayloads owner j = s.acceptedPayloads owner j)
  /-- The call that shows one moves on. -/
  | moves {c i : ℕ} {call : StackCall} {touched : Bool} {bytes : List UInt8} {frame : StackFrame}
      (hc : s.calls[c]? = some call) (hsession : call.session = some k)
      (hframe : call.frame = .payload i touched bytes)
      (hmoved : Moved s.guards.length i bytes touched frame)
      (hcalls : s'.calls = s.calls.set c { call with frame })
      (haccepted : ∀ j, s'.acceptedPayloads owner j =
        s.acceptedPayloads owner j ++
          if j = i ∧ frame = .payload (i + 1) false bytes then [bytes] else [])

/-- What a guard accepted after one more record. -/
theorem acceptedPayloads_append {s s' : StackState G} {r : CallbackRecord}
    (h : s'.log = s.log ++ [r]) (owner j : ℕ) :
    s'.acceptedPayloads owner j =
      s.acceptedPayloads owner j ++ (r.acceptedPayload owner j).toList := by
  rw [acceptedPayloads, h, List.filterMap_append]
  rfl

/-- A call that begins and shows no payload of the session. -/
theorem PayloadMove.of_append {s s' : StackState G} {k owner : ℕ} {call : StackCall}
    (hcalls : s'.calls = s.calls ++ [call]) (hlog : s'.log = s.log)
    (hquiet : call.session = some k → ¬call.frame.ShowsPayload) : s.PayloadMove s' k owner := by
  refine .still (fun c call' hc _ _ => ?_) (fun c call' hc hsession hshows => ?_) fun j => ?_
  · rw [hcalls]
    exact Table.getElem?_append_singleton.mpr (.inl hc)
  · rw [hcalls] at hc
    rcases Table.getElem?_append_singleton.mp hc with hold | ⟨-, rfl⟩
    · exact hold
    · exact absurd hshows (hquiet hsession)
  · rw [acceptedPayloads, hlog]
    rfl

/-- A call that moves on and shows no payload of the session. -/
theorem PayloadMove.of_set {s s' : StackState G} {k owner c : ℕ} {call : StackCall}
    {frame : StackFrame} (hc : s.calls[c]? = some call)
    (hcalls : s'.calls = s.calls.set c { call with frame })
    (hquiet : call.session = some k →
      ¬call.frame.ShowsPayload ∧ call.isReturned = false ∧ ¬frame.ShowsPayload)
    (haccepted : ∀ j, s'.acceptedPayloads owner j = s.acceptedPayloads owner j) :
    s.PayloadMove s' k owner := by
  refine .still (fun c' call' hc' hsession hshows => ?_) (fun c' call' hc' hsession hshows => ?_)
    haccepted
  · rw [hcalls]
    refine (Table.getElem?_set_eq_some hc).mpr (.inr ⟨?_, hc'⟩)
    rintro rfl
    obtain rfl := Option.some.inj (hc.symm.trans hc')
    obtain ⟨hframe, hrunning, -⟩ := hquiet hsession
    rcases hshows with hshows | hreturned
    · exact hframe hshows
    · rw [hreturned] at hrunning
      cases hrunning
  · rw [hcalls] at hc'
    rcases (Table.getElem?_set_eq_some hc).mp hc' with ⟨rfl, rfl⟩ | ⟨-, hold⟩
    · exact absurd hshows (hquiet hsession).2.2
    · exact hold

/-- A call that begins shows no payload, unless it is `record_payload`. -/
theorem not_showsPayload_first {call : SessionCall} {slot : SessionSlot}
    (h : ∀ bytes, call ≠ .recordPayload bytes) : ¬(call.first slot).2.ShowsPayload := by
  rintro ⟨i, touched, bytes, hframe⟩
  have hbegins := SessionCall.begins_first call slot
  rw [hframe] at hbegins
  generalize (call.first slot).1 = new at hbegins
  cases hbegins with
  | inspects => exact h bytes rfl

variable [Guard G]

/-- **What a step does to the payloads of a session**, if it begins no call on it that shows one.

**Proof sketch.** One case for each kind of step. A callback of a call on another session is
recorded for another owner, and a callback of another kind shows no payload. -/
theorem payloadMove_of_steps {s s' : StackState G} {a : StackAction G} {k : ℕ}
    {slot : SessionSlot} (hown : Owned s.calls s.owners) (hslot : s.sessions[k]? = some slot)
    (hbegins : ∀ bytes, a.begins ≠ some (k, .recordPayload bytes)) (hst : Steps s a s') :
    s.PayloadMove s' k slot.owner := by
  have howner := getElem?_owners hslot
  cases hst with
  | @begin _ k' call slot' hbegin hslot' hdropped =>
    refine .of_append rfl rfl fun hsession => ?_
    obtain rfl : k' = k := Option.some.inj hsession
    exact not_showsPayload_first fun bytes hcall => hbegins bytes (by rw [hbegin, hcall])
  | pass => exact .of_append rfl rfl (by simp)
  | ask => exact .of_append rfl rfl (by simp)
  | @grant c i now call hc hframe hi =>
    refine .of_set hc rfl (fun hsession => ?_) fun _ => rfl
    rw [hown.frame c call i hc hframe] at hsession
    cases hsession
  | @finish c now call events result hc hfinished =>
    by_cases hshows : call.frame.ShowsPayload ∧ call.session = some k
    · obtain ⟨⟨i, touched, bytes, hframe⟩, hsession⟩ := hshows
      rw [hframe] at hfinished
      cases hfinished with
      | payload hi =>
        refine .moves hc hsession hframe (.finished hi) rfl fun j => ?_
        rw [if_neg (by simp), List.append_nil]
        rfl
    · refine .of_set hc rfl (fun hsession => ⟨?_, hfinished.running, ?_⟩) fun _ => rfl
      · exact fun hframe => hshows ⟨hframe, hsession⟩
      · rintro ⟨_, _, _, ⟨⟩⟩
  | @visit c i now call g g' callback result events frame hc hg hvisit =>
    have haccepted : ∀ j,
        (s.visited c call i g' callback result events frame).acceptedPayloads slot.owner j =
          s.acceptedPayloads slot.owner j ++ (CallbackRecord.acceptedPayload slot.owner j
            ⟨i, call.owner, call.context, callback, result⟩).toList :=
      acceptedPayloads_append rfl slot.owner
    have hi : i < s.guards.length := (List.getElem?_eq_some_iff.mp hg).1
    have hrunning := hvisit.running
    by_cases hsession : call.session = some k
    · have hmine : call.owner = slot.owner := by
        rw [hown.session c call k hc hsession] at howner
        exact Option.some.inj howner
      have hnothing : ∀ {j : ℕ}, callback.bytes = none ∨ result ≠ .ok () →
          (CallbackRecord.acceptedPayload slot.owner j
            ⟨i, call.owner, call.context, callback, result⟩).toList = [] := by
        intro j hreason
        rw [CallbackRecord.acceptedPayload]
        rcases hreason with hbytes | hresult
        · rw [hbytes, ite_self]
          rfl
        · rw [if_neg fun h => hresult h.2.2]
          rfl
      -- a callback of another kind
      have hquiet : callback.bytes = none → ¬call.frame.ShowsPayload → ¬frame.ShowsPayload →
          s.PayloadMove (s.visited c call i g' callback result events frame) k slot.owner := by
        intro hbytes hframe hframe'
        refine .of_set hc rfl (fun _ => ⟨hframe, hrunning, hframe'⟩) fun j => ?_
        rw [haccepted, hnothing (.inl hbytes), List.append_nil]
      have hunshown : ∀ {f : StackFrame}, call.frame = f → (∀ i t b, f ≠ .payload i t b) →
          ¬call.frame.ShowsPayload := by
        rintro f rfl hne ⟨i, t, b, hf⟩
        exact hne i t b hf
      generalize hframe : call.frame = f at hvisit
      cases hvisit with
      | payloadTouch hanswer =>
        refine .moves hc hsession hframe (.touched hi) rfl fun j => ?_
        rw [haccepted, hnothing (.inl rfl), if_neg (by simp)]
      | payloadTouchError hanswer =>
        refine .moves hc hsession hframe (.refused hi) rfl fun j => ?_
        rw [haccepted, hnothing (.inl rfl), if_neg (by simp)]
      | @payloadOk _ bytes hanswer =>
        refine .moves hc hsession hframe (.accepted hi) rfl fun j => ?_
        rw [haccepted, CallbackRecord.acceptedPayload]
        by_cases hj : j = i
        · rw [if_pos ⟨hmine, hj.symm, rfl⟩, if_pos ⟨hj, rfl⟩]
          rfl
        · rw [if_neg fun h => hj h.2.1.symm, if_neg fun h => hj h.1]
          rfl
      | payloadError hanswer =>
        refine .moves hc hsession hframe (.refused hi) rfl fun j => ?_
        rw [haccepted, hnothing (.inr (by simp)), if_neg (by simp)]
      | reserveOk hanswer | reserveError hanswer =>
        rw [hown.frame c call i hc hframe] at hsession
        cases hsession
      | rollback | establishedOk hanswer | establishedError hanswer | activityOk hanswer
      | activityError hanswer | close =>
        refine hquiet rfl (hunshown hframe (by simp)) ?_
        rintro ⟨_, _, _, ⟨⟩⟩
    · have hother := hown.owner_ne hc hrunning howner hsession
      refine .of_set hc rfl (fun h => absurd h hsession) fun j => ?_
      rw [haccepted, CallbackRecord.acceptedPayload, if_neg fun h => hother h.1]
      exact List.append_nil _
  | other hbegins' hsessions hcalls hlog =>
    refine .still (fun c call hc _ _ => ?_) (fun c call hc _ _ => ?_) fun j => ?_
    · rw [hcalls]
      exact hc
    · rwa [hcalls] at hc
    · rw [acceptedPayloads, hlog]
      rfl

/-- A session keeps its owner, and whether it is allowed. -/
theorem slot_of_steps {s s' : StackState G} {a : StackAction G} {k : ℕ} {slot : SessionSlot}
    (hslot : s.sessions[k]? = some slot) (hst : Steps s a s') :
    ∃ slot', s'.sessions[k]? = some slot' ∧ slot'.owner = slot.owner ∧
      slot'.session.allowed = slot.session.allowed := by
  cases hst with
  | @begin _ k' call slot' _ hslot' _ =>
    by_cases hk : k = k'
    · subst hk
      obtain rfl := Option.some.inj (hslot.symm.trans hslot')
      exact ⟨_, (Table.getElem?_set_eq_some hslot).mpr (.inl ⟨rfl, rfl⟩),
        (call.first_allowed_owner slot).2, (call.first_allowed_owner slot).1⟩
    · exact ⟨slot, (Table.getElem?_set_eq_some hslot').mpr (.inr ⟨hk, hslot⟩), rfl, rfl⟩
  | pass | grant _ _ _ =>
    exact ⟨slot, Table.getElem?_append_singleton.mpr (.inl hslot), rfl, rfl⟩
  | ask | finish _ _ | visit _ _ _ => exact ⟨slot, hslot, rfl, rfl⟩
  | other _ hsessions _ _ => exact ⟨slot, by rw [hsessions]; exact hslot, rfl, rfl⟩

end StackState

namespace ConnectionState

open Pipeline

variable {G : Type*} {s s' : ConnectionState G} {n k owner : ℕ}
  {done hand : List (List UInt8 × ℕ)}

/-! ## The guards passed -/

/-- How many of `n` guards a payload has passed, by the frame of the call that shows it. -/
inductive Stage (n : ℕ) (bytes : List UInt8) : StackFrame → ℕ → Prop
  | asking {i : ℕ} {touched : Bool} (hi : i ≤ n) : Stage n bytes (.payload i touched bytes) i
  | passed : Stage n bytes (.returned (.ok ())) n
  | refused {i : ℕ} {err : SynError} (hi : i < n) : Stage n bytes (.returned (.error err)) i

/-- The payload in hand, with the number of guards it has passed. -/
inductive Hand (n k : ℕ) (s : ConnectionState G) : List (List UInt8 × ℕ) → Prop
  | empty (hunhanded : s.Unhanded)
      (hfree : ∀ (c : ℕ) (call : StackCall), s.stack.calls[c]? = some call →
        call.session = some k → ¬call.frame.ShowsPayload) : Hand n k s []
  | holds {form : ReadForm} {c r : ℕ} {bytes : List UInt8} {call : StackCall}
      (hphase : s.phase = .recording form c bytes) (hform : form = .read → bytes ≠ [])
      (hc : s.stack.calls[c]? = some call) (hsession : call.session = some k)
      (hstage : Stage n bytes call.frame r)
      (honly : ∀ (c' : ℕ) (call' : StackCall), s.stack.calls[c']? = some call' →
        call'.session = some k → call'.frame.ShowsPayload → c' = c) : Hand n k s [(bytes, r)]

/-- How many guards each payload has passed: those the session has answered, and the one in hand.
A guard accepted the payloads that passed it, and the handler got those that passed all. -/
structure Passing (n k owner : ℕ) (s : ConnectionState G) (done hand : List (List UInt8 × ℕ)) :
    Prop where
  slot : ∃ slot, s.stack.sessions[k]? = some slot ∧ slot.owner = owner ∧
    slot.session.allowed = false
  inHand : Hand n k s hand
  shown : s.shown = (done ++ hand).map Prod.fst
  le : ∀ x ∈ done ++ hand, x.2 ≤ n
  accepted : ∀ j < n, s.stack.acceptedPayloads owner j = past (j + 1) (done ++ hand)
  delivered : s.delivered = past n done

/-- A call in one of these frames shows a payload or has returned. -/
theorem Stage.shows_or_returned {bytes : List UInt8} {call : StackCall} {r : ℕ}
    (h : Stage n bytes call.frame r) :
    call.frame.ShowsPayload ∨ call.isReturned = true := by
  unfold StackCall.isReturned
  generalize call.frame = frame at h
  cases h with
  | asking _ => exact .inl ⟨_, _, _, rfl⟩
  | passed | refused _ => exact .inr rfl

/-- A call that moves on has passed as many guards as accepted its payload. -/
theorem Moved.stage {i m : ℕ} {bytes : List UInt8} {touched : Bool} {frame : StackFrame}
    (h : StackState.Moved m i bytes touched frame) (hm : m = n) (hi : i ≤ n) :
    ∃ r, Stage n bytes frame r ∧ r ≤ n ∧ ∀ j,
      ((if j + 1 ≤ i then [bytes] else []) ++
        if j = i ∧ frame = .payload (i + 1) false bytes then [bytes] else []) =
          if j + 1 ≤ r then [bytes] else [] := by
  subst hm
  cases h with
  | finished hge =>
    obtain rfl := Nat.le_antisymm hi hge
    exact ⟨i, .passed, hi, fun j => by simp⟩
  | touched hlt => exact ⟨i, .asking hi, hi, fun j => by simp⟩
  | refused hlt => exact ⟨i, .refused hlt, hi, fun j => by simp⟩
  | accepted hlt =>
    refine ⟨i + 1, .asking hlt, hlt, fun j => ?_⟩
    rcases Nat.lt_trichotomy j i with hj | rfl | hj
    · have hle : j + 1 ≤ i := hj
      simp [hj.ne, hj.le, hle]
    · simp
    · have hge : ¬j + 1 ≤ i := by omega
      have hgt : ¬j ≤ i := by omega
      simp [hj.ne', hge, hgt]

/-- With no payload in hand. -/
theorem Hand.eq_nil (h : Hand n k s hand) (hunhanded : s.Unhanded) : hand = [] := by
  cases h with
  | empty _ _ => rfl
  | holds hphase => exact absurd hphase (hunhanded _ _ _)

/-- Without a payload in hand no call shows one. -/
theorem Hand.free (h : Hand n k s []) : ∀ (c : ℕ) (call : StackCall),
    s.stack.calls[c]? = some call → call.session = some k → ¬call.frame.ShowsPayload := by
  cases h with
  | empty _ hfree => exact hfree

variable [Guard G]

omit [Guard G] in
/-- A call that has returned says so in its frame. -/
theorem frame_of_returnedBy {c : ℕ} {call : StackCall} {result : Except SynError Unit}
    (hc : s.stack.calls[c]? = some call) (h : s.returnedBy c = some result) :
    call.frame = .returned result := by
  rw [returnedBy, hc, Option.map_some] at h
  cases hframe : call.frame with
  | returned result' =>
    rw [hframe] at h
    exact congrArg _ (Option.some.inj h)
  | _ =>
    rw [hframe] at h
    cases h

/-- **The stack moves on**, and with it the payload in hand.

**Proof sketch.** A step shows no payload of the session, or the call that shows the one in hand
moves on at its guard. -/
theorem Passing.move {a : StackAction G} (h : s.Passing n k owner done hand)
    (hown : StackState.Owned s.stack.calls s.stack.owners) (hn : s.stack.guards.length = n)
    (hnext : s.stack.next a = some s'.stack)
    (hbegins : ∀ bytes, a.begins ≠ some (k, .recordPayload bytes)) (hshown : s'.shown = s.shown)
    (hphase : s'.phase = s.phase ∨ s.Unhanded ∧ s'.Unhanded)
    (hdelivered : s'.delivered = s.delivered) : ∃ hand', s'.Passing n k owner done hand' := by
  obtain ⟨slot, hslot, rfl, hguarded⟩ := h.slot
  have hst := StackState.steps_of_next hnext
  have hslot' : ∃ slot', s'.stack.sessions[k]? = some slot' ∧ slot'.owner = slot.owner ∧
      slot'.session.allowed = false := by
    obtain ⟨slot', hslot', howner, hallowed⟩ := StackState.slot_of_steps hslot hst
    exact ⟨slot', hslot', howner, hallowed.trans hguarded⟩
  cases StackState.payloadMove_of_steps hown hslot hbegins hst with
  | still hstay hback haccepted =>
    refine ⟨hand, hslot', ?_, hshown.trans h.shown, h.le, fun j hj => ?_,
      hdelivered.trans h.delivered⟩
    · cases h.inHand with
      | empty hunhanded hfree =>
        refine .empty ?_ fun c call hc hsession hshows =>
          hfree c call (hback c call hc hsession hshows) hsession hshows
        rcases hphase with hsame | ⟨-, hunhanded'⟩
        · intro form c bytes heq
          exact hunhanded form c bytes (hsame.symm.trans heq)
        · exact hunhanded'
      | @holds form c r bytes call hrecording hform hc hsession hstage honly =>
        have hsame : s'.phase = s.phase :=
          hphase.resolve_right fun hboth => hboth.1 form c bytes hrecording
        refine .holds (hsame.trans hrecording) hform (hstay c call hc hsession ?_) hsession hstage
          fun c' call' hc' hsession' hshows =>
            honly c' call' (hback c' call' hc' hsession' hshows) hsession' hshows
        exact hstage.shows_or_returned
    · rw [haccepted, h.accepted j hj]
  | @moves c i call touched bytes frame hc hsession hframe hmoved hcalls haccepted =>
    have hshows : call.frame.ShowsPayload := ⟨i, touched, bytes, hframe⟩
    cases hhand : h.inHand with
    | empty hunhanded hfree => exact absurd hshows (hfree c call hc hsession)
    | @holds form c₀ r bytes₀ call₀ hrecording hform hc₀ hsession₀ hstage honly =>
      obtain rfl : c = c₀ := honly c call hc hsession hshows
      obtain rfl : call₀ = call := Option.some.inj (hc₀.symm.trans hc)
      rw [hframe] at hstage
      obtain ⟨rfl, rfl, hi⟩ : bytes₀ = bytes ∧ r = i ∧ i ≤ n := by
        cases hstage with
        | asking hi => exact ⟨rfl, rfl, hi⟩
      have hsame : s'.phase = s.phase :=
        hphase.resolve_right fun hboth => hboth.1 form c bytes₀ hrecording
      obtain ⟨r', hstage', hle, hcount⟩ := Moved.stage hmoved hn hi
      have hc' : s'.stack.calls[c]? = some { call₀ with frame } := by
        rw [hcalls]
        exact (Table.getElem?_set_eq_some hc).mpr (.inl ⟨rfl, rfl⟩)
      refine ⟨[(bytes₀, r')], hslot', .holds (hsame.trans hrecording) hform hc' hsession hstage' ?_,
        ?_, ?_, fun j hj => ?_, hdelivered.trans h.delivered⟩
      · intro c' call' hc' hsession' hshows'
        rw [hcalls] at hc'
        rcases (Table.getElem?_set_eq_some hc).mp hc' with ⟨hsame', -⟩ | ⟨-, hold⟩
        · exact hsame'
        · exact honly c' call' hold hsession' hshows'
      · rw [hshown, h.shown, List.map_append, List.map_append]
        rfl
      · intro x hx
        rcases List.mem_append.mp hx with hx | hx
        · exact h.le x (List.mem_append_left _ hx)
        · obtain rfl := List.mem_singleton.mp hx
          exact hle
      · rw [haccepted, h.accepted j hj, past_append_singleton, past_append_singleton,
          List.append_assoc, hcount]

/-- **A payload is shown.** -/
theorem Passing.present {form : ReadForm} {bytes : List UInt8} (h : s.Passing n k owner done hand)
    (hnext : s.stack.next (.recordPayload k bytes) = some s'.stack)
    (hshown : s'.shown = s.shown ++ [bytes]) (hbefore : s.Unhanded)
    (hphase : s'.phase = .recording form s.stack.calls.length bytes)
    (hform : form = .read → bytes ≠ []) (hdelivered : s'.delivered = s.delivered) :
    s'.Passing n k owner done [(bytes, 0)] := by
  obtain ⟨slot, hslot, rfl, hguarded⟩ := h.slot
  obtain rfl := h.inHand.eq_nil hbefore
  have hfree := h.inHand.free
  obtain ⟨slot', hslot', -, hstack⟩ := StackState.beginOn_cases hnext
  obtain rfl := Option.some.inj (hslot.symm.trans hslot')
  have hfirst : StackState.recordPayloadFirst bytes slot = (slot, .payload 0 false bytes) := by
    rw [StackState.recordPayloadFirst, hguarded]
    rfl
  rw [hfirst] at hstack
  have hcalls : s'.stack.calls = s.stack.calls ++
      [⟨slot.owner, some k, slot.session.context, .payload 0 false bytes⟩] := by rw [hstack]
  have hcall : s'.stack.calls[s.stack.calls.length]? =
      some ⟨slot.owner, some k, slot.session.context, .payload 0 false bytes⟩ := by
    rw [hcalls]
    exact Table.getElem?_append_singleton.mpr (.inr ⟨rfl, rfl⟩)
  refine ⟨⟨slot, ?_, rfl, hguarded⟩,
    .holds hphase hform hcall rfl (.asking (Nat.zero_le n)) ?_, ?_, ?_, fun j hj => ?_,
    hdelivered.trans h.delivered⟩
  · rw [hstack]
    exact (Table.getElem?_set_eq_some hslot).mpr (.inl ⟨rfl, rfl⟩)
  · intro c' call' hc' hsession hshows
    rw [hcalls] at hc'
    rcases Table.getElem?_append_singleton.mp hc' with hold | ⟨hnew, -⟩
    · exact absurd hshows (hfree c' call' hold hsession)
    · exact hnew
  · rw [hshown, h.shown, List.append_nil, List.map_append]
    rfl
  · intro x hx
    rcases List.mem_append.mp hx with hx | hx
    · exact h.le x (List.mem_append_left _ hx)
    · obtain rfl := List.mem_singleton.mp hx
      exact Nat.zero_le n
  · have hlog : s'.stack.log = s.stack.log := by rw [hstack]
    have haccepted := h.accepted j hj
    rw [List.append_nil] at haccepted
    rw [StackState.acceptedPayloads, hlog, past_append_of_lt (Nat.succ_pos j)]
    exact haccepted

omit [Guard G] in
/-- **The session has answered.** -/
theorem Passing.answer {form : ReadForm} {c : ℕ} {bytes : List UInt8}
    {result : Except SynError Unit} (h : s.Passing n k owner done hand)
    (hbefore : s.phase = .recording form c bytes) (hreturned : s.returnedBy c = some result)
    (hstack : s'.stack = s.stack) (hshown : s'.shown = s.shown) (hafter : s'.Unhanded)
    (hanswers : s'.answers = s.answers ++ [form.answer (result.map fun _ => bytes)]) :
    s'.Passing n k owner (done ++ hand) [] := by
  cases hhand : h.inHand with
  | empty hunhanded _ => exact absurd hbefore (hunhanded form c bytes)
  | @holds form₀ c₀ r bytes₀ call hrecording hform hc hsession hstage honly =>
    obtain ⟨rfl, rfl, rfl⟩ := ConnectionPhase.recording.inj (hrecording.symm.trans hbefore)
    have hframe : call.frame = .returned result := frame_of_returnedBy hc hreturned
    rw [hframe] at hstage
    have hdone : done ++ [(bytes₀, r)] ++ [] = done ++ [(bytes₀, r)] := List.append_nil _
    refine ⟨by rw [hstack]; exact h.slot, .empty hafter ?_, by rw [hshown, h.shown, hdone],
      by rw [hdone]; exact h.le, by rw [hdone, hstack]; exact h.accepted, ?_⟩
    · intro c' call' hc' hsession' hshows
      rw [hstack] at hc'
      obtain rfl := honly c' call' hc' hsession' hshows
      obtain rfl := Option.some.inj (hc.symm.trans hc')
      obtain ⟨_, _, _, hpayload⟩ := hshows
      cases hframe.symm.trans hpayload
    · rw [delivered_of_answers hanswers, h.delivered, past_append_singleton]
      cases hstage with
      | passed =>
        rw [if_pos (Nat.le_refl n)]
        cases form₀ with
        | read =>
          obtain ⟨b, rest, rfl⟩ := List.exists_cons_of_ne_nil (hform rfl)
          rfl
        | readExact => rfl
      | refused hlt =>
        rw [if_neg (Nat.not_le.mpr hlt)]
        cases form₀ <;> rfl

/-- **Every step keeps the count of the guards passed.** -/
theorem Passing.step {stack : GuardStack G} {stream : ConnectionStream}
    {a : ConnectionAction G} (h : s.Passing stack.guards.length k owner done hand)
    (hreach : (connectionSystem stack stream (some k)).Reach s)
    (hstep : s.next stream (some k) a = some s') :
    ∃ done' hand', s'.Passing stack.guards.length k owner done' hand' := by
  obtain ⟨hstackReach, horder⟩ := stack_reach hreach
  have hown := (StackState.owned_asked_of_reach hstackReach).1
  have hn := StackState.length_guards_of_reach hstackReach
  cases (steps_of_next horder hstep).1 with
  | quiet hstack hshown hbefore hafter hdelivered =>
    obtain rfl := h.inHand.eq_nil hbefore
    refine ⟨done, [], by rw [hstack]; exact h.slot, .empty hafter ?_, hshown.trans h.shown, h.le,
      ?_, (hdelivered k rfl).trans h.delivered⟩
    · rw [hstack]
      exact h.inHand.free
    · rw [hstack]
      exact h.accepted
  | shows hsession hstack hshown hbefore hphase hform hanswers =>
    obtain rfl := Option.some.inj hsession
    have hdelivered : s'.delivered = s.delivered :=
      congrArg (List.filterMap ConnectionAnswer.delivered) hanswers
    exact ⟨done, _, h.present hstack hshown hbefore hphase hform hdelivered⟩
  | answers hbefore hreturned hstack hshown hafter hanswers =>
    exact ⟨_, [], h.answer hbefore hreturned hstack hshown hafter hanswers⟩
  | calls hsession ha hstack hshown hbefore hafter hanswers =>
    obtain rfl := Option.some.inj hsession
    refine ⟨done, h.move hown hn hstack (fun bytes hbegins => ?_) hshown (.inr ⟨hbefore, hafter⟩)
      (congrArg (List.filterMap ConnectionAnswer.delivered) hanswers)⟩
    rcases ha with rfl | rfl <;> cases hbegins
  | others hother hstack hshown hphase hanswers =>
    refine ⟨done, h.move hown hn hstack (fun bytes hbegins => ?_) hshown (.inl hphase)
      (congrArg (List.filterMap ConnectionAnswer.delivered) hanswers)⟩
    exact hother k rfl (by rw [hbegins]; rfl)

/-- A connection that is handed to its handler has shown nothing. -/
theorem passing_of_begins {stack : GuardStack G} {slot : SessionSlot}
    (h : Begins stack (some k) s) (hslot : s.stack.sessions[k]? = some slot)
    (hguarded : slot.session.allowed = false) :
    s.Passing stack.guards.length k slot.owner [] [] := by
  obtain ⟨slot', hslot', hlog, hcalls⟩ := h.attached k rfl
  obtain rfl := Option.some.inj (hslot.symm.trans hslot')
  refine ⟨⟨slot, hslot, rfl, hguarded⟩, .empty ?_ ?_, h.shown, (fun x hx => nomatch hx),
    fun j _ => ?_, ?_⟩
  · intro form c bytes hphase
    cases h.phase.symm.trans hphase
  · rintro c call hc hsession ⟨i, touched, bytes, hframe⟩
    exact hcalls call (List.mem_of_getElem? hc) hsession i touched bytes hframe
  · refine List.filterMap_eq_nil_iff.mpr fun r hr => ?_
    rw [CallbackRecord.acceptedPayload]
    split_ifs with hmine
    · cases hcallback : r.callback with
      | payload bytes => exact absurd hcallback (hlog r hr hmine.1 bytes)
      | _ => rfl
    · rfl
  · rw [delivered, h.answers]
    rfl

/-- The payloads of a guarded session, in every reachable state. -/
theorem exists_passing {stack : GuardStack G} {stream : ConnectionStream} {slot : SessionSlot}
    (h : (connectionSystem stack stream (some k)).Reach s)
    (hslot : s.stack.sessions[k]? = some slot) (hguarded : slot.session.allowed = false) :
    ∃ done hand, s.Passing stack.guards.length k slot.owner done hand := by
  have hall : ∃ slot, s.stack.sessions[k]? = some slot ∧ (slot.session.allowed = false →
      ∃ done hand, s.Passing stack.guards.length k slot.owner done hand) := by
    refine Transition.System.Reach.invariant (I := fun s : ConnectionState G =>
      ∃ slot, s.stack.sessions[k]? = some slot ∧ (slot.session.allowed = false →
        ∃ done hand, s.Passing stack.guards.length k slot.owner done hand)) ?_ ?_ h
    · intro s hbegins
      obtain ⟨slot, hslot, -⟩ := hbegins.attached k rfl
      exact ⟨slot, hslot, fun hguarded => ⟨[], [], passing_of_begins hbegins hslot hguarded⟩⟩
    · rintro s a s' hreach ⟨slot, hslot, hpassing⟩ hstep
      have hslot' : ∃ slot', s'.stack.sessions[k]? = some slot' ∧ slot'.owner = slot.owner ∧
          slot'.session.allowed = slot.session.allowed := by
        rcases (steps_of_next (stack_reach hreach).2 hstep).1.stack_next with hsame | ⟨b, hnext⟩
        · exact ⟨slot, by rw [hsame]; exact hslot, rfl, rfl⟩
        · exact StackState.slot_of_steps hslot (StackState.steps_of_next hnext)
      obtain ⟨slot', hslot', howner, hallowed⟩ := hslot'
      refine ⟨slot', hslot', fun hguarded => ?_⟩
      obtain ⟨done, hand, hpass⟩ := hpassing (hallowed.symm.trans hguarded)
      rw [howner]
      exact hpass.step hreach hstep
  obtain ⟨slot', hslot', hpassing⟩ := hall
  obtain rfl := Option.some.inj (hslot.symm.trans hslot')
  exact hpassing hguarded

/-- **Every payload passes the guards in order**, whatever happens on the stack between the steps of
the connection: each was shown to the session once, in the order of its bytes in the stream; every
guard accepted those that passed it, hence only payloads that the guards before it accepted; and the
handler got those that passed all guards, but for the one that is still in hand.

**Proof sketch.** Every step keeps the count of the guards that each payload has passed
(`Passing.step`), and what passed more guards also passed fewer. -/
theorem payloads_pass {stack : GuardStack G} {stream : ConnectionStream} {slot : SessionSlot}
    (h : (connectionSystem stack stream (some k)).Reach s)
    (hslot : s.stack.sessions[k]? = some slot) (hguarded : slot.session.allowed = false) :
    ∃ done hand : List (List UInt8 × ℕ),
      s.shown = past 0 (done ++ hand) ∧ s.shown.flatten.Sublist s.arrived ∧
      (s.Unhanded → hand = []) ∧
      (∀ j < stack.guards.length,
        s.stack.acceptedPayloads slot.owner j = past (j + 1) (done ++ hand) ∧
          s.delivered.Sublist (s.stack.acceptedPayloads slot.owner j)) ∧
      s.delivered = past stack.guards.length done := by
  obtain ⟨done, hand, hpass⟩ := exists_passing h hslot hguarded
  refine ⟨done, hand, hpass.shown.trans (past_zero _).symm, ?_, hpass.inHand.eq_nil,
    fun j hj => ⟨hpass.accepted j hj, ?_⟩, hpass.delivered⟩
  · exact (List.sublist_append_left _ _).trans (stack_reach h).2
  · rw [hpass.accepted j hj, hpass.delivered, past_append]
    exact (past_sublist_past hj done).trans (List.sublist_append_left _ _)

/-- Two payload guards; the second one wants longer payloads. -/
def probedStack : GuardStack UdpAmplificationGuard where
  guards := [⟨{ minimumProbeBytes := 2 }⟩, ⟨{}⟩]
  observer := false
  allowlist := .new

/-- Both reserve a session for `10.0.0.1`. -/
def probedReserve : List (StackAction UdpAmplificationGuard) :=
  [.reserve (.new (.v4 (ipv4 10 0 0 1) 1001) none false 0), .advance 0 0, .advance 0 0,
    .advance 0 0]

/-- The connection of this session. -/
def probedStart : ConnectionState UdpAmplificationGuard where
  stack := StackState.after probedStack probedReserve
  phase := .idle
  arrived := []
  sent := []
  shown := []
  answers := []

/-- It reads two bytes, which the second guard refuses, and then four. -/
def probedState : ConnectionState UdpAmplificationGuard :=
  Transition.System.after (next .async (some 0)) probedStart
    ([.call (.read 8192), .arrive (.ok [71, 69])] ++
      List.replicate 4 (.stack (.advance 1 0)) ++
      [.answer, .call (.read 8192), .arrive (.ok [71, 69, 84, 32])] ++
      List.replicate 5 (.stack (.advance 2 0)) ++ [.answer])

/-- The handler gets the four bytes, which both guards have accepted. -/
theorem payloads_pass_probedState :
    probedState.shown = [[71, 69], [71, 69, 84, 32]] ∧
      probedState.delivered = [[71, 69, 84, 32]] ∧
      probedState.delivered.Sublist (probedState.stack.acceptedPayloads 0 1) := by
  have hbegins : Begins probedStack (some 0) probedStart := by
    have hstack : (StackState.system probedStack fun _ _ => True).Reach
        (StackState.after probedStack probedReserve) :=
      StackState.reach_after (by simp [probedReserve])
    have hlog : ∀ r ∈ probedStart.stack.log, r.callback = .reserve := by decide +kernel
    have hcalls : ∀ call ∈ probedStart.stack.calls, call.session = none := by decide +kernel
    refine ⟨hstack, fun k hk => ?_, rfl, rfl, rfl, rfl, rfl⟩
    obtain rfl := Option.some.inj hk
    refine ⟨⟨.fresh (.new (.v4 (ipv4 10 0 0 1) 1001) none false 0) false, 0, false⟩,
      by decide +kernel, fun r hr _ bytes hshown => ?_, fun call hcall hsession => ?_⟩
    · cases (hlog r hr).symm.trans hshown
    · cases (hcalls call hcall).symm.trans hsession
  have hreach : (connectionSystem probedStack .async (some 0)).Reach probedState :=
    Transition.System.reach_after (.init hbegins) fun _ _ _ _ hnext => hnext
  have hslot : probedState.stack.sessions[0]? =
      some ⟨.fresh (.new (.v4 (ipv4 10 0 0 1) 1001) none false 0) false, 0, false⟩ := by
    decide +kernel
  obtain ⟨done, hand, -, -, -, haccepted, -⟩ := payloads_pass hreach hslot rfl
  exact ⟨by decide +kernel, by decide +kernel, (haccepted 1 (by decide)).2⟩

end ConnectionState

end Synclaire
