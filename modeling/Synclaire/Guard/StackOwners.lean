import Synclaire.Guard.SessionLife

set_option relaxedAutoImplicit false
set_option autoImplicit false

/-!
# Who owns a call

Every call on a stack belongs to a reservation: the reservation to itself, and a call on a session
to the reservation that returned the session. Two sessions can have equal contexts, but never one
owner, so the callbacks of a session are those recorded with its owner.

## Main definitions

* `Synclaire.StackAction.begins` — the call on a session that an action begins.
* `Synclaire.StackState.word` — the callbacks a guard received for an owner.
* `Synclaire.StackState.Steps` — the steps of a stack, as its tables see them.
* `Synclaire.StackState.Owned` — calls and sessions have their owners.
* `Synclaire.StackState.Asked` — a reservation has asked the guards before its own.

## Main results

* `Synclaire.StackState.steps_of_next` — what a step of the machine does.
* `Synclaire.StackState.Owned.eq_of_owner` — a running reservation owns no other call.
* `Synclaire.StackState.owned_asked_of_reach` — both invariants hold in every reachable state.
-/

namespace Synclaire

/-- The session and the call on it that an action begins. -/
def StackAction.begins {G : Type*} : StackAction G → Option (ℕ × SessionCall)
  | .markEstablished k => some (k, .markEstablished)
  | .recordPayload k bytes => some (k, .recordPayload bytes)
  | .touch k => some (k, .touch)
  | .close k => some (k, .close)
  | .drop k => some (k, .drop)
  | _ => none

namespace StackState

variable {G : Type*}

/-- The callbacks that guard `j` received for the `reserve` call `owner` and its session. -/
def word (s : StackState G) (owner j : ℕ) : List Callback :=
  (s.log.filter fun r => r.owner = owner && r.guard = j).map CallbackRecord.callback

/-- The owners of the sessions. -/
def owners (s : StackState G) : List ℕ := s.sessions.map SessionSlot.owner

/-! ## What a step does -/

/-- The steps of a machine. -/
inductive Steps [Guard G] (s : StackState G) : StackAction G → StackState G → Prop
  | begin {a : StackAction G} {k : ℕ} {call : SessionCall} {slot : SessionSlot}
      (hbegins : a.begins = some (k, call)) (hslot : s.sessions[k]? = some slot)
      (hdropped : slot.dropped = false) :
      Steps s a { s with
        sessions := s.sessions.set k (call.first slot).1
        calls := s.calls ++
          [⟨slot.owner, some k, slot.session.context, (call.first slot).2⟩] }
  | pass {ctx : GuardContext} :
      Steps s (.reserve ctx) { s with
        sessions := s.sessions ++ [⟨.fresh ctx true, s.calls.length, false⟩]
        calls := s.calls ++ [⟨s.calls.length, none, ctx, .returned (.ok ())⟩] }
  | ask {ctx : GuardContext} :
      Steps s (.reserve ctx)
        { s with calls := s.calls ++ [⟨s.calls.length, none, ctx, .reserve 0⟩] }
  | grant {c i : ℕ} {now : Instant} {call : StackCall} (hc : s.calls[c]? = some call)
      (hframe : call.frame = .reserve i) (hi : s.guards.length ≤ i) :
      Steps s (.advance c now) ((s.addSession call).moveTo c call (.returned (.ok ())))
  | finish {c : ℕ} {now : Instant} {call : StackCall} {events : List GuardEvent}
      {result : Except SynError Unit} (hc : s.calls[c]? = some call)
      (hfinished : Finished s.guards.length call.context now call.frame events result) :
      Steps s (.advance c now) ((s.emit events).moveTo c call (.returned result))
  | visit {c i : ℕ} {now : Instant} {call : StackCall} {g g' : G} {callback : Callback}
      {result : Except SynError Unit} {events : List GuardEvent} {frame : StackFrame}
      (hc : s.calls[c]? = some call) (hg : s.guards[i]? = some g)
      (hvisit : Visit g call.context now i call.frame callback result g' events frame) :
      Steps s (.advance c now) (s.visited c call i g' callback result events frame)
  | other {a : StackAction G} {s' : StackState G} (hbegins : a.begins = none)
      (hsessions : s'.sessions = s.sessions) (hcalls : s'.calls = s.calls)
      (hlog : s'.log = s.log) : Steps s a s'

/-- **What a step does**: the steps are all that `next` takes. -/
theorem steps_of_next [Guard G] {s s' : StackState G} {a : StackAction G}
    (h : s.next a = some s') : Steps s a s' := by
  have hbegin : ∀ {k : ℕ} {call : SessionCall}, a.begins = some (k, call) →
      s.beginOn k call.first = some s' → Steps s a s' := by
    intro k call hbegins hon
    obtain ⟨slot, hslot, hdropped, rfl⟩ := beginOn_cases hon
    exact .begin hbegins hslot hdropped
  cases a with
  | reserve ctx =>
    obtain rfl := Option.some.inj h
    unfold beginReserve
    split_ifs
    · exact .pass
    · exact .ask
  | markEstablished k => exact @hbegin k .markEstablished rfl h
  | recordPayload k bytes => exact @hbegin k (.recordPayload bytes) rfl h
  | touch k => exact @hbegin k .touch rfl h
  | close k => exact @hbegin k .close rfl h
  | drop k => exact @hbegin k .drop rfl (beginOn_of_drop h)
  | advance c now =>
    obtain ⟨call, hc, hadvance⟩ := advanceCall_of_advance h
    rcases advanceCall_cases hadvance with ⟨i, hframe, hi, rfl⟩ |
      ⟨events, result, hfinished, rfl⟩ |
      ⟨i, g, callback, result, g', events, frame, hg, hvisit, rfl⟩
    · exact .grant hc hframe hi
    · exact .finish hc hfinished
    · exact .visit hc hg hvisit
  | allow ip | remove ip | clear =>
    obtain rfl := Option.some.inj h
    exact .other rfl rfl rfl rfl
  | env i g =>
    obtain ⟨-, rfl⟩ := eq_of_env h
    exact .other rfl rfl rfl rfl

/-! ## Who owns a call -/

/-- The owner of a session. -/
theorem getElem?_owners {s : StackState G} {k : ℕ} {slot : SessionSlot}
    (h : s.sessions[k]? = some slot) : s.owners[k]? = some slot.owner := by
  rw [owners, List.getElem?_map, h]
  rfl

/-- A call that begins leaves the owners alone. -/
theorem owners_first {s : StackState G} {k : ℕ} {slot : SessionSlot}
    (h : s.sessions[k]? = some slot) (call : SessionCall) :
    (s.sessions.set k (call.first slot).1).map SessionSlot.owner = s.owners := by
  obtain ⟨hk, heq⟩ := List.getElem?_eq_some_iff.mp (getElem?_owners h)
  rw [List.map_set, (call.first_allowed_owner slot).2, ← heq]
  exact List.set_getElem_self hk

/-- Every call belongs to a reservation: a reservation to itself, and a call on a session to the
reservation that returned the session, which is over and returned no other. -/
structure Owned (calls : List StackCall) (owners : List ℕ) : Prop where
  reservation : ∀ (c : ℕ) (call : StackCall), calls[c]? = some call → call.session = none →
    call.owner = c
  session : ∀ (c : ℕ) (call : StackCall) (k : ℕ), calls[c]? = some call →
    call.session = some k → owners[k]? = some call.owner
  admitted : ∀ o ∈ owners, ∃ call, calls[o]? = some call ∧ call.isReturned = true
  nodup : owners.Nodup
  frame : ∀ (c : ℕ) (call : StackCall) (i : ℕ), calls[c]? = some call →
    call.frame = .reserve i → call.session = none

section Owned

variable {calls : List StackCall} {owners : List ℕ}

/-- The owner of a call is a call. -/
theorem Owned.owner_lt (h : Owned calls owners) {c : ℕ} {call : StackCall}
    (hc : calls[c]? = some call) : call.owner < calls.length := by
  cases hsession : call.session with
  | none =>
    rw [h.reservation c call hc hsession]
    exact (List.getElem?_eq_some_iff.mp hc).1
  | some k =>
    obtain ⟨owner, howner, -⟩ :=
      h.admitted _ (List.mem_of_getElem? (h.session c call k hc hsession))
    exact (List.getElem?_eq_some_iff.mp howner).1

/-- A reservation that is still running owns no session. -/
theorem Owned.owner_not_mem (h : Owned calls owners) {c : ℕ} {call : StackCall}
    (hc : calls[c]? = some call) (hsession : call.session = none)
    (hrunning : call.isReturned = false) : call.owner ∉ owners := by
  intro hmem
  obtain ⟨owner, howner, hreturned⟩ := h.admitted _ hmem
  rw [h.reservation c call hc hsession, hc] at howner
  obtain rfl := Option.some.inj howner
  rw [hrunning] at hreturned
  cases hreturned

/-- A reservation that is still running owns no other call. -/
theorem Owned.eq_of_owner (h : Owned calls owners) {c c' : ℕ} {call call' : StackCall}
    (hc : calls[c]? = some call) (hsession : call.session = none)
    (hrunning : call.isReturned = false) (hc' : calls[c']? = some call')
    (howner : call'.owner = call.owner) : c' = c := by
  cases hsession' : call'.session with
  | none =>
    rw [← h.reservation c' call' hc' hsession', howner, h.reservation c call hc hsession]
  | some k =>
    have hmem := List.mem_of_getElem? (h.session c' call' k hc' hsession')
    rw [howner] at hmem
    exact absurd hmem (h.owner_not_mem hc hsession hrunning)

/-- A running call that is not on session `k` has another owner. -/
theorem Owned.owner_ne (h : Owned calls owners) {c k o : ℕ} {call : StackCall}
    (hc : calls[c]? = some call) (hrunning : call.isReturned = false)
    (ho : owners[k]? = some o) (hother : call.session ≠ some k) : call.owner ≠ o := by
  rintro rfl
  cases hsession : call.session with
  | none => exact h.owner_not_mem hc hsession hrunning (List.mem_of_getElem? ho)
  | some k' =>
    obtain ⟨hk', hat'⟩ := List.getElem?_eq_some_iff.mp (h.session c call k' hc hsession)
    obtain ⟨hk, hat⟩ := List.getElem?_eq_some_iff.mp ho
    have hsame : k' = k := h.nodup.getElem_inj_iff.mp (hat'.trans hat.symm)
    exact hother (hsession.trans (congrArg some hsame))

/-- A new call belongs to itself or to the session it is on. -/
theorem Owned.append (h : Owned calls owners) {call : StackCall}
    (hreservation : call.session = none → call.owner = calls.length)
    (hsession : ∀ k, call.session = some k → owners[k]? = some call.owner)
    (hframe : ∀ i, call.frame = .reserve i → call.session = none) :
    Owned (calls ++ [call]) owners where
  reservation c call' hc hnone := by
    rcases Table.getElem?_append_singleton.mp hc with hc | ⟨rfl, rfl⟩
    · exact h.reservation c call' hc hnone
    · exact hreservation hnone
  session c call' k hc hk := by
    rcases Table.getElem?_append_singleton.mp hc with hc | ⟨rfl, rfl⟩
    · exact h.session c call' k hc hk
    · exact hsession k hk
  admitted o ho := by
    obtain ⟨owner, howner, hreturned⟩ := h.admitted o ho
    exact ⟨owner, Table.getElem?_append_singleton.mpr (.inl howner), hreturned⟩
  nodup := h.nodup
  frame c call' i hc hi := by
    rcases Table.getElem?_append_singleton.mp hc with hc | ⟨rfl, rfl⟩
    · exact h.frame c call' i hc hi
    · exact hframe i hi

/-- A running call that moves on keeps its owner. -/
theorem Owned.set (h : Owned calls owners) {c : ℕ} {call : StackCall}
    (hc : calls[c]? = some call) (hrunning : call.isReturned = false) {frame : StackFrame}
    (hframe : ∀ i, frame = .reserve i → call.session = none) :
    Owned (calls.set c { call with frame }) owners where
  reservation c' call' hc' hnone := by
    rcases (Table.getElem?_set_eq_some hc).mp hc' with ⟨rfl, rfl⟩ | ⟨-, hc'⟩
    · exact h.reservation c' call hc hnone
    · exact h.reservation c' call' hc' hnone
  session c' call' k hc' hk := by
    rcases (Table.getElem?_set_eq_some hc).mp hc' with ⟨rfl, rfl⟩ | ⟨-, hc'⟩
    · exact h.session c' call k hc hk
    · exact h.session c' call' k hc' hk
  admitted o ho := by
    obtain ⟨owner, howner, hreturned⟩ := h.admitted o ho
    have hne : o ≠ c := by
      rintro rfl
      rw [hc] at howner
      obtain rfl := Option.some.inj howner
      rw [hrunning] at hreturned
      cases hreturned
    exact ⟨owner, (Table.getElem?_set_eq_some hc).mpr (.inr ⟨hne, howner⟩), hreturned⟩
  nodup := h.nodup
  frame c' call' i hc' hi := by
    rcases (Table.getElem?_set_eq_some hc).mp hc' with ⟨rfl, rfl⟩ | ⟨-, hc'⟩
    · exact hframe i hi
    · exact h.frame c' call' i hc' hi

/-- A reservation that is over may own one session. -/
theorem Owned.append_owner (h : Owned calls owners) {o : ℕ} {owner : StackCall}
    (howner : calls[o]? = some owner) (hreturned : owner.isReturned = true)
    (hnew : o ∉ owners) : Owned calls (owners ++ [o]) where
  reservation := h.reservation
  session c call k hc hk :=
    Table.getElem?_append_singleton.mpr (.inl (h.session c call k hc hk))
  admitted o' ho' := by
    rcases List.mem_append.mp ho' with ho' | ho'
    · exact h.admitted o' ho'
    · obtain rfl := List.mem_singleton.mp ho'
      exact ⟨owner, howner, hreturned⟩
  nodup := List.nodup_append.mpr ⟨h.nodup, List.nodup_singleton o, by
    rintro o' ho' o'' ho''
    obtain rfl := List.mem_singleton.mp ho''
    rintro rfl
    exact hnew ho'⟩
  frame := h.frame

end Owned

/-- Only a reservation goes on as a reservation. -/
theorem Visit.reserve [Guard G] {g g' : G} {ctx : GuardContext} {now : Instant} {i i' : ℕ}
    {frame : StackFrame} {callback : Callback} {result : Except SynError Unit}
    {events : List GuardEvent}
    (h : Visit g ctx now i frame callback result g' events (.reserve i')) :
    frame = .reserve i ∧ callback = .reserve ∧ i' = i + 1 := by
  cases h with
  | reserveOk _ => exact ⟨rfl, rfl, rfl⟩

/-- A call that visits a guard has not returned. -/
theorem Visit.running [Guard G] {g g' : G} {ctx : GuardContext} {now : Instant} {i : ℕ}
    {call : StackCall} {frame : StackFrame} {callback : Callback} {result : Except SynError Unit}
    {events : List GuardEvent}
    (h : Visit g ctx now i call.frame callback result g' events frame) :
    call.isReturned = false := by
  unfold StackCall.isReturned
  generalize call.frame = before at h
  cases h <;> rfl

/-- A call that returns has not returned before. -/
theorem Finished.running {n : ℕ} {ctx : GuardContext} {now : Instant} {call : StackCall}
    {events : List GuardEvent} {result : Except SynError Unit}
    (h : Finished n ctx now call.frame events result) : call.isReturned = false := by
  unfold StackCall.isReturned
  generalize call.frame = before at h
  cases h <;> rfl

/-- A reservation that is not over has not returned. -/
theorem isReturned_of_reserve {call : StackCall} {i : ℕ} (h : call.frame = .reserve i) :
    call.isReturned = false := by
  unfold StackCall.isReturned
  rw [h]

/-- The first step of a call on a session is not one of a reservation. -/
theorem first_ne_reserve (call : SessionCall) (slot : SessionSlot) (i : ℕ) :
    (call.first slot).2 ≠ .reserve i := by
  have hfirst := call.begins_first slot
  generalize (call.first slot).1 = slot' at hfirst
  intro hreserve
  rw [hreserve] at hfirst
  cases hfirst

/-- Every step keeps the owners in order. -/
theorem Owned.step [Guard G] {s s' : StackState G} {a : StackAction G}
    (h : Owned s.calls s.owners) (hst : Steps s a s') : Owned s'.calls s'.owners := by
  cases hst with
  | @begin _ k call slot hbegins hslot hdropped =>
    have howner := getElem?_owners hslot
    show Owned _ ((s.sessions.set k (call.first slot).1).map SessionSlot.owner)
    rw [owners_first hslot call]
    refine h.append nofun ?_ fun i hi => absurd hi (first_ne_reserve call slot i)
    rintro k' hk'
    obtain rfl := Option.some.inj hk'
    exact howner
  | @pass ctx =>
    have happend : Owned (s.calls ++ [⟨s.calls.length, none, ctx, .returned (.ok ())⟩])
        s.owners := h.append (fun _ => rfl) nofun nofun
    have hnew : s.calls.length ∉ s.owners := by
      intro hmem
      obtain ⟨owner, howner, -⟩ := h.admitted _ hmem
      exact absurd (List.getElem?_eq_some_iff.mp howner).1 (Nat.lt_irrefl _)
    have howned := happend.append_owner
      (Table.getElem?_append_singleton.mpr (.inr ⟨rfl, rfl⟩)) rfl hnew
    rw [owners, List.map_append]
    exact howned
  | ask => exact h.append (fun _ => rfl) nofun fun _ _ => rfl
  | @grant c i now call hc hframe hi =>
    have hrunning := isReturned_of_reserve hframe
    have hsession := h.frame c call i hc hframe
    have hself := h.reservation c call hc hsession
    have hnew := h.owner_not_mem hc hsession hrunning
    have hset : Owned (s.calls.set c { call with frame := .returned (.ok ()) }) s.owners :=
      h.set hc hrunning nofun
    have howned := hset.append_owner
      ((Table.getElem?_set_eq_some hc).mpr (.inl ⟨hself, rfl⟩)) rfl hnew
    show Owned _ ((s.sessions ++ [_]).map SessionSlot.owner)
    rw [List.map_append]
    exact howned
  | finish hc hfinished => exact h.set hc hfinished.running nofun
  | @visit c i now call g g' callback result events frame hc hg hvisit =>
    refine h.set hc hvisit.running fun i' hi' => ?_
    subst hi'
    exact h.frame c call i hc hvisit.reserve.1
  | other _ hsessions hcalls _ =>
    rw [owners, hsessions, hcalls]
    exact h

/-! ## What a reservation has asked -/

/-- A callback is the last letter of the word of its guard and its owner. -/
theorem word_visited (s : StackState G) (c i : ℕ) (call : StackCall) (g : G)
    (callback : Callback) (result : Except SynError Unit) (events : List GuardEvent)
    (frame : StackFrame) (o j : ℕ) :
    (s.visited c call i g callback result events frame).word o j =
      s.word o j ++ if call.owner = o ∧ i = j then [callback] else [] := by
  show ((s.log ++ [_]).filter _).map _ = _
  rw [List.filter_append, List.map_append]
  congr 1
  by_cases hmine : call.owner = o ∧ i = j
  · rw [if_pos hmine, List.filter_cons_of_pos (by simpa using hmine)]
    rfl
  · rw [if_neg hmine, List.filter_cons_of_neg (by simpa using hmine)]
    rfl

/-- A call that has not begun has no callbacks, and a reservation that has come to guard `i` has
asked the guards before it. -/
structure Asked (s : StackState G) : Prop where
  later : ∀ o j : ℕ, s.calls.length ≤ o → s.word o j = []
  asked : ∀ (c : ℕ) (call : StackCall) (i j : ℕ), s.calls[c]? = some call →
    call.frame = .reserve i → s.word call.owner j = if j < i then [.reserve] else []

/-- A step without callbacks, in which a reservation begins at most with guard `0`. -/
theorem Asked.congr {s s' : StackState G} (h : Asked s) (hlog : s'.log = s.log)
    (hlen : s.calls.length ≤ s'.calls.length)
    (hcalls : ∀ (c : ℕ) (call : StackCall) (i : ℕ), s'.calls[c]? = some call →
      call.frame = .reserve i →
        s.calls[c]? = some call ∨ s.calls.length ≤ call.owner ∧ i = 0) : Asked s' := by
  have hword : s'.word = s.word := by
    unfold word
    rw [hlog]
  refine ⟨fun o j ho => ?_, fun c call i j hc hi => ?_⟩
  · rw [hword]
    exact h.later o j (hlen.trans ho)
  · rw [hword]
    rcases hcalls c call i hc hi with hold | ⟨hnew, rfl⟩
    · exact h.asked c call i j hold hi
    · rw [h.later _ j hnew, if_neg (Nat.not_lt_zero j)]

/-- Every step keeps the words of the reservations.

**Proof sketch.** Only a visit records a callback. A visit by another call has another owner, as
a running reservation owns no other call, and a visit by the reservation itself asks the next
guard. -/
theorem Asked.step [Guard G] {s s' : StackState G} {a : StackAction G} (h : Asked s)
    (hown : Owned s.calls s.owners) (hst : Steps s a s') : Asked s' := by
  have hset : ∀ {c : ℕ} {call : StackCall} {frame : StackFrame}, s.calls[c]? = some call →
      (∀ i, frame ≠ .reserve i) → ∀ (c' : ℕ) (call' : StackCall) (i : ℕ),
      (s.calls.set c { call with frame })[c']? = some call' → call'.frame = .reserve i →
        s.calls[c']? = some call' ∨ s.calls.length ≤ call'.owner ∧ i = 0 := by
    intro c call frame hc hframe c' call' i hc' hi
    rcases (Table.getElem?_set_eq_some hc).mp hc' with ⟨rfl, rfl⟩ | ⟨-, hc'⟩
    · exact absurd hi (hframe i)
    · exact .inl hc'
  have happend : ∀ {call : StackCall},
      (∀ i, call.frame = .reserve i → s.calls.length ≤ call.owner ∧ i = 0) →
      ∀ (c' : ℕ) (call' : StackCall) (i : ℕ), (s.calls ++ [call])[c']? = some call' →
        call'.frame = .reserve i →
          s.calls[c']? = some call' ∨ s.calls.length ≤ call'.owner ∧ i = 0 := by
    intro call hframe c' call' i hc' hi
    rcases Table.getElem?_append_singleton.mp hc' with hc' | ⟨rfl, rfl⟩
    · exact .inl hc'
    · exact .inr (hframe i hi)
  cases hst with
  | @begin _ k call slot hbegins hslot hdropped =>
    exact h.congr rfl (by simp)
      (happend fun i hi => absurd hi (first_ne_reserve call slot i))
  | pass => exact h.congr rfl (by simp) (happend fun _ hi => by cases hi)
  | ask =>
    refine h.congr rfl (by simp) (happend fun i hi => ⟨le_rfl, ?_⟩)
    cases hi
    rfl
  | grant hc _ _ =>
    exact h.congr rfl (by simp [moveTo, addSession]) (hset hc fun _ => by simp)
  | finish hc _ => exact h.congr rfl (by simp [moveTo, emit]) (hset hc fun _ => by simp)
  | @visit c i now call g g' callback result events frame hc hg hvisit =>
    refine ⟨fun o j ho => ?_, fun c' call' i' j hc' hi' => ?_⟩
    · have hlen : s.calls.length ≤ o := by
        simpa [visited, moveTo, emit, record] using ho
      have hlt := hown.owner_lt hc
      rw [word_visited, h.later o j hlen, if_neg (by omega)]
      rfl
    · rcases (Table.getElem?_set_eq_some hc).mp hc' with ⟨rfl, rfl⟩ | ⟨hne, hc'⟩
      · dsimp only at hi'
        subst hi'
        obtain ⟨hframe, rfl, rfl⟩ := hvisit.reserve
        rw [word_visited, h.asked c' call i j hc hframe]
        by_cases hij : i = j
        · subst hij
          simp
        · have hother : ¬ (call.owner = call.owner ∧ i = j) := fun hboth => hij hboth.2
          rw [if_neg hother, List.append_nil]
          exact if_congr (by omega) rfl rfl
      · have hrunning := isReturned_of_reserve hi'
        have howner : ¬ (call.owner = call'.owner ∧ i = j) := fun hboth =>
          hne (hown.eq_of_owner hc' (hown.frame c' call' i' hc' hi') hrunning hc hboth.1).symm
        rw [word_visited, h.asked c' call' i' j hc' hi', if_neg howner, List.append_nil]
  | other _ _ hcalls hlog =>
    refine h.congr hlog (by rw [hcalls]) fun c call i hc _ => .inl ?_
    rw [← hcalls]
    exact hc

/-- In every reachable state the calls have owners and the reservations have asked. -/
theorem owned_asked_of_reach [Guard G] {stack : GuardStack G} {env : G → G → Prop}
    {s : StackState G} (h : (system stack env).Reach s) :
    Owned s.calls s.owners ∧ Asked s := by
  refine Transition.System.Reach.invariant
    (I := fun s : StackState G => Owned s.calls s.owners ∧ Asked s) ?_ ?_ h
  · rintro _ rfl
    have hnone : ∀ (c : ℕ) (call : StackCall), (start stack).calls[c]? ≠ some call := by
      intro c call
      simp [start]
    refine ⟨⟨?_, ?_, ?_, List.nodup_nil, ?_⟩, ⟨fun _ _ _ => rfl, ?_⟩⟩
    · exact fun c call hc => absurd hc (hnone c call)
    · exact fun c call _ hc => absurd hc (hnone c call)
    · exact fun o ho => absurd ho List.not_mem_nil
    · exact fun c call _ hc => absurd hc (hnone c call)
    · exact fun c call _ _ hc => absurd hc (hnone c call)
  · rintro s a s' - ⟨hown, hasked⟩ hst
    exact ⟨hown.step (steps_of_next hst.1), hasked.step hown (steps_of_next hst.1)⟩

end StackState

end Synclaire
