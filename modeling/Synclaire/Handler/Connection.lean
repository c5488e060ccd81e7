import Synclaire.Guard.StackOwners

set_option relaxedAutoImplicit false
set_option autoImplicit false

/-!
# The connection of a handler

A handler reads and writes through a `Connection`. What a read delivered is shown to the guards of
the connection's session before the handler gets it, and a write touches the session. The connection
is one of many on its stack: between any two of its steps other sessions and their calls move on.

## Main definitions

* `Synclaire.ConnectionOp`, `Synclaire.ConnectionAnswer` — the functions of a connection, and what
  they return.
* `Synclaire.ConnectionState` — a connection, the stack its session belongs to, and the bytes.
* `Synclaire.ConnectionState.next` — the step function.
* `Synclaire.ConnectionState.delivered` — what the handler got by `read` and `read_exact`.
* `Synclaire.connectionSystem` — the runs of a connection that a server has handed to its handler.

## Main results

* `Synclaire.ConnectionState.stack_of_next` — what a step does to the stack.
* `Synclaire.ConnectionState.stack_reach` — the stack of a reachable connection is reachable.

## Implementation notes

The public functions cannot take the stream out of a connection that stays, so the connections of
handlers have theirs, and the errors for a missing one are left out. A connection whose stream is
taken out (`into_stream`) is dropped, and its session is closed by the drop.

A function that awaits the stream may be given up at that point, by a timeout or a `select!`. The
stream itself is open to the handler (`stream_mut`), and no guard sees what it reads there. The
bytes of a stream are those it delivers: with TLS, the decrypted ones. A panic unwinds the handler,
which then drops the connection; here it is an answer, after which the drop may follow.
-/

namespace Synclaire

/-- `ConnectionStream`. -/
inductive ConnectionStream
  | async
  | sync
  deriving DecidableEq

/-- A function of a connection; `room` and `want` are the lengths of the buffers. -/
inductive ConnectionOp
  | read (room : ℕ)
  | readExact (want : ℕ)
  | writeAll (bytes : List UInt8)
  | flush
  | shutdown
  deriving DecidableEq

/-- What a function returned. For the reads it is the content of the buffer. -/
inductive ConnectionAnswer
  | read (result : Except SynError (List UInt8))
  | readExact (result : Except SynError (List UInt8))
  | writeAll (result : Except SynError Unit)
  | flush (result : Except SynError Unit)
  | shutdown (result : Except SynError Unit)
  /-- `expect("async stream")`. -/
  | panicked
  deriving DecidableEq

/-- Which read shows its bytes to the guards. -/
inductive ReadForm
  | read
  | readExact
  deriving DecidableEq

/-- How far a function of a connection has come. -/
inductive ConnectionPhase
  | idle
  /-- `read` awaits the stream. -/
  | reading (room : ℕ)
  /-- `read_exact` awaits the rest of its bytes. -/
  | filling (want : ℕ) (filled : List UInt8)
  /-- `write_all` awaits that the stream takes these bytes. -/
  | writing (rest : List UInt8)
  | flushing
  | shuttingDown
  /-- Call `c` of the stack shows these bytes to the guards. -/
  | recording (form : ReadForm) (c : ℕ) (bytes : List UInt8)
  /-- Call `c` of the stack touches the session. -/
  | touching (c : ℕ)
  /-- The connection was dropped. -/
  | gone
  deriving DecidableEq

/-- A connection, with the stack its session belongs to. -/
structure ConnectionState (G : Type*) where
  stack : StackState G
  phase : ConnectionPhase
  /-- The bytes that the stream delivered. -/
  arrived : List UInt8
  /-- The bytes that the stream took. -/
  sent : List UInt8
  /-- The payloads shown to the session, in order. -/
  shown : List (List UInt8)
  /-- What the functions of the connection returned, in order. -/
  answers : List ConnectionAnswer

/-- A step of a connection, or of the others on its stack. -/
inductive ConnectionAction (G : Type*)
  /-- The handler calls a function. -/
  | call (op : ConnectionOp)
  /-- The stream delivers bytes to a read; none at its end. -/
  | arrive (bytes : Except Str (List UInt8))
  /-- The stream takes the first `n` bytes of a write. -/
  | take (n : Except Str ℕ)
  /-- The stream was flushed or shut down. -/
  | complete (result : Except Str Unit)
  /-- The call on the session has returned. -/
  | answer
  /-- The function that awaits the stream is given up. -/
  | abandon
  /-- The handler reads from the stream itself. -/
  | bypass (bytes : List UInt8)
  /-- The connection is dropped, or its stream taken out. -/
  | drop
  /-- Something else happens on the stack. -/
  | stack (a : StackAction G)

/-- The answer of a read. -/
def ReadForm.answer : ReadForm → Except SynError (List UInt8) → ConnectionAnswer
  | .read, result => .read result
  | .readExact, result => .readExact result

/-- What the handler got from an answer; the end of the stream is nothing. -/
def ConnectionAnswer.delivered : ConnectionAnswer → Option (List UInt8)
  | .read (.ok (b :: rest)) => some (b :: rest)
  | .readExact (.ok bytes) => some bytes
  | _ => none

namespace ConnectionState

variable {G : Type*}

/-- The payloads that the handler got. -/
def delivered (s : ConnectionState G) : List (List UInt8) :=
  s.answers.filterMap ConnectionAnswer.delivered

/-- A function returns. -/
def finish (s : ConnectionState G) (answer : ConnectionAnswer) : ConnectionState G :=
  { s with phase := .idle, answers := s.answers ++ [answer] }

variable [Guard G]

/-- The end of a read that delivered bytes: `record_payload`, if there is a session. -/
def present (session : Option ℕ) (s : ConnectionState G) (form : ReadForm)
    (bytes : List UInt8) : Option (ConnectionState G) :=
  match session with
  | none => some (s.finish (form.answer (.ok bytes)))
  | some k => (s.stack.next (.recordPayload k bytes)).map fun stack =>
    { s with
      stack
      phase := .recording form s.stack.calls.length bytes
      shown := s.shown ++ [bytes] }

/-- The loop of `read_exact`, with its buffer filled so far. -/
def fill (session : Option ℕ) (s : ConnectionState G) (want : ℕ) (filled : List UInt8) :
    Option (ConnectionState G) :=
  if filled.length = want then s.present session .readExact filled
  else some { s with phase := .filling want filled }

/-- The loop of `write_all`, and `touch` after it, if there is a session. -/
def write (session : Option ℕ) (s : ConnectionState G) (rest : List UInt8) :
    Option (ConnectionState G) :=
  if rest = [] then
    match session with
    | none => some (s.finish (.writeAll (.ok ())))
    | some k => (s.stack.next (.touch k)).map fun stack =>
      { s with stack, phase := .touching s.stack.calls.length }
  else some { s with phase := .writing rest }

/-- A function is called. -/
def begin (stream : ConnectionStream) (session : Option ℕ) (s : ConnectionState G) :
    ConnectionOp → Option (ConnectionState G)
  | .read room =>
    match stream with
    | .async => some { s with phase := .reading room }
    | .sync =>
      some (s.finish (.read (.error (.connectionError "async stream required".toList))))
  | .readExact want =>
    match stream with
    | .async => s.fill session want []
    | .sync =>
      some (s.finish (.readExact (.error (.connectionError "async stream required".toList))))
  | .writeAll bytes =>
    match stream with
    | .async => s.write session bytes
    | .sync => some (s.finish .panicked)
  | .flush =>
    match stream with
    | .async => some { s with phase := .flushing }
    | .sync => some (s.finish .panicked)
  | .shutdown =>
    match stream with
    | .async => some { s with phase := .shuttingDown }
    | .sync =>
      some (s.finish (.shutdown (.error (.connectionError "async stream required".toList))))

/-- The stream answers a read. -/
def arriveAt (session : Option ℕ) (s : ConnectionState G) (bytes : Except Str (List UInt8)) :
    Option (ConnectionState G) :=
  match s.phase, bytes with
  | .reading _, .error e => some (s.finish (.read (.error (.io e))))
  | .reading room, .ok bytes =>
    if room < bytes.length then none
    -- the end of the stream is not shown
    else if bytes = [] then some (s.finish (.read (.ok [])))
    else present session { s with arrived := s.arrived ++ bytes } .read bytes
  | .filling _ _, .error e => some (s.finish (.readExact (.error (.io e))))
  | .filling want filled, .ok bytes =>
    if want < filled.length + bytes.length then none
    else if bytes = [] then some (s.finish (.readExact (.error (.io "early eof".toList))))
    else fill session { s with arrived := s.arrived ++ bytes } want (filled ++ bytes)
  | _, _ => none

/-- The stream answers a write. -/
def takeFrom (session : Option ℕ) (s : ConnectionState G) (n : Except Str ℕ) :
    Option (ConnectionState G) :=
  match s.phase, n with
  | .writing _, .error e => some (s.finish (.writeAll (.error (.io e))))
  | .writing rest, .ok n =>
    if rest.length < n then none
    else if n = 0 then some (s.finish (.writeAll (.error (.io "write zero".toList))))
    else write session { s with sent := s.sent ++ rest.take n } (rest.drop n)
  | _, _ => none

/-- What the call on the session returned, when it has. -/
def returnedBy (s : ConnectionState G) (c : ℕ) : Option (Except SynError Unit) :=
  match s.stack.calls[c]?.map StackCall.frame with
  | some (.returned result) => some result
  | _ => none

/-- `Drop` of a connection: its session is closed. -/
def leave (session : Option ℕ) (s : ConnectionState G) : Option (ConnectionState G) :=
  match s.phase, session with
  | .idle, none => some { s with phase := .gone }
  | .idle, some k => (s.stack.next (.drop k)).map fun stack => { s with stack, phase := .gone }
  | _, _ => none

/-- The state after an action, if the action is possible. -/
def next (stream : ConnectionStream) (session : Option ℕ) (s : ConnectionState G) :
    ConnectionAction G → Option (ConnectionState G)
  | .call op =>
    match s.phase with
    | .idle => s.begin stream session op
    | _ => none
  | .arrive bytes => s.arriveAt session bytes
  | .take n => s.takeFrom session n
  | .complete result =>
    match s.phase with
    | .flushing => some (s.finish (.flush (result.mapError .io)))
    | .shuttingDown => some (s.finish (.shutdown (result.mapError .io)))
    | _ => none
  | .answer =>
    match s.phase with
    | .recording form c bytes =>
      (s.returnedBy c).map fun result => s.finish (form.answer (result.map fun _ => bytes))
    | .touching c => (s.returnedBy c).map fun result => s.finish (.writeAll result)
    | _ => none
  | .abandon =>
    match s.phase with
    | .reading _ | .filling _ _ | .writing _ | .flushing | .shuttingDown =>
      some { s with phase := .idle }
    | _ => none
  | .bypass bytes =>
    match s.phase with
    | .idle => some { s with arrived := s.arrived ++ bytes }
    | _ => none
  | .drop => s.leave session
  | .stack a =>
    -- the session belongs to the connection alone
    if session.isSome ∧ a.begins.map Prod.fst = session then none
    else (s.stack.next a).map fun stack => { s with stack }

/-- A session that a server has attached to a connection: it is in the table, and no payload of it
was shown to the guards. -/
def Attached (stack : StackState G) (k : ℕ) : Prop :=
  ∃ slot, stack.sessions[k]? = some slot ∧
    (∀ r ∈ stack.log, r.owner = slot.owner → ∀ bytes, r.callback ≠ .payload bytes) ∧
    ∀ call ∈ stack.calls, call.session = some k → ∀ i touched bytes,
      call.frame ≠ .payload i touched bytes

/-- A connection that a server hands to its handler. -/
structure Begins (stack : GuardStack G) (session : Option ℕ) (s : ConnectionState G) : Prop where
  reach : (StackState.system stack fun _ _ => True).Reach s.stack
  attached : ∀ k, session = some k → Attached s.stack k
  phase : s.phase = .idle
  arrived : s.arrived = []
  sent : s.sent = []
  shown : s.shown = []
  answers : s.answers = []

end ConnectionState

/-- The runs of a connection on a stack, whatever the others on it do. -/
def connectionSystem {G : Type*} [Guard G] (stack : GuardStack G) (stream : ConnectionStream)
    (session : Option ℕ) : Transition.System (ConnectionState G) (ConnectionAction G) where
  init := ConnectionState.Begins stack session
  step s a s' := s.next stream session a = some s'

namespace ConnectionState

variable {G : Type*} [Guard G] {stack : GuardStack G} {stream : ConnectionStream}
  {session : Option ℕ} {s s' : ConnectionState G}

/-! ## What a step does -/

/-- The bytes in a buffer of `read_exact` that is not full. -/
def filled (s : ConnectionState G) : List UInt8 :=
  match s.phase with
  | .filling _ filled => filled
  | _ => []

/-- The payloads shown and the bytes in the buffer are of the bytes that arrived, in that order. -/
def InOrder (s : ConnectionState G) : Prop := (s.shown.flatten ++ s.filled).Sublist s.arrived

/-- No payload is in hand. -/
def Unhanded (s : ConnectionState G) : Prop := ∀ form c bytes, s.phase ≠ .recording form c bytes

/-- What a step does to the stack, the phase and the payloads. -/
inductive Steps (session : Option ℕ) (s s' : ConnectionState G) : Prop
  /-- The stack is left alone, and no payload is in hand. -/
  | quiet (hstack : s'.stack = s.stack) (hshown : s'.shown = s.shown) (hbefore : s.Unhanded)
      (hafter : s'.Unhanded) (hdelivered : ∀ k, session = some k → s'.delivered = s.delivered)
  /-- A read has its bytes and shows them to the session. -/
  | shows {k : ℕ} {form : ReadForm} {bytes : List UInt8} (hsession : session = some k)
      (hstack : s.stack.next (.recordPayload k bytes) = some s'.stack)
      (hshown : s'.shown = s.shown ++ [bytes]) (hbefore : s.Unhanded)
      (hphase : s'.phase = .recording form s.stack.calls.length bytes)
      (hform : form = .read → bytes ≠ []) (hanswers : s'.answers = s.answers)
  /-- The session has answered, and the handler gets the bytes or the error. -/
  | answers {form : ReadForm} {c : ℕ} {bytes : List UInt8} {result : Except SynError Unit}
      (hbefore : s.phase = .recording form c bytes) (hreturned : s.returnedBy c = some result)
      (hstack : s'.stack = s.stack) (hshown : s'.shown = s.shown) (hafter : s'.Unhanded)
      (hanswers : s'.answers = s.answers ++ [form.answer (result.map fun _ => bytes)])
  /-- The session is touched or dropped. -/
  | calls {k : ℕ} {a : StackAction G} (hsession : session = some k)
      (ha : a = .touch k ∨ a = .drop k) (hstack : s.stack.next a = some s'.stack)
      (hshown : s'.shown = s.shown) (hbefore : s.Unhanded) (hafter : s'.Unhanded)
      (hanswers : s'.answers = s.answers)
  /-- The stack moves on by itself. -/
  | others {a : StackAction G} (hother : ∀ k, session = some k → a.begins.map Prod.fst ≠ some k)
      (hstack : s.stack.next a = some s'.stack) (hshown : s'.shown = s.shown)
      (hphase : s'.phase = s.phase) (hanswers : s'.answers = s.answers)

omit [Guard G] in
/-- What is delivered after one more answer. -/
theorem delivered_of_answers {answer : ConnectionAnswer}
    (h : s'.answers = s.answers ++ [answer]) :
    s'.delivered = s.delivered ++ answer.delivered.toList := by
  rw [delivered, h, List.filterMap_append, delivered]
  rfl

/-- A function that returns without bytes. -/
theorem steps_finish {t : ConnectionState G} {answer : ConnectionAnswer}
    (hstack : t.stack = s.stack) (hshown : t.shown = s.shown) (hanswers : t.answers = s.answers)
    (hbefore : s.Unhanded) (hnone : ∀ k, session = some k → answer.delivered = none) :
    Steps session s (t.finish answer) := by
  refine .quiet hstack hshown hbefore (fun _ _ _ hphase => nomatch hphase) fun k hk => ?_
  have hdelivered : (t.finish answer).delivered = s.delivered ++ answer.delivered.toList :=
    delivered_of_answers (by rw [finish, hanswers])
  rw [hdelivered, hnone k hk]
  exact List.append_nil _

/-- A read that shows its bytes. -/
theorem steps_present {t : ConnectionState G} {form : ReadForm} {bytes : List UInt8}
    (h : t.present session form bytes = some s') (hstack : t.stack = s.stack)
    (hshown : t.shown = s.shown) (hanswers : t.answers = s.answers) (hbefore : s.Unhanded)
    (hform : form = .read → bytes ≠ []) (hbytes : (s.shown.flatten ++ bytes).Sublist t.arrived) :
    Steps session s s' ∧ s'.InOrder := by
  unfold present at h
  cases session with
  | none =>
    obtain rfl := Option.some.inj h
    refine ⟨steps_finish hstack hshown hanswers hbefore nofun, ?_⟩
    show (t.shown.flatten ++ []).Sublist t.arrived
    rw [List.append_nil, hshown]
    exact (List.sublist_append_left _ _).trans hbytes
  | some k =>
    obtain ⟨stack', hnext, rfl⟩ := Option.map_eq_some_iff.mp h
    rw [hstack] at hnext
    refine ⟨.shows rfl hnext ?_ hbefore ?_ hform hanswers, ?_⟩
    · exact congrArg (· ++ [bytes]) hshown
    · exact congrArg (fun stack => ConnectionPhase.recording form stack.calls.length bytes) hstack
    · show ((t.shown ++ [bytes]).flatten ++ []).Sublist t.arrived
      rw [hshown, List.flatten_append, List.flatten_singleton, List.append_nil]
      exact hbytes

/-- The loop of `read_exact`. -/
theorem steps_fill {t : ConnectionState G} {want : ℕ} {filled : List UInt8}
    (h : t.fill session want filled = some s') (hstack : t.stack = s.stack)
    (hshown : t.shown = s.shown) (hanswers : t.answers = s.answers) (hbefore : s.Unhanded)
    (hbytes : (s.shown.flatten ++ filled).Sublist t.arrived) :
    Steps session s s' ∧ s'.InOrder := by
  unfold fill at h
  split_ifs at h
  · exact steps_present h hstack hshown hanswers hbefore (fun hform => nomatch hform) hbytes
  · obtain rfl := Option.some.inj h
    refine ⟨.quiet hstack hshown hbefore (fun _ _ _ hphase => nomatch hphase) fun _ _ => ?_, ?_⟩
    · exact congrArg (List.filterMap ConnectionAnswer.delivered) hanswers
    · show (t.shown.flatten ++ filled).Sublist t.arrived
      rwa [hshown]

/-- The loop of `write_all`. -/
theorem steps_write {t : ConnectionState G} {rest : List UInt8}
    (h : t.write session rest = some s') (hstack : t.stack = s.stack) (hshown : t.shown = s.shown)
    (hanswers : t.answers = s.answers) (hbefore : s.Unhanded)
    (hbytes : s.shown.flatten.Sublist t.arrived) : Steps session s s' ∧ s'.InOrder := by
  have horder : ∀ u : ConnectionState G, u.shown = s.shown → u.arrived = t.arrived →
      u.filled = [] → u.InOrder := by
    intro u hu harrived hfilled
    rw [InOrder, hu, harrived, hfilled, List.append_nil]
    exact hbytes
  unfold write at h
  split_ifs at h
  · cases session with
    | none =>
      obtain rfl := Option.some.inj h
      exact ⟨steps_finish hstack hshown hanswers hbefore nofun, horder _ hshown rfl rfl⟩
    | some k =>
      obtain ⟨stack', hnext, rfl⟩ := Option.map_eq_some_iff.mp h
      rw [hstack] at hnext
      exact ⟨.calls rfl (.inl rfl) hnext hshown hbefore (fun _ _ _ hphase => nomatch hphase)
        hanswers, horder _ hshown rfl rfl⟩
  · obtain rfl := Option.some.inj h
    refine ⟨.quiet hstack hshown hbefore (fun _ _ _ hphase => nomatch hphase) fun _ _ => ?_,
      horder _ hshown rfl rfl⟩
    exact congrArg (List.filterMap ConnectionAnswer.delivered) hanswers

/-- A function that begins. -/
theorem steps_begin {op : ConnectionOp} (hphase : s.phase = .idle) (horder : s.InOrder)
    (h : s.begin stream session op = some s') : Steps session s s' ∧ s'.InOrder := by
  have hbefore : s.Unhanded := by
    intro form c bytes
    rw [hphase]
    exact fun heq => nomatch heq
  have hbytes : s.shown.flatten.Sublist s.arrived := (List.sublist_append_left _ _).trans horder
  have hquiet : ∀ {t : ConnectionState G}, t.stack = s.stack → t.shown = s.shown →
      t.answers = s.answers → t.arrived = s.arrived → t.filled = [] → t.Unhanded →
        Steps session s t ∧ t.InOrder := by
    intro t hstack hshown hanswers harrived hfilled hafter
    refine ⟨.quiet hstack hshown hbefore hafter fun _ _ => ?_, ?_⟩
    · exact congrArg (List.filterMap ConnectionAnswer.delivered) hanswers
    · rw [InOrder, hshown, harrived, hfilled, List.append_nil]
      exact hbytes
  have hfinish : ∀ answer : ConnectionAnswer, answer.delivered = none →
      Steps session s (s.finish answer) ∧ (s.finish answer).InOrder := by
    intro answer hnone
    refine ⟨steps_finish rfl rfl rfl hbefore fun _ _ => hnone, ?_⟩
    show (s.shown.flatten ++ []).Sublist s.arrived
    rwa [List.append_nil]
  cases stream with
  | sync =>
    cases op <;> obtain rfl := Option.some.inj h <;> exact hfinish _ rfl
  | async =>
    cases op with
    | read room | flush | shutdown =>
      obtain rfl := Option.some.inj h
      exact hquiet rfl rfl rfl rfl rfl fun _ _ _ heq => nomatch heq
    | readExact want =>
      refine steps_fill h rfl rfl rfl hbefore ?_
      rwa [List.append_nil]
    | writeAll bytes => exact steps_write h rfl rfl rfl hbefore hbytes

/-- The stream that answers a read. -/
theorem steps_arrive {bytes : Except Str (List UInt8)} (horder : s.InOrder)
    (h : s.arriveAt session bytes = some s') : Steps session s s' ∧ s'.InOrder := by
  have hbytes : s.shown.flatten.Sublist s.arrived := (List.sublist_append_left _ _).trans horder
  have hfinish : ∀ answer : ConnectionAnswer, answer.delivered = none → s.Unhanded →
      Steps session s (s.finish answer) ∧ (s.finish answer).InOrder := by
    intro answer hnone hbefore
    refine ⟨steps_finish rfl rfl rfl hbefore fun _ _ => hnone, ?_⟩
    show (s.shown.flatten ++ []).Sublist s.arrived
    rwa [List.append_nil]
  unfold arriveAt at h
  cases hphase : s.phase with
  | reading room =>
    have hbefore : s.Unhanded := fun _ _ _ heq => nomatch hphase.symm.trans heq
    rw [hphase] at h
    cases bytes with
    | error e =>
      obtain rfl := Option.some.inj h
      exact hfinish _ rfl hbefore
    | ok bytes =>
      dsimp only at h
      split_ifs at h with hroom hnil
      · obtain rfl := Option.some.inj h
        exact hfinish _ rfl hbefore
      · refine steps_present h rfl rfl rfl hbefore (fun _ => hnil) ?_
        exact hbytes.append (List.Sublist.refl bytes)
  | filling want filled =>
    have hbefore : s.Unhanded := fun _ _ _ heq => nomatch hphase.symm.trans heq
    rw [hphase] at h
    cases bytes with
    | error e =>
      obtain rfl := Option.some.inj h
      exact hfinish _ rfl hbefore
    | ok bytes =>
      dsimp only at h
      split_ifs at h with hwant hnil
      · obtain rfl := Option.some.inj h
        exact hfinish _ rfl hbefore
      · refine steps_fill h rfl rfl rfl hbefore ?_
        have hfilled : s.filled = filled := by rw [ConnectionState.filled, hphase]
        rw [InOrder, hfilled] at horder
        rw [← List.append_assoc]
        exact horder.append (List.Sublist.refl bytes)
  | _ =>
    rw [hphase] at h
    cases bytes <;> cases h

/-- The stream that answers a write. -/
theorem steps_take {n : Except Str ℕ} (horder : s.InOrder)
    (h : s.takeFrom session n = some s') : Steps session s s' ∧ s'.InOrder := by
  have hbytes : s.shown.flatten.Sublist s.arrived := (List.sublist_append_left _ _).trans horder
  unfold takeFrom at h
  cases hphase : s.phase with
  | writing rest =>
    have hbefore : s.Unhanded := fun _ _ _ heq => nomatch hphase.symm.trans heq
    have hfinish : ∀ err, Steps session s (s.finish (.writeAll (.error err))) ∧
        (s.finish (.writeAll (.error err))).InOrder := by
      intro err
      refine ⟨steps_finish rfl rfl rfl hbefore fun _ _ => rfl, ?_⟩
      show (s.shown.flatten ++ []).Sublist s.arrived
      rwa [List.append_nil]
    rw [hphase] at h
    cases n with
    | error e =>
      obtain rfl := Option.some.inj h
      exact hfinish _
    | ok n =>
      dsimp only at h
      split_ifs at h with hlength hzero
      · obtain rfl := Option.some.inj h
        exact hfinish _
      · exact steps_write h rfl rfl rfl hbefore hbytes
  | _ =>
    rw [hphase] at h
    cases n <;> cases h

/-- **What a step does**, and that it keeps the order of the bytes.

**Proof sketch.** One case for each action. -/
theorem steps_of_next {a : ConnectionAction G} (horder : s.InOrder)
    (h : s.next stream session a = some s') : Steps session s s' ∧ s'.InOrder := by
  have hbytes : s.shown.flatten.Sublist s.arrived := (List.sublist_append_left _ _).trans horder
  have hkept : ∀ {t : ConnectionState G}, t.shown = s.shown → t.arrived = s.arrived →
      t.filled = [] → t.InOrder := by
    intro t hshown harrived hfilled
    rw [InOrder, hshown, harrived, hfilled, List.append_nil]
    exact hbytes
  cases a with
  | call op =>
    cases hphase : s.phase with
    | idle =>
      rw [next, hphase] at h
      exact steps_begin hphase horder h
    | _ =>
      rw [next, hphase] at h
      cases h
  | arrive bytes => exact steps_arrive horder h
  | take n => exact steps_take horder h
  | complete result =>
    cases hphase : s.phase with
    | flushing | shuttingDown =>
      rw [next, hphase] at h
      obtain rfl := Option.some.inj h
      have hbefore : s.Unhanded := fun _ _ _ heq => nomatch hphase.symm.trans heq
      exact ⟨steps_finish rfl rfl rfl hbefore fun _ _ => rfl, hkept rfl rfl rfl⟩
    | _ =>
      rw [next, hphase] at h
      cases h
  | answer =>
    cases hphase : s.phase with
    | recording form c bytes =>
      rw [next, hphase] at h
      obtain ⟨result, hresult, rfl⟩ := Option.map_eq_some_iff.mp h
      exact ⟨.answers hphase hresult rfl rfl (fun _ _ _ heq => nomatch heq) rfl,
        hkept rfl rfl rfl⟩
    | touching c =>
      rw [next, hphase] at h
      obtain ⟨result, hresult, rfl⟩ := Option.map_eq_some_iff.mp h
      have hbefore : s.Unhanded := fun _ _ _ heq => nomatch hphase.symm.trans heq
      exact ⟨steps_finish rfl rfl rfl hbefore fun _ _ => rfl, hkept rfl rfl rfl⟩
    | _ =>
      rw [next, hphase] at h
      cases h
  | abandon =>
    cases hphase : s.phase with
    | reading room | filling want filled | writing rest | flushing | shuttingDown =>
      rw [next, hphase] at h
      obtain rfl := Option.some.inj h
      have hbefore : s.Unhanded := fun _ _ _ heq => nomatch hphase.symm.trans heq
      exact ⟨.quiet rfl rfl hbefore (fun _ _ _ heq => nomatch heq) fun _ _ => rfl,
        hkept rfl rfl rfl⟩
    | _ =>
      rw [next, hphase] at h
      cases h
  | bypass bytes =>
    cases hphase : s.phase with
    | idle =>
      rw [next, hphase] at h
      obtain rfl := Option.some.inj h
      have hbefore : s.Unhanded := fun _ _ _ heq => nomatch hphase.symm.trans heq
      refine ⟨.quiet rfl rfl hbefore (fun _ _ _ heq => nomatch heq) fun _ _ => rfl, ?_⟩
      show (s.shown.flatten ++ []).Sublist (s.arrived ++ bytes)
      rw [List.append_nil]
      exact hbytes.trans (List.sublist_append_left _ _)
    | _ =>
      rw [next, hphase] at h
      cases h
  | drop =>
    change s.leave session = some s' at h
    unfold leave at h
    cases hphase : s.phase with
    | idle =>
      have hbefore : s.Unhanded := fun _ _ _ heq => nomatch hphase.symm.trans heq
      rw [hphase] at h
      cases session with
      | none =>
        obtain rfl := Option.some.inj h
        exact ⟨.quiet rfl rfl hbefore (fun _ _ _ heq => nomatch heq) fun _ _ => rfl,
          hkept rfl rfl rfl⟩
      | some k =>
        obtain ⟨stack', hnext, rfl⟩ := Option.map_eq_some_iff.mp h
        exact ⟨.calls rfl (.inr rfl) hnext rfl hbefore (fun _ _ _ heq => nomatch heq) rfl,
          hkept rfl rfl rfl⟩
    | _ =>
      rw [hphase] at h
      cases session <;> cases h
  | stack a =>
    rw [next] at h
    split_ifs at h with hown
    obtain ⟨stack', hnext, rfl⟩ := Option.map_eq_some_iff.mp h
    refine ⟨.others (fun k hk hbegins => hown ?_) hnext rfl rfl rfl, horder⟩
    rw [hk]
    exact ⟨rfl, hbegins⟩

/-- What a step does to the stack. -/
theorem Steps.stack_next (h : Steps session s s') :
    s'.stack = s.stack ∨ ∃ a, s.stack.next a = some s'.stack := by
  cases h with
  | quiet hstack => exact .inl hstack
  | shows _ hstack => exact .inr ⟨_, hstack⟩
  | answers _ _ hstack => exact .inl hstack
  | calls _ _ hstack => exact .inr ⟨_, hstack⟩
  | others _ hstack => exact .inr ⟨_, hstack⟩

/-- The stack of a connection is used as every stack is, and the bytes keep their order. -/
theorem stack_reach (h : (connectionSystem stack stream session).Reach s) :
    (StackState.system stack fun _ _ => True).Reach s.stack ∧ s.InOrder := by
  refine Transition.System.Reach.invariant (I := fun s : ConnectionState G =>
    (StackState.system stack fun _ _ => True).Reach s.stack ∧ s.InOrder) ?_ ?_ h
  · intro s hbegins
    refine ⟨hbegins.reach, ?_⟩
    have hfilled : s.filled = [] := by rw [filled, hbegins.phase]
    rw [InOrder, hbegins.shown, hbegins.arrived, hfilled]
    exact List.Sublist.refl _
  · rintro s a s' _ ⟨hreach, horder⟩ hstep
    obtain ⟨hsteps, horder'⟩ := steps_of_next horder hstep
    refine ⟨?_, horder'⟩
    rcases hsteps.stack_next with hsame | ⟨b, hnext⟩
    · rw [hsame]
      exact hreach
    · exact .step hreach ⟨hnext, fun _ _ _ _ _ => trivial⟩

end ConnectionState

end Synclaire
