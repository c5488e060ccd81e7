import Synclaire.Lib.Transition
import Synclaire.Proxy.HeaderRead

set_option relaxedAutoImplicit false
set_option autoImplicit false

/-!
# Forwarding a connection

The sync proxy authenticates the client, connects the backend, writes what the client sent after
its header, and relays in both directions on two threads. The async proxy connects the backend
first, then does the TLS handshake if it offloads TLS, and authenticates after that.

## Main definitions

* `Synclaire.ForwardPhase`, `Synclaire.ForwardState` — where a connection is, and the bytes that
  went through the proxy.
* `Synclaire.ForwardState.next` — the step function of both proxies.
* `Synclaire.forwardSystem` — the runs of one connection.
* `Synclaire.ForwardPhase.Leads` — where an action leads from a phase.
* `Synclaire.HeaderCarries`, `Synclaire.Credentialed` — what the bytes of an admitted client show.

## Main results

* `Synclaire.leads_of_effect` — every action leads where `Leads` says.
* `Synclaire.headerCarries_of_accepts` — an accepted header carries the credentials.
* `Synclaire.ForwardState.credentialed_of_sent` — a proxy that passed on a byte was shown the
  credentials.

## Implementation notes

The credentials are those in force when the connection begins (`effective_auth`, `resolve_auth`).
A `write_all` may write its bytes in several parts and may fail after any of them. The client's
bytes are those the proxy reads: with TLS offload, the decrypted ones. In the async proxy the
relay is the library's `copy_bidirectional`, which stops at the first error; its task may be
dropped at any time when the timeout of the connection elapses.
-/

namespace Synclaire

/-- The fields of `ProxyConfig` that forwarding uses next to the credentials; `backendAddr` is
the backend that was chosen. -/
structure ForwardConfig where
  backendAddr : SocketAddr
  bufferSize : ℕ := 8192
  connectionTimeout : Duration := .fromSecs 30
  tlsEnabled : Bool := false

/-- A direction of the relay. -/
inductive Direction
  | clientToBackend
  | backendToClient
  deriving DecidableEq

/-- The loop of a direction: it reads, it writes what it has read, or it has ended. -/
inductive RelayLoop
  | reading
  | writing (buf : List UInt8)
  | ended
  deriving DecidableEq

/-- Where a connection is. -/
inductive ForwardPhase
  /-- The backend is being connected; `trailing` followed the header. -/
  | connecting (trailing : List UInt8)
  /-- The TLS handshake with the client. -/
  | handshaking
  /-- The auth phase, with its buffer. -/
  | authenticating (data : List UInt8)
  /-- The bytes that followed the header are written to the backend. -/
  | flushing (trailing : List UInt8)
  /-- The sockets are cloned for the two threads. -/
  | cloning
  | relaying (clientToBackend backendToClient : RelayLoop)
  | finished (result : Except SynError Unit)
  /-- The task was dropped. -/
  | cancelled
  deriving DecidableEq

/-- A connection, and the bytes the proxy read from the client and wrote to either side. -/
structure ForwardState where
  phase : ForwardPhase
  received : List UInt8
  sentToBackend : List UInt8
  sentToClient : List UInt8
  deriving DecidableEq

/-- A step of a connection. -/
inductive ForwardAction
  | connected
  | connectFailed (e : Str)
  /-- The timeout around `connect` of the async proxy. -/
  | connectTimedOut
  | handshaken
  /-- The acceptor could not be built, or the handshake failed. -/
  | handshakeFailed (err : SynError)
  /-- A read in the auth phase. -/
  | readHeader (read : ReadResult)
  /-- `n` more bytes of the trailing payload are written. -/
  | flush (n : ℕ)
  | flushFailed (e : Str)
  | cloned
  | cloneFailed (d : Direction) (e : Str)
  /-- A direction reads. -/
  | read (d : Direction) (bytes : Except Str (List UInt8))
  /-- A direction writes `n` more bytes. -/
  | write (d : Direction) (n : ℕ)
  | writeFailed (d : Direction) (e : Str)
  /-- Both directions have ended. -/
  | joined
  | cancel

/-- What a step does: the next phase, and the bytes read from the client and written to either
side. -/
structure ForwardEffect where
  phase : ForwardPhase
  received : List UInt8 := []
  sentToBackend : List UInt8 := []
  sentToClient : List UInt8 := []

namespace ForwardPhase

/-- The connection ends with an error. -/
def failed (err : SynError) : ForwardPhase := .finished (.error err)

/-- What follows once the trailing payload is written. -/
def startRelay : ProxyFlavor → ForwardPhase
  | .sync => .cloning
  | .async => .relaying .reading .reading

/-- The trailing payload is written, unless it is empty. -/
def startFlush (flavor : ProxyFlavor) (trailing : List UInt8) : ForwardPhase :=
  if trailing = [] then startRelay flavor else .flushing trailing

/-- What follows the auth phase. -/
def afterAuth (flavor : ProxyFlavor) (trailing : List UInt8) : ForwardPhase :=
  match flavor with
  | .sync => .connecting trailing
  | .async => startFlush .async trailing

/-- The auth phase begins, unless no credentials are asked for. -/
def startAuth (flavor : ProxyFlavor) : ProxyAuth → ForwardPhase
  | .none => afterAuth flavor []
  | .basic _ _ => .authenticating []

/-- What follows when the backend is connected. -/
def afterConnect (flavor : ProxyFlavor) (config : ForwardConfig) (auth : ProxyAuth)
    (trailing : List UInt8) : ForwardPhase :=
  match flavor with
  | .sync => startFlush .sync trailing
  | .async => if config.tlsEnabled then .handshaking else startAuth .async auth

/-- The loop of a direction. -/
def loopOf (d : Direction) (clientToBackend backendToClient : RelayLoop) : RelayLoop :=
  match d with
  | .clientToBackend => clientToBackend
  | .backendToClient => backendToClient

/-- The loop of a direction moves to `loop`. -/
def setLoop (d : Direction) (clientToBackend backendToClient loop : RelayLoop) : ForwardPhase :=
  match d with
  | .clientToBackend => .relaying loop backendToClient
  | .backendToClient => .relaying clientToBackend loop

/-- What an error in a relay does: the thread ends, or all of `copy_bidirectional`. -/
def relayFailed (flavor : ProxyFlavor) (d : Direction) (clientToBackend backendToClient : RelayLoop)
    (e : Str) : ForwardPhase :=
  match flavor with
  | .sync => setLoop d clientToBackend backendToClient .ended
  | .async => failed (.connectionError e)

end ForwardPhase

open ForwardPhase in
/-- What an action does in a phase, if it is possible. -/
def forwardEffect (flavor : ProxyFlavor) (config : ForwardConfig) (auth : ProxyAuth) :
    ForwardPhase → ForwardAction → Option ForwardEffect
  | .connecting trailing, .connected => some { phase := afterConnect flavor config auth trailing }
  | .connecting _, .connectFailed e => some { phase := failed (.connectionError e) }
  | .connecting _, .connectTimedOut =>
    match flavor with
    | .sync => none
    | .async => some { phase := failed (.connectionError ("backend connect to ".toList ++
        config.backendAddr.toStr ++ " timed out after ".toList ++
        config.connectionTimeout.debug)) }
  | .handshaking, .handshaken => some { phase := startAuth flavor auth }
  | .handshaking, .handshakeFailed err => some { phase := failed err }
  | .authenticating data, .readHeader read =>
    match authRead flavor auth data read with
    | .more data => some { phase := .authenticating data, received := readBytes read }
    | .finished _ _ (.ok trailing) =>
      some { phase := afterAuth flavor trailing, received := readBytes read }
    | .finished _ _ (.error err) => some { phase := failed err, received := readBytes read }
  | .flushing trailing, .flush n =>
    some { phase := startFlush flavor (trailing.drop n), sentToBackend := trailing.take n }
  | .flushing _, .flushFailed e =>
    match flavor with
    | .sync => some { phase := failed (.connectionError
        ("Failed to write trailing payload to backend: ".toList ++ e)) }
    | .async => some { phase := failed (.connectionError e) }
  | .cloning, .cloned => some { phase := .relaying .reading .reading }
  | .cloning, .cloneFailed .backendToClient e => some { phase := failed (.connectionError
      ("Failed to clone client for reverse: ".toList ++ e)) }
  | .cloning, .cloneFailed .clientToBackend e => some { phase := failed (.connectionError
      ("Failed to clone backend for forward: ".toList ++ e)) }
  | .relaying c b, .read d bytes =>
    match loopOf d c b, bytes with
    | .reading, .error e => some { phase := relayFailed flavor d c b e }
    | .reading, .ok [] => some { phase := setLoop d c b .ended }
    | .reading, .ok bytes =>
      if flavor = .sync ∧ config.bufferSize < bytes.length then none
      else
        match d with
        | .clientToBackend => some { phase := setLoop d c b (.writing bytes), received := bytes }
        | .backendToClient => some { phase := setLoop d c b (.writing bytes) }
    | _, _ => none
  | .relaying c b, .write d n =>
    match loopOf d c b with
    | .writing buf =>
      let phase := setLoop d c b (if buf.drop n = [] then .reading else .writing (buf.drop n))
      match d with
      | .clientToBackend => some { phase, sentToBackend := buf.take n }
      | .backendToClient => some { phase, sentToClient := buf.take n }
    | _ => none
  | .relaying c b, .writeFailed d e =>
    match loopOf d c b with
    | .writing _ => some { phase := relayFailed flavor d c b e }
    | _ => none
  | .relaying .ended .ended, .joined => some { phase := .finished (.ok ()) }
  | .finished _, .cancel => none
  | .cancelled, .cancel => none
  | _, .cancel =>
    match flavor with
    | .sync => none
    | .async => some { phase := .cancelled }
  | _, _ => none

namespace ForwardState

/-- A connection whose credentials were looked up. -/
def start (flavor : ProxyFlavor) (auth : ProxyAuth) : ForwardState where
  phase :=
    match flavor with
    | .sync => .startAuth .sync auth
    | .async => .connecting []
  received := []
  sentToBackend := []
  sentToClient := []

/-- The state after what a step does. -/
def apply (s : ForwardState) (effect : ForwardEffect) : ForwardState where
  phase := effect.phase
  received := s.received ++ effect.received
  sentToBackend := s.sentToBackend ++ effect.sentToBackend
  sentToClient := s.sentToClient ++ effect.sentToClient

/-- The state after an action, if the action is possible. -/
def next (flavor : ProxyFlavor) (config : ForwardConfig) (auth : ProxyAuth) (s : ForwardState)
    (a : ForwardAction) : Option ForwardState :=
  (forwardEffect flavor config auth s.phase a).map s.apply

end ForwardState

/-- The runs of a connection for which these credentials are asked. -/
def forwardSystem (flavor : ProxyFlavor) (config : ForwardConfig) (auth : ProxyAuth) :
    Transition.System ForwardState ForwardAction where
  init s := s = .start flavor auth
  step s a s' := s.next flavor config auth a = some s'

/-! ## Where a step leads -/

/-- Where an action leads from a phase: to the next phase of the connection, or to its end. -/
inductive ForwardPhase.Leads (flavor : ProxyFlavor) (config : ForwardConfig) (auth : ProxyAuth) :
    ForwardPhase → ForwardAction → ForwardPhase → Prop
  | connected {trailing : List UInt8} : Leads flavor config auth (.connecting trailing) .connected
      (afterConnect flavor config auth trailing)
  | handshaken : Leads flavor config auth .handshaking .handshaken (startAuth flavor auth)
  | more {data rest : List UInt8} {read : ReadResult}
      (hread : authRead flavor auth data read = .more rest) :
      Leads flavor config auth (.authenticating data) (.readHeader read) (.authenticating rest)
  | validated {data buffer trailing : List UInt8} {read : ReadResult} {headerEnd : Option ℕ}
      (hread : authRead flavor auth data read = .finished buffer headerEnd (.ok trailing)) :
      Leads flavor config auth (.authenticating data) (.readHeader read)
        (afterAuth flavor trailing)
  | flushed {trailing : List UInt8} {n : ℕ} : Leads flavor config auth (.flushing trailing)
      (.flush n) (startFlush flavor (trailing.drop n))
  | cloned : Leads flavor config auth .cloning .cloned (.relaying .reading .reading)
  | relays {c b c' b' : RelayLoop} {a : ForwardAction} :
      Leads flavor config auth (.relaying c b) a (.relaying c' b')
  | ends {phase : ForwardPhase} {a : ForwardAction} {result : Except SynError Unit} :
      Leads flavor config auth phase a (.finished result)
  | cancels {phase : ForwardPhase} : Leads flavor config auth phase .cancel .cancelled

open ForwardPhase in
/-- Every action leads where `Leads` says.

**Proof sketch.** One case for each phase, and in it for each action. -/
theorem leads_of_effect {flavor : ProxyFlavor} {config : ForwardConfig} {auth : ProxyAuth}
    {phase : ForwardPhase} {a : ForwardAction} {effect : ForwardEffect}
    (h : forwardEffect flavor config auth phase a = some effect) :
    Leads flavor config auth phase a effect.phase := by
  cases phase with
  | connecting trailing =>
    cases a with
    | connected =>
      cases h
      exact .connected
    | connectFailed e =>
      cases h
      exact .ends
    | connectTimedOut =>
      cases flavor <;> cases h
      exact .ends
    | cancel =>
      cases flavor <;> cases h
      exact .cancels
    | _ => cases h
  | handshaking =>
    cases a with
    | handshaken =>
      cases h
      exact .handshaken
    | handshakeFailed err =>
      cases h
      exact .ends
    | cancel =>
      cases flavor <;> cases h
      exact .cancels
    | _ => cases h
  | authenticating data =>
    cases a with
    | readHeader read =>
      simp only [forwardEffect] at h
      split at h
      · rename_i rest hread
        cases h
        exact .more hread
      · rename_i buffer headerEnd trailing hread
        cases h
        exact .validated hread
      · cases h
        exact .ends
    | cancel =>
      cases flavor <;> cases h
      exact .cancels
    | _ => cases h
  | flushing trailing =>
    cases a with
    | flush n =>
      cases h
      exact .flushed
    | flushFailed e =>
      cases flavor <;> cases h <;> exact .ends
    | cancel =>
      cases flavor <;> cases h
      exact .cancels
    | _ => cases h
  | cloning =>
    cases a with
    | cloned =>
      cases h
      exact .cloned
    | cloneFailed d e =>
      cases d <;> cases h <;> exact .ends
    | cancel =>
      cases flavor <;> cases h
      exact .cancels
    | _ => cases h
  | relaying c b =>
    have hset : ∀ (d : Direction) (loop : RelayLoop),
        Leads flavor config auth (.relaying c b) a (setLoop d c b loop) := by
      intro d loop
      cases d <;> exact .relays
    have hfailed : ∀ (d : Direction) (e : Str),
        Leads flavor config auth (.relaying c b) a (relayFailed flavor d c b e) := by
      intro d e
      cases flavor with
      | sync => exact hset d .ended
      | async => exact .ends
    cases a with
    | read d bytes =>
      simp only [forwardEffect] at h
      split at h
      · cases h
        exact hfailed d _
      · cases h
        exact hset d _
      · split_ifs at h
        cases d <;>
        · cases h
          exact .relays
      · cases h
    | write d n =>
      simp only [forwardEffect] at h
      split at h
      · cases d <;>
        · cases h
          exact .relays
      · cases h
    | writeFailed d e =>
      simp only [forwardEffect] at h
      split at h
      · cases h
        exact hfailed d e
      · cases h
    | joined =>
      cases c <;> cases b <;> cases h
      exact .ends
    | cancel =>
      cases flavor <;> simp only [forwardEffect] at h <;> cases h
      exact .cancels
    | _ => cases h
  | finished result => cases a <;> cases h
  | cancelled => cases a <;> cases h

/-! ## What the bytes of an admitted client show -/

/-- Among the examined lines of the header, the first that begins with `Authorization: ` has the
credentials as its value, after trimming. -/
def HeaderCarries (flavor : ProxyFlavor) (u p : Str) (header : List UInt8) : Prop :=
  ∃ before line after value, examined flavor (Scan.lines 10 13 header) =
      before ++ line :: after ∧
    (∀ l ∈ before, ¬authorizationBytes <+: l) ∧ line = authorizationBytes ++ value ∧
    ProxyAuth.Carries u p (trim (Utf8.lossy value))

/-- The bytes up to and including the first blank line are a header with the credentials. -/
def Credentialed (flavor : ProxyFlavor) (u p : Str) (received : List UInt8) : Prop :=
  ∃ i, Scan.IsFirst terminator received i ∧ HeaderCarries flavor u p (received.take (i + 4))

/-- More bytes do not change what the header shows. -/
theorem Credentialed.mono {flavor : ProxyFlavor} {u p : Str} {received more : List UInt8}
    (h : Credentialed flavor u p received) (hpre : received <+: more) :
    Credentialed flavor u p more := by
  obtain ⟨i, hfirst, hcarries⟩ := h
  obtain ⟨rest, rfl⟩ := hpre
  have hle : i + 4 ≤ received.length := hfirst.1.add_length_le terminator_ne_nil
  exact ⟨i, hfirst.append terminator_ne_nil rest, by
    rwa [List.take_append_of_le_length hle]⟩

/-- **An accepted header carries the credentials**, in its bytes.

**Proof sketch.** The lines of the text are the lossy lines of the bytes, and such a line begins
with `Authorization: ` when its bytes do. -/
theorem headerCarries_of_accepts {flavor : ProxyFlavor} {u p : Str} {header : List UInt8}
    (h : Accepts (.basic u p) (examined flavor (lines (Utf8.lossy header)))) :
    HeaderCarries flavor u p header := by
  obtain ⟨value, hvalue, hvalid⟩ := h
  have hlines : examined flavor (lines (Utf8.lossy header)) =
      (examined flavor (Scan.lines 10 13 header)).map Utf8.lossy := by
    rw [lines, Utf8.lines_lossy, examined_map]
  rw [firstAuthorization, hlines, List.findSome?_map] at hvalue
  obtain ⟨before, line, after, hsplit, hline, hbefore⟩ := List.findSome?_eq_some_iff.mp hvalue
  obtain ⟨rest, rfl, rfl⟩ := stripPrefix_lossy_iff.mp hline
  refine ⟨before, _, after, rest, hsplit, fun l hl hpre => ?_, rfl,
    ProxyAuth.of_validateHeader hvalid⟩
  obtain ⟨rest', rfl⟩ := hpre
  have hnone := hbefore _ hl
  rw [Function.comp_apply, stripPrefix_lossy_iff.mpr ⟨rest', rfl, rfl⟩] at hnone
  cases hnone

namespace ForwardState

variable {flavor : ProxyFlavor} {config : ForwardConfig} {u p : Str} {s : ForwardState}
  {effect : ForwardEffect} {a : ForwardAction}

/-! ## Runs -/

/-- What was received before the client was admitted, in each phase. -/
def Early (flavor : ProxyFlavor) (received : List UInt8) : ForwardPhase → Prop
  | .connecting _ => flavor = .async ∧ received = []
  | .handshaking => flavor = .async ∧ received = []
  | .authenticating data => received = data ∧ Clear data
  | .finished _ => True
  | .cancelled => True
  | .flushing _ | .cloning | .relaying _ _ => False

/-- Nothing was passed on, and the client is not admitted. -/
structure Unadmitted (flavor : ProxyFlavor) (s : ForwardState) : Prop where
  early : Early flavor s.received s.phase
  sentToBackend : s.sentToBackend = []
  sentToClient : s.sentToClient = []

/-- A read in the auth phase admits the client only if its header carries the credentials. -/
theorem readHeader_cases {data : List UInt8} (hclear : Clear data) {read : ReadResult}
    (h : forwardEffect flavor config (.basic u p) (.authenticating data) (.readHeader read) =
      some effect) :
    Credentialed flavor u p (data ++ effect.received) ∨
      (Early flavor (data ++ effect.received) effect.phase ∧ effect.sentToBackend = [] ∧
        effect.sentToClient = []) := by
  rw [forwardEffect] at h
  rcases authRead_cases flavor (.basic u p) hclear read with
    ⟨_, _, hread⟩ | ⟨hrest, hread⟩ | ⟨i, hpos, hread⟩
  · rw [hread] at h
    obtain rfl := Option.some.inj h
    exact .inr ⟨trivial, rfl, rfl⟩
  · rw [hread] at h
    obtain rfl := Option.some.inj h
    exact .inr ⟨⟨rfl, hrest⟩, rfl, rfl⟩
  · rcases checkLines_cases (.basic u p) ((data ++ readBytes read).drop (i + 4))
        (examined flavor (lines (Utf8.lossy ((data ++ readBytes read).take (i + 4))))) with
      ⟨haccepts, heq⟩ | ⟨-, err, heq⟩
    · rw [hread, checkHeader, heq] at h
      obtain rfl := Option.some.inj h
      exact .inl ⟨i, (Scan.position_eq_some_iff terminator_ne_nil).mp hpos,
        headerCarries_of_accepts haccepts⟩
    · rw [hread, checkHeader, heq] at h
      obtain rfl := Option.some.inj h
      exact .inr ⟨trivial, rfl, rfl⟩

/-- **One step of a connection that is not admitted**: its client is admitted with the
credentials, or nothing was passed on.

**Proof sketch.** One case for each phase before the client is admitted. Only a read in the
auth phase leads out of these phases. -/
theorem Unadmitted.step (h : s.Unadmitted flavor)
    (heffect : forwardEffect flavor config (.basic u p) s.phase a = some effect) :
    Credentialed flavor u p (s.apply effect).received ∨ (s.apply effect).Unadmitted flavor := by
  have hquiet : Early flavor (s.received ++ effect.received) effect.phase →
      effect.sentToBackend = [] → effect.sentToClient = [] →
        (s.apply effect).Unadmitted flavor := by
    intro hearly hbackend hclient
    exact ⟨hearly, by rw [apply, h.sentToBackend, hbackend]; rfl,
      by rw [apply, h.sentToClient, hclient]; rfl⟩
  have hearly := h.early
  cases hphase : s.phase with
  | connecting trailing =>
    rw [hphase] at hearly heffect
    obtain ⟨rfl, hreceived⟩ := hearly
    right
    cases a with
    | connected =>
      obtain rfl := Option.some.inj heffect
      refine hquiet ?_ rfl rfl
      rw [hreceived, ForwardPhase.afterConnect]
      by_cases htls : config.tlsEnabled = true
      · rw [if_pos htls]
        exact ⟨rfl, rfl⟩
      · rw [if_neg htls]
        exact ⟨rfl, clear_nil⟩
    | connectFailed e | connectTimedOut | cancel =>
      obtain rfl := Option.some.inj heffect
      exact hquiet trivial rfl rfl
    | _ => cases heffect
  | handshaking =>
    rw [hphase] at hearly heffect
    obtain ⟨rfl, hreceived⟩ := hearly
    right
    cases a with
    | handshaken =>
      obtain rfl := Option.some.inj heffect
      exact hquiet (by rw [hreceived]; exact ⟨rfl, clear_nil⟩) rfl rfl
    | handshakeFailed err | cancel =>
      obtain rfl := Option.some.inj heffect
      exact hquiet trivial rfl rfl
    | _ => cases heffect
  | authenticating data =>
    rw [hphase] at hearly heffect
    obtain ⟨hreceived, hclear⟩ := hearly
    cases a with
    | readHeader read =>
      rw [← hreceived] at hclear heffect
      rcases readHeader_cases hclear heffect with hadmitted | ⟨hearly, hbackend, hclient⟩
      · exact .inl hadmitted
      · exact .inr (hquiet hearly hbackend hclient)
    | cancel =>
      cases flavor with
      | sync => cases heffect
      | async =>
        obtain rfl := Option.some.inj heffect
        exact .inr (hquiet trivial rfl rfl)
    | _ => cases heffect
  | finished result =>
    rw [hphase] at heffect
    cases a <;> cases heffect
  | cancelled =>
    rw [hphase] at heffect
    cases a <;> cases heffect
  | flushing trailing | cloning | relaying c b =>
    rw [hphase] at hearly
    exact hearly.elim

/-- **Authentication soundness**: a proxy that asks for credentials and passed on a byte, in
either direction, has read a header that carries them.

**Proof sketch.** In every reachable state the client was admitted, with the credentials, or
nothing was passed on (`Unadmitted.step`); later bytes do not change the header. -/
theorem credentialed_of_sent {config : ForwardConfig} {s : ForwardState}
    (h : (forwardSystem flavor config (.basic u p)).Reach s)
    (hsent : s.sentToBackend ≠ [] ∨ s.sentToClient ≠ []) {stream : List UInt8}
    (hstream : s.received <+: stream) : Credentialed flavor u p stream := by
  have hsound : Credentialed flavor u p s.received ∨ s.Unadmitted flavor := by
    refine Transition.System.Reach.invariant (I := fun s : ForwardState =>
      Credentialed flavor u p s.received ∨ s.Unadmitted flavor) ?_ ?_ h
    · rintro _ rfl
      cases flavor with
      | sync => exact .inr ⟨⟨rfl, clear_nil⟩, rfl, rfl⟩
      | async => exact .inr ⟨⟨rfl, rfl⟩, rfl, rfl⟩
    · intro s a s' _ hI hstep
      obtain ⟨effect, heffect, rfl⟩ := Option.map_eq_some_iff.mp hstep
      rcases hI with hadmitted | hunadmitted
      · exact .inl (hadmitted.mono (List.prefix_append _ _))
      · exact hunadmitted.step heffect
  rcases hsound with hadmitted | hunadmitted
  · exact hadmitted.mono hstream
  · rcases hsent with hsent | hsent
    · exact absurd hunadmitted.sentToBackend hsent
    · exact absurd hunadmitted.sentToClient hsent

/-- A request with the credentials `user` and `pass`, and a payload after it. -/
def request : List UInt8 :=
  Utf8.encode "CONNECT a:80 HTTP/1.1\r\nAuthorization: Basic dXNlcjpwYXNz\r\n\r\nHELLO".toList

/-- The bytes of one read. -/
def chunkOf (bytes : List UInt8) (h : bytes.length ≤ 512) : ReadResult := .ok ⟨bytes, h⟩

/-- The sync proxy reads the request in two parts and passes the payload on. -/
def requestState : ForwardState :=
  Transition.System.after
    (next .sync ⟨.v4 (ipv4 10 0 0 9) 80, 8192, .fromSecs 30, false⟩
      (.basic "user".toList "pass".toList))
    (start .sync (.basic "user".toList "pass".toList))
    [.readHeader (chunkOf (request.take 54) (by decide)),
      .readHeader (chunkOf (request.drop 54) (by decide)), .connected, .flush 5]

/-- The header of the request carries the credentials: its payload was passed on. -/
theorem credentialed_of_sent_request :
    Credentialed .sync "user".toList "pass".toList request :=
  have hreach : (forwardSystem .sync ⟨.v4 (ipv4 10 0 0 9) 80, 8192, .fromSecs 30, false⟩
      (.basic "user".toList "pass".toList)).Reach requestState :=
    Transition.System.reach_after (.init rfl) fun _ _ _ _ h => h
  credentialed_of_sent hreach (.inl (by decide +kernel)) (by decide +kernel)

end ForwardState

end Synclaire
