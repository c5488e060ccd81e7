import Synclaire.Lib.Log
import Synclaire.Server.Handling

set_option relaxedAutoImplicit false
set_option autoImplicit false

/-!
# When a connection counts as established

The guards count a connection as half-open from its reservation until it is marked established.
The async server does that after the TLS handshake. The sync server only sets up a stream that will
do the handshake with the first reads and writes of the handler, and marks the connection before
that; the async proxy marks it before it begins to forward, and with that to accept TLS.

## Main definitions

* `Synclaire.Logged` — an operation that logs the calls it makes.
* `Synclaire.connectSync`, `Synclaire.connectAsync`, `Synclaire.connectProxy` — what the servers do
  with a connection.
* `Synclaire.EstablishedAfterHandshake` — it is marked only after its handshake is complete.
* `Synclaire.Prepared` — the server comes to the mark.

## Main results

* `Synclaire.prepareSync_answers`, `Synclaire.prepareAsync_answers` — where every call returns, the
  servers come to the mark as in the outcome of a connection.
* `Synclaire.atEach_mark_iff` — the mark comes after a handshake iff the calls before it do one.
* `Synclaire.establishedAfterHandshake_iff` — that holds in the async server only.
* `Synclaire.not_forall_establishedAfterHandshake` — a silent client is marked established.

## Implementation notes

`StreamOwned::new` does no I/O, so a handshake is complete when `TlsAcceptor::accept` has returned,
or later, in the reads and writes of a handler of the sync server. The client and the system decide
what a call returns, and whether it does: the answer `none` is a call that waits, or that is given
up with its task.
-/

namespace Synclaire

/-- The calls that a server makes for a connection. -/
inductive ConnOp
  | setReadTimeout
  | setWriteTimeout
  | reserve
  | peek
  /-- The configuration of TLS and what is made from it without I/O. -/
  | tlsSetup
  /-- `TlsAcceptor::accept`: the handshake. -/
  | tlsAccept
  | markEstablished
  | handle
  | resolveAuth
  | connectBackend
  /-- The auth phase and the relay of a proxy. -/
  | forward
  deriving DecidableEq

/-- What a call returned; `none` while it has not. -/
abbrev Answer (α : Type) := Option (Except SynError α)

/-- A call, and how it ended. -/
structure ConnCall where
  op : ConnOp
  ending : Answer Unit
  deriving DecidableEq

/-- An operation that logs its calls. -/
structure Logged (α : Type) where
  log : List ConnCall
  result : Answer α

namespace Logged

/-- A call. -/
def call {α : Type} (op : ConnOp) (answer : Answer α) : Logged α :=
  ⟨[⟨op, answer.map fun r => r.map fun _ => ()⟩], answer⟩

/-- What a call returns is its result. -/
@[simp] theorem call_result {α : Type} (op : ConnOp) (answer : Answer α) :
    (call op answer).result = answer := rfl

/-- An error of the server's own. -/
def fail {α : Type} (err : SynError) : Logged α := ⟨[], some (.error err)⟩

/-- What follows a call that succeeded. -/
def andThen {α β : Type} (x : Logged α) (f : α → Logged β) : Logged β :=
  match x.result with
  | some (.ok a) => ⟨x.log ++ (f a).log, (f a).result⟩
  | some (.error err) => ⟨x.log, some (.error err)⟩
  | none => ⟨x.log, none⟩

instance : Monad Logged where
  pure a := ⟨[], some (.ok a)⟩
  bind := andThen

/-- The calls of one operation after another. -/
theorem log_bind {α β : Type} (x : Logged α) (f : α → Logged β) :
    (x >>= f).log = x.log ++ match x.result with
      | some (.ok a) => (f a).log
      | _ => [] := by
  change (andThen x f).log = _
  unfold andThen
  rcases x.result with _ | _ | _ <;> simp

/-- The result of one operation after another. -/
theorem result_bind {α β : Type} (x : Logged α) (f : α → Logged β) :
    (x >>= f).result = match x.result with
      | some (.ok a) => (f a).result
      | some (.error err) => some (.error err)
      | none => none := by
  change (andThen x f).result = _
  unfold andThen
  rcases x.result with _ | _ | _ <;> simp

/-- One operation after another succeeds iff both do. -/
theorem result_bind_eq_ok_iff {α β : Type} {x : Logged α} {f : α → Logged β} {b : β} :
    (x >>= f).result = some (.ok b) ↔
      ∃ a, x.result = some (.ok a) ∧ (f a).result = some (.ok b) := by
  rw [result_bind]
  rcases x.result with _ | _ | _ <;> simp

/-- One operation after another that returns nothing. -/
theorem result_bind_unit_eq_ok_iff {β : Type} {x : Logged Unit} {f : Unit → Logged β} {b : β} :
    (x >>= f).result = some (.ok b) ↔
      x.result = some (.ok ()) ∧ (f ()).result = some (.ok b) := by
  rw [result_bind_eq_ok_iff]
  exact ⟨fun ⟨(), h⟩ => h, fun h => ⟨(), h⟩⟩

/-- Where every call returns, the results are those of the operations without the log. -/
theorem result_bind_of_some {α β : Type} {x : Logged α} {f : α → Logged β}
    {r : Except SynError α} {g : α → Except SynError β} (hx : x.result = some r)
    (hf : ∀ a, (f a).result = some (g a)) : (x >>= f).result = some (r >>= g) := by
  rw [result_bind, hx]
  cases r with
  | error err => rfl
  | ok a => exact hf a

/-- All calls are of some sort. -/
def Only {α : Type} (p : ConnOp → Prop) (x : Logged α) : Prop := ∀ c ∈ x.log, p c.op

/-- A call of that sort. -/
theorem only_call {α : Type} {p : ConnOp → Prop} {op : ConnOp} {answer : Answer α} (h : p op) :
    Only p (call op answer) := by
  intro c hc
  obtain rfl := List.mem_singleton.mp hc
  exact h

/-- No call. -/
theorem only_pure {α : Type} {p : ConnOp → Prop} {a : α} : Only p (pure a : Logged α) := by
  intro c hc
  exact absurd hc List.not_mem_nil

/-- No call, for an error. -/
theorem only_fail {α : Type} {p : ConnOp → Prop} {err : SynError} :
    Only p (fail err : Logged α) := by
  intro c hc
  exact absurd hc List.not_mem_nil

/-- One operation after another. -/
theorem Only.bind {α β : Type} {p : ConnOp → Prop} {x : Logged α} {f : α → Logged β}
    (hx : Only p x) (hf : ∀ a, Only p (f a)) : Only p (x >>= f) := by
  intro c hc
  rw [log_bind] at hc
  rcases List.mem_append.mp hc with hc | hc
  · exact hx c hc
  · split at hc
    · exact hf _ c hc
    · exact absurd hc List.not_mem_nil

/-- What the second operation logs comes after it. -/
theorem mem_log_bind_right {α β : Type} {x : Logged α} {f : α → Logged β} {c : ConnCall} {a : α}
    (hx : x.result = some (.ok a)) (h : c ∈ (f a).log) : c ∈ (x >>= f).log := by
  rw [log_bind, hx]
  exact List.mem_append_right _ h

end Logged

open Logged

/-- What the calls for a connection return. -/
structure ConnAnswers where
  setReadTimeout : Answer Unit
  setWriteTimeout : Answer Unit
  reserve : Answer Unit
  /-- The first byte of the stream; none at its end. -/
  peek : Answer (Option UInt8)
  tlsSetup : Answer Unit
  tlsAccept : Answer Unit
  markEstablished : Answer Unit
  handle : Answer Unit
  resolveAuth : Answer Unit
  connectBackend : Answer Unit
  forward : Answer Unit

/-- How the crate was built and the server configured. -/
structure TlsSetup where
  /-- The crate was built with a TLS backend. -/
  tlsBackend : Bool
  config : ServerConfig
  /-- The `tls_offload` of a proxy is there and enabled. -/
  tlsOffload : Bool

/-! ## The servers -/

/-- The error of a mode that the crate was not built for. -/
def unsupportedMode : AcceptMode → SynError
  | .mixed => .unsupportedFeature
      "Mixed mode requires the rustls-backend or aws-lc-backend feature".toList
  | _ => .unsupportedFeature "TLS requires the rustls-backend or aws-lc-backend feature".toList

/-- `tls::accept_sync`: no I/O. -/
def acceptSync (env : ConnAnswers) : Logged Unit := call .tlsSetup env.tlsSetup

/-- `tls::accept_async`. -/
def acceptAsync (env : ConnAnswers) : Logged Unit := do
  call .tlsSetup env.tlsSetup
  call .tlsAccept env.tlsAccept

/-- `peek_is_tls` of the async server: a failure is "no". -/
def peekIsTls (env : ConnAnswers) : Logged Bool :=
  ⟨(call .peek env.peek).log, env.peek.map fun first => .ok (first.toOption = some (some 0x16))⟩

/-- What `handle_sync_connection` does before it marks the connection. -/
def prepareSync (setup : TlsSetup) (env : ConnAnswers) : Logged Unit := do
  call .setReadTimeout env.setReadTimeout
  call .setWriteTimeout env.setWriteTimeout
  call .reserve env.reserve
  match setup.config.effectiveMode with
  | .tls => if setup.tlsBackend then acceptSync env else fail (unsupportedMode .tls)
  | .mixed =>
    if setup.tlsBackend then do
      let first ← call .peek env.peek
      if first = some 0x16 then acceptSync env else pure ()
    else fail (unsupportedMode .mixed)
  | .tcp => pure ()

/-- `handle_sync_connection`. -/
def connectSync (setup : TlsSetup) (env : ConnAnswers) : Logged Unit := do
  prepareSync setup env
  call .markEstablished env.markEstablished
  call .handle env.handle

/-- What the async server and its `handle_async_connection` do before the connection is marked. -/
def prepareAsync (setup : TlsSetup) (env : ConnAnswers) : Logged Unit := do
  call .reserve env.reserve
  match setup.config.effectiveMode with
  | .tls => if setup.tlsBackend then acceptAsync env else fail (unsupportedMode .tls)
  | .mixed =>
    if setup.tlsBackend then do
      let isTls ← peekIsTls env
      if isTls then acceptAsync env else pure ()
    else fail (unsupportedMode .mixed)
  | .tcp => pure ()

/-- `handle_async_connection`, after the reservation. -/
def connectAsync (setup : TlsSetup) (env : ConnAnswers) : Logged Unit := do
  prepareAsync setup env
  call .markEstablished env.markEstablished
  call .handle env.handle

/-- `forward_async_connection`. -/
def forwardAsync (setup : TlsSetup) (env : ConnAnswers) : Logged Unit := do
  call .resolveAuth env.resolveAuth
  call .connectBackend env.connectBackend
  if setup.tlsOffload then
    if setup.tlsBackend then
      acceptAsync env
      call .forward env.forward
    else fail (.unsupportedFeature
      "proxy TLS offload requires rustls-backend or aws-lc-backend feature".toList)
  else call .forward env.forward

/-- A connection in `AsyncProxyServer::run`, after its backend was chosen. -/
def connectProxy (setup : TlsSetup) (env : ConnAnswers) : Logged Unit := do
  call .reserve env.reserve
  call .markEstablished env.markEstablished
  forwardAsync setup env

/-! ## The handling of a connection -/

/-- The answers of an environment in which every call returns. For the sync server `tlsAccept` is
the call of `accept_sync`, for the async server that of `accept_async`. -/
def ConnectionEnv.answers (env : ConnectionEnv) : ConnAnswers where
  setReadTimeout := some env.setReadTimeout
  setWriteTimeout := some env.setWriteTimeout
  reserve := some env.reserve
  peek := some env.peek
  tlsSetup := some env.tlsAccept
  tlsAccept := some env.tlsAccept
  markEstablished := some env.markEstablished
  handle := none
  resolveAuth := none
  connectBackend := none
  forward := none

/-- The sync server comes to the mark as `handleSyncConnection` does. -/
theorem prepareSync_answers (setup : TlsSetup) (env : ConnectionEnv) :
    (prepareSync setup env.answers).result = some (do
      env.setReadTimeout
      env.setWriteTimeout
      env.reserve
      openSync setup.tlsBackend setup.config env) := by
  unfold prepareSync openSync
  refine result_bind_of_some rfl fun _ => result_bind_of_some rfl fun _ =>
    result_bind_of_some rfl fun _ => ?_
  cases setup.config.effectiveMode with
  | tls => cases setup.tlsBackend <;> rfl
  | tcp => rfl
  | mixed =>
    cases setup.tlsBackend with
    | false => rfl
    | true =>
      refine result_bind_of_some rfl fun first => ?_
      split_ifs <;> rfl

/-- The async server comes to the mark as `handleAsyncConnection` does. -/
theorem prepareAsync_answers (setup : TlsSetup) (env : ConnectionEnv) :
    (prepareAsync setup env.answers).result = some (do
      env.reserve
      openAsync setup.tlsBackend setup.config env) := by
  have haccept : (acceptAsync env.answers).result = some env.tlsAccept := by
    have h : env.tlsAccept = (do env.tlsAccept; env.tlsAccept) := by
      cases env.tlsAccept <;> rfl
    rw [h]
    exact result_bind_of_some rfl fun _ => rfl
  unfold prepareAsync openAsync openSync
  refine result_bind_of_some rfl fun _ => ?_
  cases setup.config.effectiveMode with
  | tls =>
    cases setup.tlsBackend with
    | false => rfl
    | true => exact haccept
  | tcp => rfl
  | mixed =>
    cases setup.tlsBackend with
    | false => rfl
    | true =>
      have hpeek : (peekIsTls env.answers).result =
          some (.ok (decide (env.peek.toOption = some (some 0x16)))) := rfl
      simp only [if_true]
      rw [result_bind, hpeek]
      by_cases hfirst : env.peek = .ok (some 0x16)
      · simpa [hfirst, Except.toOption] using haccept
      · have hno : env.peek.toOption ≠ some (some 0x16) := by
          cases hp : env.peek with
          | error err => simp [Except.toOption]
          | ok first => simpa [Except.toOption, hp] using hfirst
        simp only [hno, decide_false, Bool.false_eq_true, if_false]
        rfl

/-! ## The mark and the handshake -/

/-- The servers that serve TLS. -/
inductive TlsServer
  | syncServer
  | asyncServer
  | asyncProxy
  deriving DecidableEq

/-- What a server does with a connection. -/
def TlsServer.connect : TlsServer → TlsSetup → ConnAnswers → Logged Unit
  | .syncServer => connectSync
  | .asyncServer => connectAsync
  | .asyncProxy => connectProxy

/-- The connection is served over TLS: by the mode, by its first byte, or by the offload. -/
def ServedOverTls (server : TlsServer) (setup : TlsSetup) (env : ConnAnswers) : Prop :=
  setup.tlsBackend = true ∧
    match server with
    | .asyncProxy => setup.tlsOffload = true
    | _ => setup.config.effectiveMode = .tls ∨
        setup.config.effectiveMode = .mixed ∧ env.peek = some (.ok (some 0x16))

/-- The handshake is complete. -/
def handshakeComplete : ConnCall := ⟨.tlsAccept, some (.ok ())⟩

/-- **Half-open until the handshake**: the connection is marked established only after its
handshake is complete. -/
def EstablishedAfterHandshake (log : List ConnCall) : Prop :=
  Log.AtEach (fun before c => c.op = .markEstablished → handshakeComplete ∈ before) log

/-- The server comes to the mark: all calls before it succeed. -/
def Prepared (env : ConnAnswers) : TlsServer → Prop
  | .syncServer => env.setReadTimeout = some (.ok ()) ∧ env.setWriteTimeout = some (.ok ()) ∧
      env.reserve = some (.ok ()) ∧ env.tlsSetup = some (.ok ())
  | .asyncServer => env.reserve = some (.ok ()) ∧ env.tlsSetup = some (.ok ()) ∧
      env.tlsAccept = some (.ok ())
  | .asyncProxy => env.reserve = some (.ok ())

/-- **The mark comes after a handshake** iff the calls before it do one, or do not get to it. -/
theorem atEach_mark_iff {prepare : Logged Unit} {answer : Answer Unit} {rest : Unit → Logged Unit}
    (hprepare : Only (· ≠ .markEstablished) prepare)
    (hrest : ∀ u, Only (· ≠ .markEstablished) (rest u)) :
    EstablishedAfterHandshake (prepare >>= fun _ => call .markEstablished answer >>= rest).log ↔
      (prepare.result = some (.ok ()) → handshakeComplete ∈ prepare.log) := by
  have hbefore : EstablishedAfterHandshake prepare.log :=
    Log.atEach_of_forall fun c hc before hmark => absurd hmark (hprepare c hc)
  obtain ⟨mark, tail, hmark, hlog, htail⟩ : ∃ mark tail, mark.op = .markEstablished ∧
      (call .markEstablished answer >>= rest).log = mark :: tail ∧
        ∀ c ∈ tail, c.op ≠ .markEstablished := by
    refine ⟨_, _, rfl, log_bind _ _, ?_⟩
    intro c hc
    split at hc
    · exact hrest _ c hc
    · exact absurd hc List.not_mem_nil
  have hafter : Log.AtEach (fun before c => c.op = .markEstablished →
      handshakeComplete ∈ prepare.log ++ mark :: before) tail :=
    Log.atEach_of_forall fun c hc before hmark => absurd hmark (htail c hc)
  unfold EstablishedAfterHandshake at hbefore ⊢
  rw [log_bind]
  rcases hresult : prepare.result with _ | err | u
  · simpa using hbefore
  · simpa using hbefore
  · rw [hlog, Log.atEach_append, Log.atEach_cons, List.append_nil]
    constructor
    · exact fun h _ => h.2.1 hmark
    · exact fun h => ⟨hbefore, fun _ => h rfl, hafter⟩

/-! ## The three servers -/

/-- The sync server prepares a connection without a handshake, and without the mark. -/
theorem only_prepareSync (setup : TlsSetup) (env : ConnAnswers) :
    Only (fun op => op ≠ .tlsAccept ∧ op ≠ .markEstablished) (prepareSync setup env) := by
  unfold prepareSync acceptSync
  refine (only_call ?_).bind fun _ => (only_call ?_).bind fun _ => (only_call ?_).bind fun _ => ?_
  · decide
  · decide
  · decide
  split
  · split_ifs
    · exact only_call (by decide)
    · exact only_fail
  · split_ifs
    · refine (only_call ?_).bind fun first => ?_
      · decide
      split_ifs
      · exact only_call (by decide)
      · exact only_pure
    · exact only_fail
  · exact only_pure

/-- The async server prepares a connection without the mark. -/
theorem only_prepareAsync (setup : TlsSetup) (env : ConnAnswers) :
    Only (· ≠ .markEstablished) (prepareAsync setup env) := by
  have haccept : Only (· ≠ .markEstablished) (acceptAsync env) := by
    refine (only_call ?_).bind fun _ => only_call ?_
    · decide
    · decide
  have hpeek : Only (· ≠ .markEstablished) (peekIsTls env) := by
    intro c hc
    obtain rfl := List.mem_singleton.mp hc
    exact nofun
  unfold prepareAsync
  refine (only_call ?_).bind fun _ => ?_
  · decide
  split
  · split_ifs
    · exact haccept
    · exact only_fail
  · split_ifs
    · refine hpeek.bind fun isTls => ?_
      split_ifs
      · exact haccept
      · exact only_pure
    · exact only_fail
  · exact only_pure

/-- A TLS connection is prepared by the sync server iff its calls succeed. -/
theorem prepareSync_result_iff {setup : TlsSetup} {env : ConnAnswers}
    (htls : ServedOverTls .syncServer setup env) :
    (prepareSync setup env).result = some (.ok ()) ↔ Prepared env .syncServer := by
  obtain ⟨hbackend, hmode⟩ := htls
  unfold prepareSync Prepared
  rcases hmode with hmode | ⟨hmode, hpeek⟩
  · simp only [result_bind_unit_eq_ok_iff, call_result, hmode, hbackend, if_true, acceptSync]
  · simp only [result_bind_unit_eq_ok_iff, call_result, hmode, hbackend, if_true]
    simp [result_bind_eq_ok_iff, hpeek, acceptSync]

/-- A TLS connection that the async server has prepared has done its handshake. -/
theorem handshakeComplete_mem_prepareAsync {setup : TlsSetup} {env : ConnAnswers}
    (htls : ServedOverTls .asyncServer setup env)
    (h : (prepareAsync setup env).result = some (.ok ())) :
    handshakeComplete ∈ (prepareAsync setup env).log := by
  have haccept : (acceptAsync env).result = some (.ok ()) →
      handshakeComplete ∈ (acceptAsync env).log := by
    intro haccept
    obtain ⟨hsetup, haccept⟩ := result_bind_unit_eq_ok_iff.mp haccept
    refine mem_log_bind_right hsetup ?_
    rw [call_result] at haccept
    rw [call, haccept]
    exact List.mem_singleton.mpr rfl
  obtain ⟨hbackend, hmode⟩ := htls
  obtain ⟨hreserve, hrest⟩ := result_bind_unit_eq_ok_iff.mp h
  refine mem_log_bind_right hreserve ?_
  rcases hmode with hmode | ⟨hmode, hpeek⟩
  · simp only [hmode, hbackend, if_true] at hrest ⊢
    exact haccept hrest
  · have hisTls : (peekIsTls env).result = some (.ok true) := by
      rw [peekIsTls, hpeek]
      rfl
    simp only [hmode, hbackend, if_true] at hrest ⊢
    obtain ⟨isTls, hpeeked, hrest⟩ := result_bind_eq_ok_iff.mp hrest
    obtain rfl : true = isTls := by simpa [hisTls] using hpeeked
    exact mem_log_bind_right hisTls (haccept hrest)

/-- A proxy forwards without another mark. -/
theorem only_forwardAsync (setup : TlsSetup) (env : ConnAnswers) :
    Only (· ≠ .markEstablished) (forwardAsync setup env) := by
  unfold forwardAsync acceptAsync
  refine (only_call ?_).bind fun _ => (only_call ?_).bind fun _ => ?_
  · decide
  · decide
  split_ifs
  · refine Only.bind ((only_call ?_).bind fun _ => only_call ?_) fun _ => only_call ?_
    · decide
    · decide
    · decide
  · exact only_fail
  · exact only_call (by decide)

/-- **Which servers keep a TLS connection half-open until its handshake is complete**: the async
server, for every client. The sync server and the async proxy do so only when they do not come to
the mark at all.

**Proof sketch.** By `atEach_mark_iff` the calls before the mark decide: those of the async server
end with the handshake, and those of the others have none. -/
theorem establishedAfterHandshake_iff {server : TlsServer} {setup : TlsSetup} {env : ConnAnswers}
    (htls : ServedOverTls server setup env) :
    EstablishedAfterHandshake (server.connect setup env).log ↔
      server = .asyncServer ∨ ¬Prepared env server := by
  cases server with
  | syncServer =>
    have honly := only_prepareSync setup env
    have hnot : handshakeComplete ∉ (prepareSync setup env).log := fun hc => (honly _ hc).1 rfl
    refine (atEach_mark_iff (fun c hc => (honly c hc).2) fun _ => only_call ?_).trans ?_
    · decide
    rw [prepareSync_result_iff htls]
    simp [hnot]
  | asyncServer =>
    refine (atEach_mark_iff (only_prepareAsync setup env) fun _ => only_call ?_).trans ?_
    · decide
    exact iff_of_true (handshakeComplete_mem_prepareAsync htls) (.inl rfl)
  | asyncProxy =>
    have hnot : handshakeComplete ∉ (call .reserve env.reserve).log := by
      simp [call, handshakeComplete]
    refine (atEach_mark_iff (only_call ?_) fun _ => only_forwardAsync setup env).trans ?_
    · decide
    rw [call_result]
    simp [hnot, Prepared]

/-- A client that connects over TLS and sends nothing: the calls that need nothing from it return,
and the others wait. -/
def silentClient : ConnAnswers where
  setReadTimeout := some (.ok ())
  setWriteTimeout := some (.ok ())
  reserve := some (.ok ())
  peek := none
  tlsSetup := some (.ok ())
  tlsAccept := none
  markEstablished := some (.ok ())
  handle := none
  resolveAuth := some (.ok ())
  connectBackend := some (.ok ())
  forward := none

/-- A server for TLS only. -/
def tlsOnly : TlsSetup where
  tlsBackend := true
  config := { workerThreads := 1, maxConnections := 1, tlsEnabled := true, acceptMode := .tls }
  tlsOffload := true

/-- The criterion for the silent client and the async server: it stays half-open. -/
theorem establishedAfterHandshake_iff_silentClient :
    EstablishedAfterHandshake (TlsServer.connect .asyncServer tlsOnly silentClient).log ↔
      TlsServer.asyncServer = .asyncServer ∨ ¬Prepared silentClient .asyncServer :=
  establishedAfterHandshake_iff ⟨rfl, .inl rfl⟩

/-- The sync server and the async proxy mark the silent client established. -/
theorem not_forall_establishedAfterHandshake :
    ¬∀ (server : TlsServer) (setup : TlsSetup) (env : ConnAnswers),
      ServedOverTls server setup env →
        EstablishedAfterHandshake (server.connect setup env).log := by
  intro h
  have hmarked := h .syncServer tlsOnly silentClient ⟨rfl, .inl rfl⟩
    [⟨.setReadTimeout, some (.ok ())⟩, ⟨.setWriteTimeout, some (.ok ())⟩,
      ⟨.reserve, some (.ok ())⟩, ⟨.tlsSetup, some (.ok ())⟩]
    ⟨.markEstablished, some (.ok ())⟩ [⟨.handle, none⟩] rfl rfl
  simp [handshakeComplete] at hmarked

end Synclaire
