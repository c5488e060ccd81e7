import Synclaire.Error

set_option relaxedAutoImplicit false
set_option autoImplicit false

/-!
# Handling one admitted connection

What a server does with an admitted connection before the handler gets it: reserve it at the
guards, prepare the transport, mark the session established. Every failure on the way is an
error of the whole; only the handler itself can panic.

## Main definitions

* `Synclaire.ServerConfig` — the fields of the configuration that the servers' loops read.
* `Synclaire.ServerSetup` — how a server was built and started.
* `Synclaire.ConnectionEnv` — what the operations on one connection return.
* `Synclaire.handleSyncConnection`, `Synclaire.handleAsyncConnection` — the outcome.

## Main results

* `Synclaire.handleSyncConnection_eq_panicked_iff` — a connection panics iff its handler is
  called and panics.

## Implementation notes

The sync server reserves on the worker thread and the async server before it spawns the task, so
only the first has the reservation here.
-/

namespace Synclaire

/-- `AcceptMode`. -/
inductive AcceptMode
  | tcp
  | tls
  /-- Auto-detect TLS vs plain TCP per connection by peeking the first byte. -/
  | mixed
  deriving DecidableEq

/-- The fields of `ServerConfig` that the loops of the servers read. -/
structure ServerConfig where
  workerThreads : ℕ
  maxConnections : ℕ
  tlsEnabled : Bool := false
  acceptMode : AcceptMode := .tcp
  deriving DecidableEq

/-- How a server was built and started. -/
structure ServerSetup where
  config : ServerConfig
  /-- The crate was built with a TLS backend. -/
  tlsBackend : Bool := true
  /-- By `run_until_shutdown`, not by `run`. -/
  untilShutdown : Bool := true

/-- How a call of a handler ends. -/
inductive HandlerOutcome
  | returned (result : Except SynError Unit)
  | panicked
  deriving DecidableEq

/-- What the operations on one connection return: the socket, the guards, the TLS handshake and
the handler. -/
structure ConnectionEnv where
  setReadTimeout : Except SynError Unit := .ok ()
  setWriteTimeout : Except SynError Unit := .ok ()
  reserve : Except SynError Unit := .ok ()
  /-- The first byte of the stream; none at its end. -/
  peek : Except SynError (Option UInt8) := .ok none
  tlsAccept : Except SynError Unit := .ok ()
  markEstablished : Except SynError Unit := .ok ()
  handle : HandlerOutcome
  deriving DecidableEq

/-- The mode of a connection: TLS may be asked for by either field. -/
def ServerConfig.effectiveMode (config : ServerConfig) : AcceptMode :=
  if config.acceptMode = .mixed then .mixed
  else if config.tlsEnabled ∨ config.acceptMode = .tls then .tls
  else .tcp

/-- The transport of a connection in the sync server. -/
def openSync (tlsBackend : Bool) (config : ServerConfig) (env : ConnectionEnv) :
    Except SynError Unit :=
  match config.effectiveMode with
  | .tls =>
    if tlsBackend then env.tlsAccept
    else .error
      (.unsupportedFeature "TLS requires the rustls-backend or aws-lc-backend feature".toList)
  | .mixed =>
    if tlsBackend then do
      let first ← env.peek
      if first = some 0x16 then env.tlsAccept else .ok ()
    else .error (.unsupportedFeature
      "Mixed mode requires the rustls-backend or aws-lc-backend feature".toList)
  | .tcp => .ok ()

/-- The transport of a connection in the async server, whose `peek_is_tls` takes a failure for
"no". -/
def openAsync (tlsBackend : Bool) (config : ServerConfig) (env : ConnectionEnv) :
    Except SynError Unit :=
  match config.effectiveMode with
  | .mixed =>
    if tlsBackend then
      match env.peek with
      | .ok (some 0x16) => env.tlsAccept
      | _ => .ok ()
    else openSync tlsBackend config env
  | _ => openSync tlsBackend config env

/-- `handle_sync_connection`. -/
def handleSyncConnection (tlsBackend : Bool) (config : ServerConfig) (env : ConnectionEnv) :
    HandlerOutcome :=
  let prepared : Except SynError Unit := do
    env.setReadTimeout
    env.setWriteTimeout
    env.reserve
    openSync tlsBackend config env
    env.markEstablished
  match prepared with
  | .ok _ => env.handle
  | .error err => .returned (.error err)

/-- `handle_async_connection`. -/
def handleAsyncConnection (tlsBackend : Bool) (config : ServerConfig) (env : ConnectionEnv) :
    HandlerOutcome :=
  let prepared : Except SynError Unit := do
    openAsync tlsBackend config env
    env.markEstablished
  match prepared with
  | .ok _ => env.handle
  | .error err => .returned (.error err)

/-- A sequence of two operations succeeds iff both do. -/
theorem bind_eq_ok_iff {first second : Except SynError Unit} :
    (first >>= fun _ => second) = .ok () ↔ first = .ok () ∧ second = .ok () := by
  cases first with
  | error err => simp [bind, Except.bind]
  | ok _ => simp [bind, Except.bind]

/-- A connection of the sync server panics iff its handler is called, all that comes before it
having succeeded, and panics. -/
theorem handleSyncConnection_eq_panicked_iff (tlsBackend : Bool) (config : ServerConfig)
    (env : ConnectionEnv) :
    handleSyncConnection tlsBackend config env = .panicked ↔
      (env.setReadTimeout = .ok () ∧ env.setWriteTimeout = .ok () ∧ env.reserve = .ok () ∧
        openSync tlsBackend config env = .ok () ∧ env.markEstablished = .ok ()) ∧
          env.handle = .panicked := by
  simp only [← bind_eq_ok_iff]
  unfold handleSyncConnection
  dsimp only
  split
  · rename_i hprepared
    simp [hprepared]
  · rename_i hprepared
    simp [hprepared]

end Synclaire
