import Synclaire.Proxy.Relay

set_option relaxedAutoImplicit false
set_option autoImplicit false

/-!
# What a direction of the sync relay carries

Each thread of `forward_bidirectional` reads into a buffer and writes what it has read, until a
read returns nothing. Every round moves the next bytes of the stream, so the loop comes to the end
of the stream whatever sizes the reads return. A buffer of no bytes makes the first read return
nothing, and the loop takes that for the end of the stream.

## Main definitions

* `Synclaire.copyLoop` — the loop of a thread.
* `Synclaire.forwardBidirectional` — both threads.
* `Synclaire.CarriesStream` — a direction writes its stream, and a prefix of it after an error.
* `Synclaire.RelayState.Accounts` — where the bytes are that a source has sent.

## Main results

* `Synclaire.copyLoop_isPrefix` — the loop writes a prefix of the stream.
* `Synclaire.copyLoop_of_isOk` — without errors it writes the stream.
* `Synclaire.carriesStream_iff` — which buffer sizes carry a stream.
* `Synclaire.RelayState.written_eq_copyLoop` — a direction of the relay has written what the loop
  writes, however the threads and the peers interleave.

## Implementation notes

The turns that the system decides are given as a list, and the loop that has used them up has not
ended. A `Vec` holds at most `isize::MAX` bytes; the memory for that is there. The runs of the relay
begin when both threads have made their buffers.
-/

namespace Synclaire

/-! ## The loop of a thread -/

/-- `isize::MAX`, where a pointer has 64 bits. -/
def isizeMax : ℕ := 2 ^ 63 - 1

/-- What the system decides in one round of the loop. -/
structure CopyTurn where
  /-- How many of the bytes that have come a read returns, or its error, a timeout among them. -/
  read : Except Str ℕ
  /-- The bytes that `write_all` has written when it fails, if it does. -/
  writeFails : Option ℕ
  deriving DecidableEq

/-- Neither call fails. -/
def CopyTurn.IsOk (turn : CopyTurn) : Prop := (∃ n, turn.read = .ok n) ∧ turn.writeFails = none

/-- `Read::read`: at least one byte, unless the stream has ended or the buffer is empty. -/
def readInto (bufferSize : ℕ) (unread : List UInt8) (n : ℕ) : List UInt8 :=
  unread.take (min bufferSize (max 1 n))

/-- What a loop has written. -/
structure Copied where
  written : List UInt8
  ended : Bool
  deriving DecidableEq

/-- The loop of a thread of `forward_bidirectional`. -/
def copyLoop (bufferSize : ℕ) : List CopyTurn → List UInt8 → Copied
  | [], _ => ⟨[], false⟩
  | turn :: turns, unread =>
    match turn.read with
    | .error _ => ⟨[], true⟩
    | .ok n =>
      match readInto bufferSize unread n with
      | [] => ⟨[], true⟩
      | x :: chunk =>
        match turn.writeFails with
        -- some of the bytes were not written
        | some k => ⟨(x :: chunk).dropLast.take k, true⟩
        | none =>
          let rest := copyLoop bufferSize turns (unread.drop (x :: chunk).length)
          ⟨x :: chunk ++ rest.written, rest.ended⟩

/-- A thread of `forward_bidirectional`, which panics where it cannot make its buffer. -/
def copyThread (bufferSize : ℕ) (turns : List CopyTurn) (unread : List UInt8) : Copied :=
  if isizeMax < bufferSize then ⟨[], true⟩ else copyLoop bufferSize turns unread

/-- What the system decides for the two threads. -/
structure BidirectionalEnv where
  cloneClient : Except Str Unit
  cloneBackend : Except Str Unit
  turns : Direction → List CopyTurn

/-- No call fails. -/
structure BidirectionalEnv.IsOk (env : BidirectionalEnv) : Prop where
  cloneClient : env.cloneClient = .ok ()
  cloneBackend : env.cloneBackend = .ok ()
  turns : ∀ d, ∀ turn ∈ env.turns d, turn.IsOk

/-- `ProxyConfig::with_buffer_size`. -/
def ForwardConfig.withBufferSize (config : ForwardConfig) (size : ℕ) : ForwardConfig :=
  { config with bufferSize := size }

/-- `TcpProxy::forward_bidirectional`, which returns `Ok(())` when both threads have ended. -/
def forwardBidirectional (config : ForwardConfig) (env : BidirectionalEnv)
    (stream : Direction → List UInt8) : Except SynError (Direction → Copied) := do
  env.cloneClient.mapError fun e =>
    .connectionError ("Failed to clone client for reverse: ".toList ++ e)
  env.cloneBackend.mapError fun e =>
    .connectionError ("Failed to clone backend for forward: ".toList ++ e)
  pure fun d => copyThread config.bufferSize (env.turns d) (stream d)

/-- A read returns the next bytes of the stream. -/
theorem readInto_append_drop (bufferSize : ℕ) (unread : List UInt8) (n : ℕ) :
    readInto bufferSize unread n ++ unread.drop (readInto bufferSize unread n).length = unread := by
  unfold readInto
  rw [List.length_take]
  rcases le_total (min bufferSize (max 1 n)) unread.length with h | h
  · rw [min_eq_left h, List.take_append_drop]
  · rw [min_eq_right h, List.take_of_length_le h, List.drop_length, List.append_nil]

/-- A read returns nothing only at the end of the stream, or into an empty buffer. -/
theorem readInto_eq_nil_iff {bufferSize : ℕ} {unread : List UInt8} {n : ℕ} :
    readInto bufferSize unread n = [] ↔ bufferSize = 0 ∨ unread = [] := by
  unfold readInto
  rw [List.take_eq_nil_iff]
  have hmax : max 1 n ≠ 0 := by omega
  simp [hmax]

/-- **The loop writes a prefix of the stream**, whatever fails.

**Proof sketch.** Induction on the turns. A turn writes the bytes it has read, or some of them if
the write fails, and the next turn goes on where it stopped. -/
theorem copyLoop_isPrefix (bufferSize : ℕ) (turns : List CopyTurn) (unread : List UInt8) :
    (copyLoop bufferSize turns unread).written <+: unread := by
  induction turns generalizing unread with
  | nil => exact List.nil_prefix
  | cons turn turns ih =>
    unfold copyLoop
    split
    · exact List.nil_prefix
    · rename_i n _
      have hread := readInto_append_drop bufferSize unread n
      split
      · exact List.nil_prefix
      · rename_i x chunk hchunk
        rw [hchunk] at hread
        split
        · rename_i k _
          have hsome : (x :: chunk).dropLast.take k <+: x :: chunk :=
            (List.take_prefix _ _).trans (List.dropLast_prefix _)
          exact hsome.trans ⟨_, hread⟩
        · simp only
          conv_rhs => rw [← hread]
          exact (List.prefix_append_right_inj _).mpr (ih _)

/-- **Without errors the loop writes the stream** and ends, if its buffer holds a byte, or there is
nothing to write.

**Proof sketch.** Induction on the turns. A read returns nothing only at the end of the stream, and
every other turn makes the stream shorter. -/
theorem copyLoop_of_isOk {bufferSize : ℕ} {turns : List CopyTurn} {unread : List UInt8}
    (hbuffer : 0 < bufferSize ∨ unread = []) (hok : ∀ turn ∈ turns, turn.IsOk)
    (hturns : unread.length < turns.length) :
    copyLoop bufferSize turns unread = ⟨unread, true⟩ := by
  induction turns generalizing unread with
  | nil => exact absurd hturns (Nat.not_lt_zero _)
  | cons turn turns ih =>
    obtain ⟨⟨n, hn⟩, hwrite⟩ := hok turn List.mem_cons_self
    have hread := readInto_append_drop bufferSize unread n
    have hnil : readInto bufferSize unread n = [] ↔ _ := readInto_eq_nil_iff
    simp only [copyLoop, hn, hwrite]
    split
    · rename_i hend
      have hunread : unread = [] := by
        rcases hnil.mp hend with hzero | hunread
        · exact hbuffer.resolve_left (by omega)
        · exact hunread
      rw [hunread]
    · rename_i x chunk hchunk
      rw [hchunk] at hread hnil
      have hpos : 0 < bufferSize := by
        refine Nat.pos_of_ne_zero fun hzero => ?_
        exact absurd (hnil.mpr (.inl hzero)) (List.cons_ne_nil _ _)
      have hlength := congrArg List.length hread
      have hless : (unread.drop (x :: chunk).length).length < turns.length := by
        simp only [List.length_append, List.length_drop, List.length_cons] at hturns hlength ⊢
        omega
      rw [ih (.inl hpos) (fun t ht => hok t (List.mem_cons_of_mem _ ht)) hless]
      simpa using hread

/-- With an empty buffer the loop writes nothing. -/
theorem copyLoop_zero (turns : List CopyTurn) (unread : List UInt8) :
    (copyLoop 0 turns unread).written = [] := by
  cases turns with
  | nil => rfl
  | cons turn turns =>
    unfold copyLoop
    cases turn.read with
    | error _ => rfl
    | ok n => simp only [readInto_eq_nil_iff.mpr (.inl rfl)]

/-! ## Both directions -/

/-- What a direction has written when `forward_bidirectional` returns. -/
def writtenTo (config : ForwardConfig) (env : BidirectionalEnv) (stream : Direction → List UInt8)
    (d : Direction) : List UInt8 :=
  match forwardBidirectional config env stream with
  | .ok copied => (copied d).written
  | .error _ => []

/-- **A direction carries its stream**: where no call fails, its thread ends and has written the
stream, whatever sizes the reads return; and in any case it has written a prefix. -/
def CarriesStream (config : ForwardConfig) (d : Direction) (stream : Direction → List UInt8) :
    Prop :=
  ∀ env : BidirectionalEnv,
    writtenTo config env stream d <+: stream d ∧
      (env.IsOk → (stream d).length < (env.turns d).length →
        ∃ copied, forwardBidirectional config env stream = .ok copied ∧
          copied d = ⟨stream d, true⟩)

/-- Nothing fails, and every read returns one byte. -/
def smoothEnv (turns : ℕ) : BidirectionalEnv where
  cloneClient := .ok ()
  cloneBackend := .ok ()
  turns _ := List.replicate turns ⟨.ok 1, none⟩

/-- Nothing fails in it. -/
theorem smoothEnv_isOk (turns : ℕ) : (smoothEnv turns).IsOk := by
  refine ⟨rfl, rfl, fun _ turn hturn => ?_⟩
  obtain rfl := List.eq_of_mem_replicate hturn
  exact ⟨⟨1, rfl⟩, rfl⟩

/-- Where no clone fails, both threads run. -/
theorem forwardBidirectional_of_isOk {config : ForwardConfig} {env : BidirectionalEnv}
    (hok : env.IsOk) (stream : Direction → List UInt8) :
    forwardBidirectional config env stream =
      .ok fun d => copyThread config.bufferSize (env.turns d) (stream d) := by
  unfold forwardBidirectional
  rw [hok.cloneClient, hok.cloneBackend]
  rfl

/-- A thread writes a prefix of its stream. -/
theorem copyThread_isPrefix (bufferSize : ℕ) (turns : List CopyTurn) (unread : List UInt8) :
    (copyThread bufferSize turns unread).written <+: unread := by
  unfold copyThread
  split_ifs
  · exact List.nil_prefix
  · exact copyLoop_isPrefix bufferSize turns unread

/-- Whatever fails, a direction writes a prefix of its stream. -/
theorem writtenTo_isPrefix (config : ForwardConfig) (env : BidirectionalEnv)
    (stream : Direction → List UInt8) (d : Direction) :
    writtenTo config env stream d <+: stream d := by
  unfold writtenTo forwardBidirectional
  cases env.cloneClient with
  | error e => exact List.nil_prefix
  | ok _ =>
    cases env.cloneBackend with
    | error e => exact List.nil_prefix
    | ok _ => exact copyThread_isPrefix _ _ _

/-- **Which buffers carry a stream**: those that hold a byte and can be made. The others carry
only the empty stream.

**Proof sketch.** If the stream has a byte, one more turn than it has bytes shows that the buffer
is neither empty (`copyLoop_zero`) nor too large. -/
theorem carriesStream_iff (config : ForwardConfig) (d : Direction)
    (stream : Direction → List UInt8) :
    CarriesStream config d stream ↔
      (0 < config.bufferSize ∧ config.bufferSize ≤ isizeMax) ∨ stream d = [] := by
  constructor
  · intro h
    have hok := smoothEnv_isOk ((stream d).length + 1)
    obtain ⟨copied, hcopied, hd⟩ := (h _).2 hok (by simp [smoothEnv])
    rw [forwardBidirectional_of_isOk hok, Except.ok.injEq] at hcopied
    subst hcopied
    simp only [copyThread] at hd
    split_ifs at hd with hlarge
    · exact .inr (Copied.mk.inj hd).1.symm
    · rcases Nat.eq_zero_or_pos config.bufferSize with hzero | hpos
      · rw [hzero] at hd
        exact .inr ((congrArg Copied.written hd).symm.trans (copyLoop_zero _ _))
      · exact .inl ⟨hpos, Nat.not_lt.mp hlarge⟩
  · intro h env
    refine ⟨writtenTo_isPrefix config env stream d, fun hok hturns => ?_⟩
    refine ⟨_, forwardBidirectional_of_isOk hok stream, ?_⟩
    simp only [copyThread]
    have hloop : (0 < config.bufferSize ∨ stream d = []) →
        copyLoop config.bufferSize (env.turns d) (stream d) = ⟨stream d, true⟩ := fun hbuffer =>
      copyLoop_of_isOk hbuffer (hok.turns d) hturns
    split_ifs with hlarge
    · rw [h.resolve_left fun hfits => absurd hlarge (Nat.not_lt.mpr hfits.2)]
    · exact hloop (h.imp_left And.left)

/-- With a buffer of no bytes three bytes of a client are lost. -/
theorem not_forall_carriesStream :
    ¬∀ (config : ForwardConfig) (d : Direction) (stream : Direction → List UInt8),
      CarriesStream config d stream := by
  intro h
  have hok := smoothEnv_isOk 4
  have hcarries := h (RelayState.relayConfig.withBufferSize 0) .clientToBackend fun _ => [1, 2, 3]
  obtain ⟨copied, hcopied, hd⟩ := (hcarries (smoothEnv 4)).2 hok (by decide)
  rw [forwardBidirectional_of_isOk hok, Except.ok.injEq] at hcopied
  subst hcopied
  exact absurd hd (by decide)

/-! ## The directions of the relay -/

/-- What the proxy has written to the destination of a direction. -/
def ForwardState.sentTo (s : ForwardState) : Direction → List UInt8
  | .clientToBackend => s.sentToBackend
  | .backendToClient => s.sentToClient

/-- What an action writes to the destination of a direction. -/
def ForwardEffect.sentTo (effect : ForwardEffect) : Direction → List UInt8
  | .clientToBackend => effect.sentToBackend
  | .backendToClient => effect.sentToClient

/-- The loop of a direction, ended before and after the relay. -/
def ForwardPhase.loopIn (d : Direction) : ForwardPhase → RelayLoop
  | .relaying c b => loopOf d c b
  | _ => .ended

namespace RelayState

open ForwardPhase

/-- What an action does to the loop of a direction of the sync relay, with the bytes it writes. -/
inductive LoopStep (bufferSize : ℕ) (d : Direction) :
    RelayLoop → ForwardAction → RelayLoop → List UInt8 → Prop
  | read {x : UInt8} {rest : List UInt8} (hfits : (x :: rest).length ≤ bufferSize) :
      LoopStep bufferSize d .reading (.read d (.ok (x :: rest))) (.writing (x :: rest)) []
  | readEnd : LoopStep bufferSize d .reading (.read d (.ok [])) .ended []
  | readFailed {e : Str} : LoopStep bufferSize d .reading (.read d (.error e)) .ended []
  | write {buf : List UInt8} {n : ℕ} : LoopStep bufferSize d (.writing buf) (.write d n)
      (if buf.drop n = [] then .reading else .writing (buf.drop n)) (buf.take n)
  | writeFailed {buf : List UInt8} {e : Str} :
      LoopStep bufferSize d (.writing buf) (.writeFailed d e) .ended []
  /-- An action of the other direction, or of both when they have ended. -/
  | other {loop : RelayLoop} {a : ForwardAction}
      (hread : ∀ r, a ≠ .read d r) : LoopStep bufferSize d loop a loop []

/-- The loop of a direction, after the loop of a direction was moved. -/
theorem loopIn_setLoop (d e : Direction) (c b loop : RelayLoop) :
    loopIn d (setLoop e c b loop) = if d = e then loop else loopOf d c b := by
  cases d <;> cases e <;> rfl

variable {config : ForwardConfig} {auth : ProxyAuth} {s s' : RelayState}

/-- These are all effects of an action on a direction of the sync relay. -/
theorem loopStep_of_effect {c b : RelayLoop} {a : ForwardAction} {effect : ForwardEffect}
    (h : forwardEffect .sync config auth (.relaying c b) a = some effect) (d : Direction) :
    LoopStep config.bufferSize d (loopOf d c b) a (loopIn d effect.phase) (effect.sentTo d) := by
  -- an action of the other direction leaves this loop as it is
  have hmove : ∀ (e : Direction) (loop : RelayLoop) (sent : List UInt8),
      effect.phase = setLoop e c b loop → effect.sentTo d = (if d = e then sent else []) →
      LoopStep config.bufferSize e (loopOf e c b) a loop sent → (d ≠ e → ∀ r, a ≠ .read d r) →
      LoopStep config.bufferSize d (loopOf d c b) a (loopIn d effect.phase) (effect.sentTo d) := by
    intro e loop sent hphase hsent hstep hread
    rw [hphase, hsent, loopIn_setLoop]
    by_cases hde : d = e
    · rw [if_pos hde, if_pos hde, hde]
      exact hstep
    · rw [if_neg hde, if_neg hde]
      exact .other (hread hde)
  cases a with
  | read e bytes =>
    have hread : d ≠ e → ∀ r, ForwardAction.read e bytes ≠ .read d r := by
      intro hde r hr
      cases hr
      exact hde rfl
    cases hloop : loopOf e c b with
    | reading =>
      rcases bytes with err | _ | ⟨x, rest⟩
      · simp only [forwardEffect, hloop, Option.some.injEq] at h
        subst h
        refine hmove e .ended [] rfl ?_ ?_ hread
        · cases d <;> simp [ForwardEffect.sentTo]
        · rw [hloop]
          exact .readFailed
      · simp only [forwardEffect, hloop, Option.some.injEq] at h
        subst h
        refine hmove e .ended [] rfl ?_ ?_ hread
        · cases d <;> simp [ForwardEffect.sentTo]
        · rw [hloop]
          exact .readEnd
      · simp only [forwardEffect, hloop, true_and] at h
        split_ifs at h with hfits
        refine hmove e (.writing (x :: rest)) [] ?_ ?_ ?_ hread
        · cases e <;> cases h <;> rfl
        · cases e <;> cases h <;> cases d <;> rfl
        · rw [hloop]
          exact .read (Nat.not_lt.mp hfits)
    | _ => simp [forwardEffect, hloop] at h
  | write e n =>
    cases hloop : loopOf e c b with
    | writing buf =>
      simp only [forwardEffect, hloop] at h
      refine hmove e (if buf.drop n = [] then .reading else .writing (buf.drop n)) (buf.take n)
        ?_ ?_ ?_ (by simp)
      · cases e <;> cases h <;> rfl
      · cases e <;> cases h <;> cases d <;> rfl
      · rw [hloop]
        exact .write
    | _ => simp [forwardEffect, hloop] at h
  | writeFailed e err =>
    cases hloop : loopOf e c b with
    | writing buf =>
      simp only [forwardEffect, hloop, Option.some.injEq] at h
      subst h
      refine hmove e .ended [] rfl ?_ ?_ (by simp)
      · cases d <;> simp [ForwardEffect.sentTo]
      · rw [hloop]
        exact .writeFailed
    | _ => simp [forwardEffect, hloop] at h
  | joined =>
    cases c <;> cases b <;> cases h
    cases d <;> exact .other (by simp)
  | _ => simp [forwardEffect] at h

/-- An action by which the loop of a direction fails. -/
def FailsIn (d : Direction) : ForwardAction → Prop
  | .read e (.error _) => e = d
  | .writeFailed e _ => e = d
  | _ => False

/-- What a thread still holds of what it has read. It has ended at the end of its stream, or because
its buffer is empty, or it has failed. -/
def Holds (bufferSize : ℕ) (failed : Prop) (socket : RelaySocket) (held : List UInt8) :
    RelayLoop → Prop
  | .reading => held = []
  | .writing buf => held = buf ∧ 0 < bufferSize
  | .ended => failed ∨
      held = [] ∧ (socket.unread = [] ∧ socket.peerDone = true ∨ bufferSize = 0)

/-- Where the bytes are that a source has sent: written, held by the thread, or not read. -/
structure Accounts (bufferSize : ℕ) (failed : Prop) (stream written : List UInt8)
    (socket : RelaySocket) (loop : RelayLoop) : Prop where
  bytes : ∃ held, written ++ (held ++ socket.unread) = stream ∧
    Holds bufferSize failed socket held loop
  empty : bufferSize = 0 → written = []

/-- An action that reads nothing from the source of a direction leaves its bytes there. -/
theorem moveSockets_of_ne_read (socket : Direction → RelaySocket) {d : Direction}
    {a : ForwardAction} (h : ∀ r, a ≠ .read d r) :
    (moveSockets .sync socket a d).unread = (socket d).unread ∧
      (moveSockets .sync socket a d).peerDone = (socket d).peerDone := by
  cases a with
  | read e bytes =>
    have hde : d ≠ e := by
      rintro rfl
      exact h bytes rfl
    rcases bytes with err | _ | ⟨x, rest⟩
    · exact ⟨rfl, rfl⟩
    · exact ⟨rfl, rfl⟩
    · simp [moveSockets, Function.update_of_ne hde]
  | _ => exact ⟨rfl, rfl⟩

variable {b : ℕ} {failed : Prop} {stream written : List UInt8}

/-- What a thread holds does not depend on the handles. -/
theorem Holds.congr {failed' : Prop} {socket socket' : RelaySocket} {held : List UInt8}
    {loop : RelayLoop} (h : Holds b failed socket held loop) (hfailed : failed → failed')
    (hunread : socket'.unread = socket.unread) (hdone : socket.peerDone → socket'.peerDone) :
    Holds b failed' socket' held loop := by
  cases loop with
  | reading => exact h
  | writing buf => exact h
  | ended =>
    rcases h with h | ⟨hheld, h⟩
    · exact .inl (hfailed h)
    · exact .inr ⟨hheld, h.imp_left fun h => ⟨hunread.trans h.1, hdone h.2⟩⟩

/-- **A step of a thread** keeps the account of the bytes. -/
theorem Accounts.loopStep {socket : Direction → RelaySocket} {d : Direction} {a : ForwardAction}
    {loop loop' : RelayLoop} {sent : List UInt8}
    (h : Accounts config.bufferSize failed stream written (socket d) loop)
    (hstep : LoopStep config.bufferSize d loop a loop' sent)
    (hread : CanRead .sync config socket a) :
    Accounts config.bufferSize (failed ∨ FailsIn d a) stream (written ++ sent)
      (moveSockets .sync socket a d) loop' := by
  obtain ⟨⟨held, hbytes, hholds⟩, hempty⟩ := h
  cases hstep with
  | @read x rest hfits =>
    obtain ⟨unread, hunread⟩ : x :: rest <+: (socket d).unread := hread
    obtain rfl : held = [] := hholds
    refine ⟨⟨x :: rest, ?_, rfl, ?_⟩, ?_⟩
    · simp only [moveSockets, Function.update_self]
      rw [← hbytes, ← hunread, List.drop_left]
      simp
    · exact Nat.lt_of_lt_of_le (Nat.succ_pos _) hfits
    · simpa using hempty
  | readEnd =>
    obtain rfl : held = [] := hholds
    refine ⟨⟨[], by simpa [moveSockets, RelaySocket.dropHandle] using hbytes, .inr ⟨rfl, ?_⟩⟩,
      by simpa using hempty⟩
    exact hread.imp_right And.right
  | readFailed =>
    refine ⟨⟨held, by simpa [moveSockets, RelaySocket.dropHandle] using hbytes, .inl (.inr rfl)⟩,
      by simpa using hempty⟩
  | @write buf n =>
    obtain ⟨rfl, hpos⟩ := hholds
    refine ⟨⟨held.drop n, ?_, ?_⟩, fun hzero => absurd hzero hpos.ne'⟩
    · rw [(moveSockets_of_ne_read socket (by simp)).1, ← hbytes]
      simp only [List.append_assoc, List.append_cancel_left_eq]
      rw [← List.append_assoc, List.take_append_drop]
    · split_ifs with hdrop
      · exact hdrop
      · exact ⟨rfl, hpos⟩
  | writeFailed =>
    obtain ⟨rfl, hpos⟩ := hholds
    refine ⟨⟨held, ?_, .inl (.inr rfl)⟩, fun hzero => absurd hzero hpos.ne'⟩
    rw [(moveSockets_of_ne_read socket (by simp)).1, List.append_nil]
    exact hbytes
  | other hother =>
    obtain ⟨hunread, hdone⟩ := moveSockets_of_ne_read socket hother
    refine ⟨⟨held, ?_, hholds.congr .inl hunread (by rw [hdone]; exact id)⟩, by simpa using hempty⟩
    rw [hunread, List.append_nil]
    exact hbytes

/-- What a peer sends to the source of a direction. -/
def sentBy (d : Direction) : RelayAction → List UInt8
  | .send e bytes => if e = d then bytes else []
  | _ => []

/-- The stream of a source: what had arrived when the relay began, and what its peer sent. -/
def streamOf (d : Direction) (s₀ : RelayState)
    (tr : List (Transition.Taken RelayState RelayAction)) : List UInt8 :=
  (s₀.socket d).unread ++ tr.flatMap fun x => sentBy d x.label

/-- A step of a peer: what it sends arrives, and a peer that has closed sends nothing. -/
theorem peer_socket {x : RelayAction} (h : s.next .sync config auth x = some s')
    (hx : ∀ a, x ≠ .proxy a) (d : Direction) :
    (s'.socket d).unread = (s.socket d).unread ++ sentBy d x ∧
      ((s.socket d).peerDone = true → (s'.socket d).peerDone = true ∧ sentBy d x = []) := by
  cases x with
  | proxy a => exact absurd rfl (hx a)
  | done e =>
    obtain rfl := Option.some.inj h
    by_cases hde : d = e
    · subst hde
      simp [sentBy]
    · simp [sentBy, Function.update_of_ne hde]
  | send e bytes =>
    simp only [next] at h
    split_ifs at h with hclosed
    all_goals
      obtain rfl := Option.some.inj h
      by_cases hde : d = e
      · subst hde
        exact ⟨by simp [sentBy], fun hdone => absurd (.inr hdone) hclosed⟩
      · simp [sentBy, Function.update_of_ne hde, Ne.symm hde]

/-- A step of a peer keeps the account of the bytes. -/
theorem Accounts.peer {d : Direction} {x : RelayAction} {loop : RelayLoop}
    (h : Accounts config.bufferSize failed stream written (s.socket d) loop)
    (hstep : s.next .sync config auth x = some s') (hx : ∀ a, x ≠ .proxy a) :
    Accounts config.bufferSize failed (stream ++ sentBy d x) written (s'.socket d) loop := by
  obtain ⟨⟨held, hbytes, hholds⟩, hempty⟩ := h
  obtain ⟨hunread, hdone⟩ := peer_socket hstep hx d
  refine ⟨⟨held, ?_, ?_⟩, hempty⟩
  · rw [hunread, ← hbytes]
    simp only [List.append_assoc]
  · cases loop with
    | reading => exact hholds
    | writing buf => exact hholds
    | ended =>
      refine hholds.imp_right fun ⟨hheld, h⟩ => ⟨hheld, h.imp_left fun ⟨hend, hpeer⟩ => ?_⟩
      obtain ⟨hpeer', hsent⟩ := hdone hpeer
      exact ⟨by rw [hunread, hend, hsent, List.append_nil], hpeer'⟩

/-- The sync relay stays in its relay, or ends it. -/
theorem Relays.inRelay {c b : RelayLoop} {a : ForwardAction} {phase : ForwardPhase}
    (h : Relays .sync c b a phase) : InRelay phase := by
  cases h with
  | copies => exact inRelay_setLoop _ _ _ _
  | ends => exact inRelay_setLoop _ _ _ _
  | aborts hflavor => cases hflavor
  | joins => exact .inr (.inl ⟨_, rfl⟩)

/-- The bytes of a direction are accounted for, over those it had written before. -/
structure Carries (config : ForwardConfig) (d : Direction) (base : List UInt8) (failed : Prop)
    (stream : List UInt8) (s : RelayState) : Prop where
  inRelay : InRelay s.connection.phase
  accounts : ∃ written, s.connection.sentTo d = base ++ written ∧
    Accounts config.bufferSize failed stream written (s.socket d) (s.connection.phase.loopIn d)

/-- **Every step of the sync relay** keeps the account. -/
theorem Carries.step {d : Direction} {base : List UInt8} {x : RelayAction}
    (h : Carries config d base failed stream s) (hstep : s.next .sync config auth x = some s') :
    Carries config d base (failed ∨ ∃ a, x = .proxy a ∧ FailsIn d a) (stream ++ sentBy d x) s' := by
  obtain ⟨hin, written, hwritten, haccounts⟩ := h
  by_cases hx : ∃ a, x = .proxy a
  · obtain ⟨a, rfl⟩ := hx
    obtain ⟨hread, effect, heffect, rfl⟩ := next_proxy hstep
    obtain ⟨c, b, hphase, hrelays⟩ := hin.step heffect
    rw [hphase] at heffect haccounts
    have hmoved := haccounts.loopStep (loopStep_of_effect heffect d) hread
    refine ⟨hrelays.inRelay, written ++ effect.sentTo d, ?_, ?_⟩
    · rw [← List.append_assoc, ← hwritten]
      cases d <;> rfl
    · simpa [sentBy, ForwardState.apply] using hmoved
  · have hpeer : ∀ a, x ≠ .proxy a := fun a ha => hx ⟨a, ha⟩
    obtain ⟨hconnection, -⟩ := next_peer hstep hpeer
    refine ⟨hconnection ▸ hin, written, hconnection ▸ hwritten, ?_⟩
    have hmoved := haccounts.peer hstep hpeer
    rw [hconnection]
    simpa [hpeer] using hmoved

/-- **Every run of the sync relay** keeps the account. -/
theorem Carries.run {d : Direction} {base : List UInt8}
    {tr : List (Transition.Taken RelayState RelayAction)}
    (hrun : (relaySystem .sync config auth).Run s tr s')
    (h : Carries config d base failed stream s) :
    Carries config d base (failed ∨ ∃ x ∈ tr, ∃ a, x.label = .proxy a ∧ FailsIn d a)
      (stream ++ tr.flatMap fun x => sentBy d x.label) s' := by
  induction hrun generalizing failed stream with
  | nil s => simpa using h
  | cons hstep hrun ih =>
    have hnext := ih (h.step hstep)
    simpa [or_assoc] using hnext

/-- When the relay begins, its streams have not been read. -/
theorem Begins.carries (h : Begins .sync s) (config : ForwardConfig) (d : Direction) :
    Carries config d (s.connection.sentTo d) False (s.socket d).unread s := by
  refine ⟨.inl ⟨_, _, h.phase⟩, [], (List.append_nil _).symm, ⟨[], rfl, ?_⟩, fun _ => rfl⟩
  rw [h.phase]
  cases d <;> rfl

/-- **A direction of the sync relay writes what its loop writes**, however the threads and the peers
interleave: a prefix of its stream, and, when it has ended without an error, all that the loop
writes for that stream.

**Proof sketch.** By `Carries.run` every byte of the stream is written, held by the thread or not
read, and in that order. A thread that has ended without an error holds nothing; it has met the end
of its stream, or has an empty buffer and has written nothing. -/
theorem written_eq_copyLoop (config : ForwardConfig) (auth : ProxyAuth) {s₀ s : RelayState}
    {tr : List (Transition.Taken RelayState RelayAction)} (h0 : Begins .sync s₀)
    (h : (relaySystem .sync config auth).Run s₀ tr s) (d : Direction) :
    ∃ written, s.connection.sentTo d = s₀.connection.sentTo d ++ written ∧
      written <+: streamOf d s₀ tr ∧
      ((∀ x ∈ tr, ∀ a, x.label = .proxy a → ¬FailsIn d a) →
        s.connection.phase.loopIn d = .ended →
        ∀ turns : List CopyTurn, (∀ turn ∈ turns, turn.IsOk) →
          (streamOf d s₀ tr).length < turns.length →
            written = (copyLoop config.bufferSize turns (streamOf d s₀ tr)).written) := by
  obtain ⟨-, written, hwritten, ⟨held, hbytes, hholds⟩, hempty⟩ := (h0.carries config d).run h
  refine ⟨written, hwritten, ⟨_, hbytes⟩, fun hok hended turns hturns hlength => ?_⟩
  rw [hended] at hholds
  rcases hholds with hfailed | ⟨rfl, hend⟩
  · obtain ⟨⟨⟩⟩ | ⟨x, hx, a, ha, hfails⟩ := hfailed
    exact absurd hfails (hok x hx a ha)
  · rcases Nat.eq_zero_or_pos config.bufferSize with hzero | hpos
    · rw [hzero, copyLoop_zero]
      exact hempty hzero
    · rw [copyLoop_of_isOk (.inl hpos) hturns hlength]
      have hunread := (hend.resolve_right hpos.ne').1
      rw [hunread, List.append_nil, List.append_nil] at hbytes
      exact hbytes

end RelayState

end Synclaire
