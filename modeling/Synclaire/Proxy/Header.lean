import Synclaire.Proxy.Auth

set_option relaxedAutoImplicit false
set_option autoImplicit false

/-!
# The auth phase of the proxies

Before a proxy with credentials forwards a connection it reads from the client until it has a
blank line, and looks in the lines up to it for the `Authorization` header. Both proxies have
a loop of their own for this: each read of at most 512 bytes is appended to a buffer, which is
searched from three bytes before the new ones; the loop gives up when the buffer is larger than
64 KiB.

## Main definitions

* `Synclaire.ReadResult` — what a read of a socket returned.
* `Synclaire.parseHttpAuthFromBytes` — the check of the sync proxy.
* `Synclaire.syncRead`, `Synclaire.asyncRead` — one turn of the two loops.
* `Synclaire.AuthPhase`, `Synclaire.runReads` — the loops.
* `Synclaire.validateHttpAuthStream`, `Synclaire.authenticateStream` — the two authenticators.

## Main results

* `Synclaire.authRead_of_clear` — both turns do the same with a buffer that has no blank line
  yet, but for the lines they examine.

## Implementation notes

A run is given by the results of its reads, in order; where they are used up the authenticator
waits for the next one. The end of the header that was found is recorded next to the result.
-/

namespace Synclaire

/-- The two proxies. -/
inductive ProxyFlavor
  | sync
  | async
  deriving DecidableEq

/-- The bytes that one read put into the chunk of 512 bytes. -/
structure Chunk where
  bytes : List UInt8
  bounded : bytes.length ≤ 512
  deriving DecidableEq

/-- What a read returned: bytes, where none are the end of the stream, or the text of an
error. -/
abbrev ReadResult := Except Str Chunk

/-- The bytes of a read. -/
def readBytes : ReadResult → List UInt8
  | .ok chunk => chunk.bytes
  | .error _ => []

/-- `\r\n\r\n`. -/
def terminator : List UInt8 := [13, 10, 13, 10]

/-- The size of the buffer above which a loop gives up. -/
def headerLimit : ℕ := 64 * 1024

/-! ## The check of the lines -/

/-- The loop over the lines: the first `Authorization` header decides. -/
def checkLines (auth : ProxyAuth) (trailing : List UInt8) :
    List Str → Except SynError (List UInt8)
  | [] => .error (.authenticationError "Authorization required".toList)
  | line :: rest =>
    match stripPrefix "Authorization: ".toList line with
    | some value =>
      if auth.validateHeader (trim value) then .ok trailing
      else .error (.authenticationError "Invalid credentials".toList)
    | none => checkLines auth trailing rest

/-- The end of the header: after the first blank line, or the end of the data. -/
def headerEnd (data : List UInt8) : ℕ :=
  match Scan.position terminator data with
  | some i => i + 4
  | none => data.length

/-- `parse_http_auth_from_bytes`. -/
def parseHttpAuthFromBytes (data : List UInt8) (auth : ProxyAuth) :
    Except SynError (List UInt8) :=
  let headers := Utf8.lossy (data.take (headerEnd data))
  checkLines auth (data.drop (headerEnd data)) ((lines headers).drop 1)

/-! ## One turn of the loops -/

/-- What a turn of a loop leads to: the buffer, and the result of the authenticator with the
end of the header if it was found. -/
inductive AuthStep
  | more (data : List UInt8)
  | finished (data : List UInt8) (headerEnd : Option ℕ) (result : Except SynError (List UInt8))
  deriving DecidableEq

/-- A turn of the loop in `validate_http_auth_stream`. -/
def syncRead (auth : ProxyAuth) (data : List UInt8) : ReadResult → AuthStep
  | .error e =>
    .finished data none (.error (.connectionError ("Failed to read auth headers: ".toList ++ e)))
  | .ok chunk =>
    if chunk.bytes.length = 0 then
      .finished data none (.error (.authenticationError
        "connection closed before authorization headers".toList))
    else
      let previousLen := data.length
      let data := data ++ chunk.bytes
      let searchFrom := previousLen - 3
      if (Scan.windows 4 (data.drop searchFrom)).any (· = terminator) then
        .finished data (some (headerEnd data)) (parseHttpAuthFromBytes data auth)
      else if headerLimit < data.length then
        .finished data none (.error (.authenticationError "proxy auth headers too large".toList))
      else .more data

/-- A turn of the loop in `authenticate_stream`, with the check after it. -/
def asyncRead (auth : ProxyAuth) (data : List UInt8) : ReadResult → AuthStep
  | .error e => .finished data none (.error (.connectionError e))
  | .ok chunk =>
    if chunk.bytes.length = 0 then
      .finished data none (.error (.authenticationError
        "connection closed before authorization headers".toList))
    else
      let previousLen := data.length
      let data := data ++ chunk.bytes
      let searchFrom := previousLen - 3
      match Scan.position terminator (data.drop searchFrom) with
      | some index =>
        let headerEnd := searchFrom + index + 4
        let headers := Utf8.lossy (data.take headerEnd)
        .finished data (some headerEnd) (checkLines auth (data.drop headerEnd) (lines headers))
      | none =>
        if headerLimit < data.length then
          .finished data none (.error (.authenticationError "proxy auth headers too large".toList))
        else .more data

/-- A turn of the loop of a proxy. -/
def authRead : ProxyFlavor → ProxyAuth → List UInt8 → ReadResult → AuthStep
  | .sync => syncRead
  | .async => asyncRead

/-! ## The loops -/

/-- How far an authenticator has come: it waits for the next read, or it has returned and left
the other reads alone. -/
inductive AuthPhase
  | waiting (data : List UInt8)
  | returned (data : List UInt8) (headerEnd : Option ℕ) (result : Except SynError (List UInt8))
      (unread : List ReadResult)
  deriving DecidableEq

/-- The buffer. -/
def AuthPhase.data : AuthPhase → List UInt8
  | .waiting data => data
  | .returned data _ _ _ => data

/-- A loop over the results of the reads. -/
def runReads (turn : List UInt8 → ReadResult → AuthStep) (data : List UInt8) :
    List ReadResult → AuthPhase
  | [] => .waiting data
  | read :: reads =>
    match turn data read with
    | .more data => runReads turn data reads
    | .finished data headerEnd result => .returned data headerEnd result reads

/-- `TcpProxy::validate_http_auth_stream`. -/
def validateHttpAuthStream (auth : ProxyAuth) (reads : List ReadResult) : AuthPhase :=
  runReads (syncRead auth) [] reads

/-- `authenticate_stream`. -/
def authenticateStream (auth : ProxyAuth) (reads : List ReadResult) : AuthPhase :=
  match auth with
  | .none => .returned [] none (.ok []) reads
  | .basic _ _ => runReads (asyncRead auth) [] reads

/-! ## What a turn does -/

/-- The lines of the header that a proxy examines: the sync proxy leaves out the first. -/
def examined {α : Type*} : ProxyFlavor → List α → List α
  | .sync, l => l.drop 1
  | .async, l => l

/-- The check of a proxy, for a header that ends at `n`. -/
def checkHeader (flavor : ProxyFlavor) (auth : ProxyAuth) (data : List UInt8) (n : ℕ) :
    Except SynError (List UInt8) :=
  checkLines auth (data.drop n) (examined flavor (lines (Utf8.lossy (data.take n))))

/-- The buffer has no blank line. -/
def Clear (data : List UInt8) : Prop := ∀ i, ¬Scan.OccursAt terminator data i

/-- The terminator is not empty. -/
theorem terminator_ne_nil : terminator ≠ [] := List.cons_ne_nil _ _

/-- The error of a read, in the words of a proxy. -/
def readError : ProxyFlavor → Str → SynError
  | .sync, e => .connectionError ("Failed to read auth headers: ".toList ++ e)
  | .async, e => .connectionError e

/-- A failed read ends the loop. -/
theorem authRead_error (flavor : ProxyFlavor) (auth : ProxyAuth) (data : List UInt8) (e : Str) :
    authRead flavor auth data (.error e) = .finished data none (.error (readError flavor e)) := by
  cases flavor <;> rfl

/-- The end of the stream ends the loop. -/
theorem authRead_eof (flavor : ProxyFlavor) (auth : ProxyAuth) (data : List UInt8)
    {chunk : Chunk} (h : chunk.bytes = []) :
    authRead flavor auth data (.ok chunk) = .finished data none (.error (.authenticationError
      "connection closed before authorization headers".toList)) := by
  have hlen : chunk.bytes.length = 0 := by rw [h]; rfl
  cases flavor <;> exact if_pos hlen

/-- The windows contain the terminator where the search finds it. -/
theorem windows_any_iff (data : List UInt8) :
    (Scan.windows 4 data).any (· = terminator) = true ↔
      ∃ i, Scan.position terminator data = some i := by
  have hsome : (Scan.position terminator data).isSome =
      (Scan.windows 4 data).any (· = terminator) := List.findIdx?_isSome
  rw [← hsome, Option.isSome_iff_exists]

/-- **What a turn does** with a buffer that has no blank line yet: if the new bytes complete
one, the header up to the first is checked.

**Proof sketch.** Searching from three bytes before the new ones finds what searching all
finds, so that the sync proxy, which searches again from the start, comes to the same end. -/
theorem authRead_of_clear {flavor : ProxyFlavor} {auth : ProxyAuth} {data : List UInt8}
    (hclear : Clear data) {chunk : Chunk} (hne : chunk.bytes ≠ []) :
    authRead flavor auth data (.ok chunk) =
      match Scan.position terminator (data ++ chunk.bytes) with
      | some i => .finished (data ++ chunk.bytes) (some (i + 4))
          (checkHeader flavor auth (data ++ chunk.bytes) (i + 4))
      | none =>
        if headerLimit < (data ++ chunk.bytes).length then
          .finished (data ++ chunk.bytes) none
            (.error (.authenticationError "proxy auth headers too large".toList))
        else .more (data ++ chunk.bytes) := by
  have hlen : ¬chunk.bytes.length = 0 := fun h => hne (List.eq_nil_of_length_eq_zero h)
  have hdrop := Scan.position_drop (m := chunk.bytes) terminator_ne_nil hclear
  have hthree : terminator.length - 1 = 3 := rfl
  rw [hthree] at hdrop
  cases flavor with
  | sync =>
    rw [authRead, syncRead, if_neg hlen]
    dsimp only
    cases hpos : Scan.position terminator ((data ++ chunk.bytes).drop (data.length - 3)) with
    | none =>
      rw [hpos] at hdrop
      rw [← hdrop, if_neg fun h => by
        obtain ⟨i, hi⟩ := (windows_any_iff _).mp h
        rw [hpos] at hi
        cases hi]
      rfl
    | some index =>
      rw [hpos] at hdrop
      have hend : headerEnd (data ++ chunk.bytes) = data.length - 3 + index + 4 := by
        rw [headerEnd, ← hdrop]
        rfl
      rw [← hdrop, if_pos ((windows_any_iff _).mpr ⟨index, hpos⟩), parseHttpAuthFromBytes, hend]
      rfl
  | async =>
    rw [authRead, asyncRead, if_neg hlen]
    dsimp only
    cases hpos : Scan.position terminator ((data ++ chunk.bytes).drop (data.length - 3)) with
    | none =>
      rw [hpos] at hdrop
      rw [← hdrop]
      rfl
    | some index =>
      rw [hpos] at hdrop
      rw [← hdrop]
      rfl

end Synclaire
