import Synclaire.Proxy.HeaderBlock

set_option relaxedAutoImplicit false
set_option autoImplicit false

/-!
# The proxy client

The client of a proxy with credentials sends a request with an `Authorization` header before its
payload. Whatever the credentials and the payload are, and however the stream is cut into reads,
both authenticators accept the request and pass on just the payload.

## Main definitions

* `Synclaire.ProxyClient` — the client, with the bytes that its `connect` writes.
* `Synclaire.headerOf` — lines with a blank line after them.

## Main results

* `Synclaire.encode_headerOf` — the bytes of a header.
* `Synclaire.lines_headerOf` — the lines are found again.
* `Synclaire.ProxyClient.authenticate_connect` — the request is accepted, and the payload passed on.

## Implementation notes

Connecting the socket is left out: `connect` stands for what is written to it.
-/

namespace Synclaire

/-- `ProxyClient`. -/
structure ProxyClient where
  proxyAddr : SocketAddr
  backendAddr : SocketAddr
  auth : ProxyAuth
  deriving DecidableEq

namespace ProxyClient

/-- `ProxyClient::new`. -/
def new (proxyAddr backendAddr : SocketAddr) : ProxyClient := ⟨proxyAddr, backendAddr, .none⟩

/-- `ProxyClient::with_auth`. -/
def withAuth (c : ProxyClient) (auth : ProxyAuth) : ProxyClient := { c with auth := auth }

/-- The request that `connect` formats. -/
def request (c : ProxyClient) (authHeader : Str) : Str :=
  "CONNECT ".toList ++ c.backendAddr.toStr ++ " HTTP/1.1\r\nHost: ".toList ++
    c.backendAddr.toStr ++ "\r\nAuthorization: ".toList ++ authHeader ++ "\r\n\r\n".toList

/-- The bytes that `ProxyClient::connect` writes to the proxy. -/
def connect (c : ProxyClient) : List UInt8 :=
  match c.auth.encodeHeader with
  | some authHeader => Utf8.encode (c.request authHeader)
  | none => []

end ProxyClient

/-! ## Headers -/

/-- Lines, and a blank line after them. -/
def headerOf (ls : List Str) : Str := ls.flatMap (· ++ ['\r', '\n']) ++ ['\r', '\n']

/-- The header of some more lines. -/
theorem headerOf_cons (l : Str) (ls : List Str) :
    headerOf (l :: ls) = l ++ '\r' :: '\n' :: headerOf ls := by
  simp [headerOf]

/-- The lines are found again, and the blank one after them. -/
theorem lines_headerOf {ls : List Str} (h : ∀ l ∈ ls, Printable l) :
    lines (headerOf ls) = ls ++ [[]] := by
  induction ls with
  | nil => rfl
  | cons l ls ih =>
    obtain ⟨hl, hls⟩ := List.forall_mem_cons.mp h
    rw [headerOf_cons, lines_append_crlf (hl.not_mem (by decide)), ih hls, List.cons_append]

/-- The bytes of a printable line. -/
theorem not_mem_encode {l : Str} (h : Printable l) : (13 : UInt8) ∉ Utf8.encode l := by
  have hascii : ∀ c ∈ l, c.toNat < 0x80 := by
    intro c hc
    have := (h c hc).2
    omega
  rw [Utf8.encode_ascii hascii]
  intro hmem
  obtain ⟨c, hc, hbyte⟩ := List.mem_map.mp hmem
  have hnat := congrArg UInt8.toNat hbyte
  rw [UInt8.toNat_ofNat'] at hnat
  have := h c hc
  simp at hnat
  omega

/-- The bytes of a header are those of its lines and the blank one. -/
theorem encode_headerOf (ls : List Str) :
    Utf8.encode (headerOf ls) = headerBytes (ls.map Utf8.encode) := by
  induction ls with
  | nil => rfl
  | cons l ls ih =>
    rw [headerOf_cons, List.map_cons, headerBytes_cons, ← ih, Utf8.encode_append]
    rfl

/-! ## The request -/

/-- A line with another name in front is passed over. -/
theorem checkLines_cons_of_none {auth : ProxyAuth} {trailing : List UInt8} {line : Str}
    {rest : List Str} (h : stripPrefix "Authorization: ".toList line = none) :
    checkLines auth trailing (line :: rest) = checkLines auth trailing rest := by
  rw [checkLines, h]

namespace ProxyClient

/-- The lines of the request. -/
def requestLines (c : ProxyClient) (authHeader : Str) : List Str :=
  ["CONNECT ".toList ++ c.backendAddr.toStr ++ " HTTP/1.1".toList,
    "Host: ".toList ++ c.backendAddr.toStr, "Authorization: ".toList ++ authHeader]

/-- The request is a header. -/
theorem request_eq (c : ProxyClient) (authHeader : Str) :
    c.request authHeader = headerOf (c.requestLines authHeader) := by
  have hhost : " HTTP/1.1\r\nHost: ".toList =
      " HTTP/1.1".toList ++ '\r' :: '\n' :: "Host: ".toList := by decide
  have hname : "\r\nAuthorization: ".toList = '\r' :: '\n' :: "Authorization: ".toList := by decide
  have hblank : "\r\n\r\n".toList = '\r' :: '\n' :: headerOf [] := by decide
  unfold request requestLines
  simp only [headerOf_cons, hhost, hname, hblank, List.append_assoc, List.cons_append]

/-- The lines of the request are printable, and not empty. -/
theorem requestLines_printable (c : ProxyClient) (u p : Str) :
    ∀ l ∈ c.requestLines (ProxyAuth.basicHeader u p), Printable l ∧ l ≠ [] := by
  have haddr := Printable.socketAddr c.backendAddr
  have hconnect : Printable "CONNECT ".toList := by decide
  have hversion : Printable " HTTP/1.1".toList := by decide
  have hhost : Printable "Host: ".toList := by decide
  have hname : Printable "Authorization: ".toList := by decide
  intro l hl
  simp only [requestLines, List.mem_cons, List.not_mem_nil, or_false] at hl
  rcases hl with rfl | rfl | rfl
  · exact ⟨(hconnect.append haddr).append hversion, List.cons_ne_nil _ _⟩
  · exact ⟨hhost.append haddr, List.cons_ne_nil _ _⟩
  · exact ⟨hname.append (ProxyAuth.basicHeader_printable u p), List.cons_ne_nil _ _⟩

/-- The request of a client with the credentials is accepted, whether or not its first line is
examined. -/
theorem headerVerdict_request (c : ProxyClient) (flavor : ProxyFlavor) {u : Str} (hu : ':' ∉ u)
    (p : Str) :
    headerVerdict flavor (.basic u p)
      (Utf8.encode (c.request (ProxyAuth.basicHeader u p))) = .ok () := by
  have hprintable := fun l hl => (c.requestLines_printable u p l hl).1
  have hvalue : stripPrefix "Authorization: ".toList
      ("Authorization: ".toList ++ ProxyAuth.basicHeader u p) = some (ProxyAuth.basicHeader u p) :=
    stripPrefix_eq_some_iff.mpr rfl
  have hauthorization : ∀ trailing rest, checkLines (.basic u p) trailing
      (("Authorization: ".toList ++ ProxyAuth.basicHeader u p) :: rest) = .ok trailing := by
    intro trailing rest
    rw [checkLines, hvalue]
    dsimp only
    rw [ProxyAuth.trim_basicHeader, ProxyAuth.validateHeader_basicHeader hu, if_pos rfl]
  rw [headerVerdict, Utf8.lossy_encode, request_eq, lines_headerOf hprintable]
  cases flavor with
  | sync =>
    simp only [examined, requestLines, List.cons_append, List.drop_succ_cons, List.drop_zero]
    rw [checkLines_cons_of_none rfl, hauthorization]
    rfl
  | async =>
    simp only [examined, requestLines, List.cons_append]
    rw [checkLines_cons_of_none rfl, checkLines_cons_of_none rfl, hauthorization]
    rfl

/-- **The client and the proxies agree**: what a client with credentials writes is accepted by the
authenticators of both proxies, whatever the credentials, the payload and the reads are, and they
pass on just the payload: the first bytes as what they read too much, and the rest unread.

**Proof sketch.** The request is printable text, so it is judged as a header, however it is read
(`authenticate_headerBytes`), and its verdict is acceptance. -/
theorem authenticate_connect (flavor : ProxyFlavor) {u : Str} (hu : ':' ∉ u) (p : Str)
    (proxyAddr backendAddr : SocketAddr) (payload : List UInt8)
    (hsize : ((new proxyAddr backendAddr).withAuth (.basic u p)).connect.length ≤ 64 * 1024)
    {chunks : List Chunk} (hne : ∀ c ∈ chunks, c.bytes ≠ [])
    (hjoined : joined chunks =
      ((new proxyAddr backendAddr).withAuth (.basic u p)).connect ++ payload) :
    ∃ (data : List UInt8) (headerEnd : ℕ) (trailing : List UInt8) (unread : List Chunk),
      authenticate flavor (.basic u p) (chunks.map .ok) =
        .returned data (some headerEnd) (.ok trailing) (unread.map .ok) ∧
      trailing ++ joined unread = payload := by
  let c := (new proxyAddr backendAddr).withAuth (.basic u p)
  let ls := c.requestLines (ProxyAuth.basicHeader u p)
  have hrequest : Utf8.encode (c.request (ProxyAuth.basicHeader u p)) =
      headerBytes (ls.map Utf8.encode) := by
    rw [c.request_eq, encode_headerOf]
  have hne' : ls.map Utf8.encode ≠ [] := List.cons_ne_nil _ _
  have hlines : ∀ l ∈ ls.map Utf8.encode, l ≠ [] ∧ (13 : UInt8) ∉ l := by
    intro bytes hbytes
    obtain ⟨l, hl, rfl⟩ := List.mem_map.mp hbytes
    obtain ⟨hprintable, hne⟩ := c.requestLines_printable u p l hl
    exact ⟨Utf8.encode_ne_nil hne, not_mem_encode hprintable⟩
  obtain ⟨data, result, unread, hphase, hverdict, hpayload⟩ :=
    authenticate_headerBytes flavor u p hne' hlines payload
      (by rw [← hrequest]; exact hsize) hne (by rw [← hrequest]; exact hjoined)
  rw [← hrequest] at hphase hverdict
  rw [c.headerVerdict_request flavor hu p] at hverdict
  cases result with
  | error e => cases hverdict
  | ok trailing => exact ⟨data, _, trailing, unread, hphase, hpayload trailing rfl⟩

/-- A client whose password has a colon and a line break. -/
def colonClient : ProxyClient :=
  (new (.v4 (ipv4 127 0 0 1) 8080) (.v4 (ipv4 10 0 0 1) 9000)).withAuth
    (.basic "user".toList "a:b\r\n".toList)

/-- Its request, and a blank line as the payload, in one read. -/
def colonChunk : Chunk := ⟨colonClient.connect ++ [13, 10, 13, 10], by decide +kernel⟩

/-- The blank line after the request is the payload. -/
theorem authenticate_connect_colonChunk :
    ∃ (data : List UInt8) (headerEnd : ℕ) (trailing : List UInt8) (unread : List Chunk),
      authenticate .sync (.basic "user".toList "a:b\r\n".toList) ([colonChunk].map .ok) =
        .returned data (some headerEnd) (.ok trailing) (unread.map .ok) ∧
      trailing ++ joined unread = [13, 10, 13, 10] :=
  authenticate_connect .sync (by decide) _ (.v4 (ipv4 127 0 0 1) 8080) (.v4 (ipv4 10 0 0 1) 9000)
    [13, 10, 13, 10] (by decide +kernel) (by decide +kernel) (by decide +kernel)

end ProxyClient

end Synclaire
