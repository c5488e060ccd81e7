import Synclaire.Proxy.Header

set_option relaxedAutoImplicit false
set_option autoImplicit false

/-!
# Reading the header, whatever the reads

What the auth phase is for: read until the first blank line, and judge the header up to it. The
loops of both proxies do this, so their result does not depend on how the stream is cut into
reads, and they differ in nothing but the lines they examine.

## Main definitions

* `Synclaire.readHeader` — reading up to the first blank line, with a search of the whole
  buffer after each read.
* `Synclaire.Delivers` — the reads bring a header.
* `Synclaire.headerVerdict` — the verdict about a header.
* `Synclaire.Agree` — two authenticators return the same.

## Main results

* `Synclaire.runReads_eq` — the loops do what `readHeader` does.
* `Synclaire.authenticate_segments` — the auth phase does not depend on the segmentation.
* `Synclaire.agree_iff` — when the two authenticators agree.
-/

namespace Synclaire

/-- The bytes of the chunks. -/
def joined (chunks : List Chunk) : List UInt8 := chunks.flatMap Chunk.bytes

/-- The bytes of the first chunk come first. -/
theorem append_joined_cons (data : List UInt8) (chunk : Chunk) (chunks : List Chunk) :
    data ++ joined (chunk :: chunks) = data ++ chunk.bytes ++ joined chunks := by
  rw [joined, List.flatMap_cons, List.append_assoc]
  rfl

/-! ## Reading the header -/

/-- Why no header was read. -/
inductive HeaderFailure
  | readFailed (e : Str)
  | closed
  | tooLarge

/-- The error of a proxy for it. -/
def HeaderFailure.toError (flavor : ProxyFlavor) : HeaderFailure → SynError
  | .readFailed e => readError flavor e
  | .closed => .authenticationError "connection closed before authorization headers".toList
  | .tooLarge => .authenticationError "proxy auth headers too large".toList

/-- How far the reading of a header has come: the first blank line of `data` is at place `i`. -/
inductive HeaderRead
  | waiting (data : List UInt8)
  | failed (data : List UInt8) (failure : HeaderFailure) (unread : List ReadResult)
  | found (data : List UInt8) (i : ℕ) (unread : List ReadResult)

/-- Reading up to the first blank line. -/
def readHeader (data : List UInt8) : List ReadResult → HeaderRead
  | [] => .waiting data
  | .error e :: reads => .failed data (.readFailed e) reads
  | .ok chunk :: reads =>
    if chunk.bytes = [] then .failed data .closed reads
    else
      match Scan.position terminator (data ++ chunk.bytes) with
      | some i => .found (data ++ chunk.bytes) i reads
      | none =>
        if headerLimit < (data ++ chunk.bytes).length then
          .failed (data ++ chunk.bytes) .tooLarge reads
        else readHeader (data ++ chunk.bytes) reads

/-- What a proxy makes of it. -/
def HeaderRead.toPhase (flavor : ProxyFlavor) (auth : ProxyAuth) : HeaderRead → AuthPhase
  | .waiting data => .waiting data
  | .failed data failure unread => .returned data none (.error (failure.toError flavor)) unread
  | .found data i unread =>
    .returned data (some (i + 4)) (checkHeader flavor auth data (i + 4)) unread

/-- No bytes have no blank line. -/
theorem clear_nil : Clear [] := fun i h => by
  have := h.add_length_le terminator_ne_nil
  simp [terminator] at this

/-- A buffer in which the search finds nothing has no blank line. -/
theorem clear_iff {data : List UInt8} :
    Clear data ↔ Scan.position terminator data = none :=
  (Scan.position_eq_none_iff terminator_ne_nil).symm

/-- **What a turn can end in** on a buffer without a blank line: an error, a longer buffer without
one, or the check of the header up to the first one. -/
theorem authRead_cases (flavor : ProxyFlavor) (auth : ProxyAuth) {data : List UInt8}
    (hclear : Clear data) (read : ReadResult) :
    (∃ buffer err, authRead flavor auth data read = .finished buffer none (.error err)) ∨
    (Clear (data ++ readBytes read) ∧
      authRead flavor auth data read = .more (data ++ readBytes read)) ∨
    ∃ i, Scan.position terminator (data ++ readBytes read) = some i ∧
      authRead flavor auth data read = .finished (data ++ readBytes read) (some (i + 4))
        (checkHeader flavor auth (data ++ readBytes read) (i + 4)) := by
  cases read with
  | error e => exact .inl ⟨_, _, authRead_error flavor auth data e⟩
  | ok chunk =>
    by_cases hnil : chunk.bytes = []
    · exact .inl ⟨_, _, authRead_eof flavor auth data hnil⟩
    · have hread : authRead flavor auth data (.ok chunk) = _ := authRead_of_clear hclear hnil
      cases hpos : Scan.position terminator (data ++ chunk.bytes) with
      | some i =>
        rw [hpos] at hread
        exact .inr (.inr ⟨i, hpos, hread⟩)
      | none =>
        rw [hpos] at hread
        dsimp only at hread
        by_cases hlarge : headerLimit < (data ++ chunk.bytes).length
        · rw [if_pos hlarge] at hread
          exact .inl ⟨_, _, hread⟩
        · rw [if_neg hlarge] at hread
          exact .inr (.inl ⟨clear_iff.mpr hpos, hread⟩)

/-- **The loops of both proxies read the header.**

**Proof sketch.** Induction on the reads. The buffer has no blank line as long as the loop
goes on, so a turn does what `authRead_of_clear` says. -/
theorem runReads_eq (flavor : ProxyFlavor) (auth : ProxyAuth) {data : List UInt8}
    (hclear : Clear data) (reads : List ReadResult) :
    runReads (authRead flavor auth) data reads = (readHeader data reads).toPhase flavor auth := by
  induction reads generalizing data with
  | nil => rfl
  | cons read reads ih =>
    rw [runReads]
    cases read with
    | error e =>
      rw [authRead_error]
      rfl
    | ok chunk =>
      rw [readHeader]
      by_cases hnil : chunk.bytes = []
      · rw [authRead_eof flavor auth data hnil, if_pos hnil]
        rfl
      · rw [authRead_of_clear hclear hnil, if_neg hnil]
        cases hpos : Scan.position terminator (data ++ chunk.bytes) with
        | some i => rfl
        | none =>
          dsimp only
          by_cases hlarge : headerLimit < (data ++ chunk.bytes).length
          · rw [if_pos hlarge, if_pos hlarge]
            rfl
          · rw [if_neg hlarge, if_neg hlarge]
            exact ih (clear_iff.mpr hpos)

/-- The authenticator of a proxy. -/
def authenticate (flavor : ProxyFlavor) (auth : ProxyAuth) (reads : List ReadResult) :
    AuthPhase :=
  match flavor with
  | .sync => validateHttpAuthStream auth reads
  | .async => authenticateStream auth reads

/-- The authenticators of both proxies read the header. -/
theorem authenticate_eq (flavor : ProxyFlavor) (u p : Str) (reads : List ReadResult) :
    authenticate flavor (.basic u p) reads =
      (readHeader [] reads).toPhase flavor (.basic u p) := by
  cases flavor with
  | sync => exact runReads_eq .sync (.basic u p) clear_nil reads
  | async => exact runReads_eq .async (.basic u p) clear_nil reads

/-! ## The verdict -/

/-- The verdict of a proxy about a header. -/
def headerVerdict (flavor : ProxyFlavor) (auth : ProxyAuth) (header : List UInt8) :
    Except SynError Unit :=
  (checkLines auth [] (examined flavor (lines (Utf8.lossy header)))).map fun _ => ()

/-- The value of the first `Authorization` header. -/
def firstAuthorization (ls : List Str) : Option Str :=
  ls.findSome? (stripPrefix "Authorization: ".toList)

/-- The credentials in the first `Authorization` header are valid. -/
def Accepts (auth : ProxyAuth) (ls : List Str) : Prop :=
  ∃ value, firstAuthorization ls = some value ∧ auth.validateHeader (trim value) = true

/-- What `checkLines` returns: the bytes after the header if the first `Authorization` header is
accepted. -/
theorem checkLines_cases (auth : ProxyAuth) (trailing : List UInt8) (ls : List Str) :
    (Accepts auth ls ∧ checkLines auth trailing ls = .ok trailing) ∨
    (¬Accepts auth ls ∧ ∃ err, ∀ trailing, checkLines auth trailing ls = .error err) := by
  induction ls with
  | nil => exact .inr ⟨fun ⟨_, h, _⟩ => (nomatch h), _, fun _ => rfl⟩
  | cons line rest ih =>
    simp only [checkLines, Accepts, firstAuthorization, List.findSome?_cons]
    cases hvalue : stripPrefix "Authorization: ".toList line with
    | none => exact ih
    | some value =>
      dsimp only
      by_cases hvalid : auth.validateHeader (trim value) = true
      · rw [if_pos hvalid]
        exact .inl ⟨⟨value, rfl, hvalid⟩, rfl⟩
      · refine .inr ⟨?_, _, fun _ => if_neg hvalid⟩
        rintro ⟨value', hvalue', hvalid'⟩
        rw [Option.some.inj hvalue'] at hvalid
        exact hvalid hvalid'

/-- **A header is accepted iff the first `Authorization` header among the examined lines is.** -/
theorem headerVerdict_eq_ok_iff (flavor : ProxyFlavor) (auth : ProxyAuth) (header : List UInt8) :
    headerVerdict flavor auth header = .ok () ↔
      Accepts auth (examined flavor (lines (Utf8.lossy header))) := by
  unfold headerVerdict
  rcases checkLines_cases auth [] (examined flavor (lines (Utf8.lossy header))) with
    ⟨haccept, heq⟩ | ⟨hrefuse, err, heq⟩
  · rw [heq]
    exact iff_of_true rfl haccept
  · rw [heq]
    exact iff_of_false nofun hrefuse

/-- The verdict is the one about the header alone. -/
theorem checkHeader_map (flavor : ProxyFlavor) (auth : ProxyAuth) (data : List UInt8) (n : ℕ) :
    (checkHeader flavor auth data n).map (fun _ => ()) =
      headerVerdict flavor auth (data.take n) := by
  unfold checkHeader headerVerdict
  rcases checkLines_cases auth (data.drop n)
    (examined flavor (lines (Utf8.lossy (data.take n)))) with ⟨hacc, heq⟩ | ⟨-, err, heq⟩
  · rcases checkLines_cases auth [] (examined flavor (lines (Utf8.lossy (data.take n)))) with
      ⟨-, heq'⟩ | ⟨hnot, -⟩
    · rw [heq, heq']
      rfl
    · exact absurd hacc hnot
  · rw [heq, heq]

/-- An accepting check returns what follows the header. -/
theorem eq_drop_of_checkHeader {flavor : ProxyFlavor} {auth : ProxyAuth} {data : List UInt8}
    {n : ℕ} {trailing : List UInt8} (h : checkHeader flavor auth data n = .ok trailing) :
    trailing = data.drop n := by
  rcases checkLines_cases auth (data.drop n)
    (examined flavor (lines (Utf8.lossy (data.take n)))) with ⟨-, heq⟩ | ⟨-, err, heq⟩
  · exact Except.ok.inj (h.symm.trans heq)
  · cases h.symm.trans (heq _)

/-! ## Lines and their bytes -/

/-- The lines are examined one by one. -/
theorem examined_map {α β : Type*} (flavor : ProxyFlavor) (f : α → β) (ls : List α) :
    examined flavor (ls.map f) = (examined flavor ls).map f := by
  cases flavor with
  | sync => exact List.map_drop.symm
  | async => rfl

/-- `Authorization: `, in bytes. -/
def authorizationBytes : List UInt8 :=
  "Authorization: ".toList.map fun c => UInt8.ofNat c.toNat

/-- The name of the header is in ASCII, so the lossy conversion keeps its bytes. -/
theorem authorization_ascii : ∀ c ∈ "Authorization: ".toList, c.toNat < 0x80 := by
  simp

/-- The prefix of a line of text is the prefix of its bytes. -/
theorem stripPrefix_lossy_iff {line : List UInt8} {value : Str} :
    stripPrefix "Authorization: ".toList (Utf8.lossy line) = some value ↔
      ∃ rest, line = authorizationBytes ++ rest ∧ Utf8.lossy rest = value :=
  stripPrefix_eq_some_iff.trans (Utf8.lossy_eq_append_iff authorization_ascii)

/-! ## Segmentation -/

/-- **The first blank line is found where it is**, however the stream is cut.

**Proof sketch.** Induction on the chunks. A read that does not complete the first blank line
leaves a buffer without one, shorter than its end; the read that completes it stops the loop. -/
theorem readHeader_segments {stream : List UInt8} {i : ℕ}
    (hfirst : Scan.IsFirst terminator stream i) (hlimit : i + 4 ≤ headerLimit)
    {chunks : List Chunk} (hne : ∀ c ∈ chunks, c.bytes ≠ []) {data : List UInt8}
    (hstream : data ++ joined chunks = stream) (hshort : data.length < i + 4) :
    ∃ taken unread, chunks = taken ++ unread ∧ i + 4 ≤ (data ++ joined taken).length ∧
      readHeader data (chunks.map .ok) = .found (data ++ joined taken) i (unread.map .ok) := by
  induction chunks generalizing data with
  | nil =>
    have hle := hfirst.1.add_length_le terminator_ne_nil
    rw [← hstream, joined, List.flatMap_nil, List.append_nil] at hle
    exact absurd hle (Nat.not_le.mpr hshort)
  | cons chunk chunks ih =>
    have hchunk := hne chunk List.mem_cons_self
    have hjoined : (data ++ chunk.bytes) ++ joined chunks = stream := by
      rw [← append_joined_cons, hstream]
    rw [List.map_cons, readHeader, if_neg hchunk]
    by_cases hlong : i + 4 ≤ (data ++ chunk.bytes).length
    · have hhere : Scan.IsFirst terminator (data ++ chunk.bytes) i := by
        rw [← hjoined] at hfirst
        exact ⟨(Scan.occursAt_append_iff hlong).mp hfirst.1, fun j hj hocc =>
          hfirst.2 j hj ((Scan.occursAt_append_iff
            (hocc.add_length_le terminator_ne_nil)).mpr hocc)⟩
      have hsingle : joined [chunk] = chunk.bytes := List.append_nil _
      rw [(Scan.position_eq_some_iff terminator_ne_nil).mpr hhere]
      exact ⟨[chunk], chunks, rfl, by rwa [hsingle], by rw [hsingle]⟩
    · have hnone : Scan.position terminator (data ++ chunk.bytes) = none := by
        refine clear_iff.mp fun j hocc => ?_
        have hle : j + 4 ≤ (data ++ chunk.bytes).length := hocc.add_length_le terminator_ne_nil
        refine hfirst.2 j (by omega) ?_
        rw [← hjoined]
        exact (Scan.occursAt_append_iff hle).mpr hocc
      rw [hnone]
      dsimp only
      rw [if_neg (by omega)]
      obtain ⟨taken, unread, rfl, hlen, hread⟩ :=
        ih (fun c hc => hne c (List.mem_cons_of_mem _ hc)) hjoined (Nat.not_le.mp hlong)
      have hcons := append_joined_cons data chunk taken
      exact ⟨chunk :: taken, unread, rfl, by rwa [hcons], by rw [hcons, hread]⟩

/-- The buffer of a reading is never larger than the limit and one chunk. -/
theorem readHeader_length_le (flavor : ProxyFlavor) (auth : ProxyAuth) {data : List UInt8}
    (hdata : data.length ≤ headerLimit) (reads : List ReadResult) :
    ((readHeader data reads).toPhase flavor auth).data.length ≤ headerLimit + 512 := by
  induction reads generalizing data with
  | nil => exact hdata.trans (Nat.le_add_right _ _)
  | cons read reads ih =>
    cases read with
    | error e => exact hdata.trans (Nat.le_add_right _ _)
    | ok chunk =>
      have hlen : (data ++ chunk.bytes).length ≤ headerLimit + 512 := by
        rw [List.length_append]
        exact Nat.add_le_add hdata chunk.bounded
      rw [readHeader]
      by_cases hnil : chunk.bytes = []
      · rw [if_pos hnil]
        exact hdata.trans (Nat.le_add_right _ _)
      · rw [if_neg hnil]
        cases Scan.position terminator (data ++ chunk.bytes) with
        | some i => exact hlen
        | none =>
          dsimp only
          by_cases hlarge : headerLimit < (data ++ chunk.bytes).length
          · rw [if_pos hlarge]
            exact hlen
          · rw [if_neg hlarge]
            exact ih (Nat.not_lt.mp hlarge)

/-- **The auth phase does not depend on the segmentation and loses no byte**: for every stream
whose first blank line ends within the limit and every way it is cut into reads, the end of the
header is that of the first blank line, the verdict is that about the header, and on acceptance
the payload and the reads that are left make up the stream after the header. For all reads the
buffer never exceeds the limit by more than a chunk.

**Proof sketch.** The loops read the header (`authenticate_eq`), which is found where it is
(`readHeader_segments`), and the check looks at the header alone. -/
theorem authenticate_segments (flavor : ProxyFlavor) (u p : Str) :
    (∀ (stream : List UInt8) (i : ℕ), Scan.IsFirst terminator stream i → i + 4 ≤ 64 * 1024 →
      ∀ chunks : List Chunk, (∀ c ∈ chunks, c.bytes ≠ []) → joined chunks = stream →
        ∃ (data : List UInt8) (result : Except SynError (List UInt8)) (unread : List Chunk),
          authenticate flavor (.basic u p) (chunks.map .ok) =
            .returned data (some (i + 4)) result (unread.map .ok) ∧
          result.map (fun _ => ()) = headerVerdict flavor (.basic u p) (stream.take (i + 4)) ∧
          ∀ trailing, result = .ok trailing →
            trailing ++ joined unread = stream.drop (i + 4)) ∧
    (∀ (reads : List ReadResult) (n : ℕ),
      (authenticate flavor (.basic u p) (reads.take n)).data.length ≤ 65536 + 512) := by
  constructor
  · intro stream i hfirst hlimit chunks hne hstream
    obtain ⟨taken, unread, rfl, hlen, hread⟩ :=
      readHeader_segments hfirst hlimit hne (show [] ++ joined chunks = stream from hstream)
        (Nat.zero_lt_succ _)
    rw [List.nil_append] at hlen hread
    have hsplit : joined taken ++ joined unread = stream := by
      rw [← hstream, joined, joined, joined, List.flatMap_append]
    refine ⟨joined taken, _, unread, by rw [authenticate_eq, hread]; rfl, ?_, ?_⟩
    · rw [checkHeader_map, ← hsplit, List.take_append_of_le_length hlen]
    · intro trailing htrailing
      rw [eq_drop_of_checkHeader htrailing, ← hsplit, List.drop_append_of_le_length hlen]
  · intro reads n
    rw [authenticate_eq]
    exact readHeader_length_le flavor _ (Nat.zero_le _) _

/-- Two reads, with the blank line on both sides of the cut. -/
def cutChunks : List Chunk :=
  [⟨[0x47, 13, 10, 13], by decide⟩, ⟨[10, 0x58], by decide⟩]

/-- The header of these reads ends after five bytes, and the sixth is left. -/
theorem authenticate_segments_cutChunks :
    ∃ (data : List UInt8) (result : Except SynError (List UInt8)) (unread : List Chunk),
      authenticate .async (.basic "user".toList "pass".toList) (cutChunks.map .ok) =
        .returned data (some 5) result (unread.map .ok) ∧
      result.map (fun _ => ()) = headerVerdict .async (.basic "user".toList "pass".toList)
        [0x47, 13, 10, 13, 10] ∧
      ∀ trailing, result = .ok trailing → trailing ++ joined unread = [0x58] :=
  (authenticate_segments .async "user".toList "pass".toList).1 [0x47, 13, 10, 13, 10, 0x58] 1
    ((Scan.position_eq_some_iff terminator_ne_nil).mp (by decide)) (by decide) cutChunks
    (by decide) (by decide)

/-! ## Agreement -/

/-- After `data` was read, the first reads bring `full`, whose last chunk completes the first
blank line, and the others are left. -/
def Delivers (data : List UInt8) (reads : List ReadResult) (full : List UInt8)
    (unread : List ReadResult) : Prop :=
  ∃ (chunks : List Chunk) (last : Chunk), reads = chunks.map .ok ++ .ok last :: unread ∧
    full = data ++ joined chunks ++ last.bytes ∧ (∀ c ∈ chunks, c.bytes ≠ []) ∧
    last.bytes ≠ [] ∧ Clear (data ++ joined chunks) ∧
    (data ++ joined chunks).length ≤ headerLimit

/-- A header is found when the reads deliver it. -/
theorem readHeader_eq_found_iff {data : List UInt8} (hclear : Clear data)
    (hshort : data.length ≤ headerLimit) (reads : List ReadResult) (full : List UInt8) (i : ℕ)
    (unread : List ReadResult) :
    readHeader data reads = .found full i unread ↔
      Delivers data reads full unread ∧ Scan.IsFirst terminator full i := by
  constructor
  · intro h
    induction reads generalizing data with
    | nil => cases h
    | cons read reads ih =>
      cases read with
      | error e => cases h
      | ok chunk =>
        rw [readHeader] at h
        by_cases hnil : chunk.bytes = []
        · rw [if_pos hnil] at h
          cases h
        rw [if_neg hnil] at h
        cases hpos : Scan.position terminator (data ++ chunk.bytes) with
        | some j =>
          rw [hpos] at h
          obtain ⟨rfl, rfl, rfl⟩ := HeaderRead.found.inj h
          have hnone : data ++ joined [] = data := List.append_nil data
          exact ⟨⟨[], chunk, rfl, by rw [hnone], nofun, hnil, by rwa [hnone], by rwa [hnone]⟩,
            (Scan.position_eq_some_iff terminator_ne_nil).mp hpos⟩
        | none =>
          rw [hpos] at h
          dsimp only at h
          split_ifs at h with hlarge
          obtain ⟨⟨chunks, last, rfl, rfl, hne, hlast, hclear', hshort'⟩, hfirst⟩ :=
            ih (clear_iff.mpr hpos) (Nat.not_lt.mp hlarge) h
          have hcons := append_joined_cons data chunk chunks
          exact ⟨⟨chunk :: chunks, last, rfl, by rw [hcons], List.forall_mem_cons.mpr ⟨hnil, hne⟩,
            hlast, by rwa [hcons], by rwa [hcons]⟩, hfirst⟩
  · rintro ⟨⟨chunks, last, rfl, rfl, hne, hlast, hclear', hshort'⟩, hfirst⟩
    induction chunks generalizing data with
    | nil =>
      have hnone : data ++ joined [] = data := List.append_nil data
      rw [hnone] at hfirst ⊢
      rw [List.map_nil, List.nil_append, readHeader, if_neg hlast,
        (Scan.position_eq_some_iff terminator_ne_nil).mpr hfirst]
    | cons chunk chunks ih =>
      have hcons := append_joined_cons data chunk chunks
      rw [hcons] at hfirst hclear' hshort' ⊢
      have hpre : Clear (data ++ chunk.bytes) := fun j hocc =>
        hclear' j ((Scan.occursAt_append_iff (hocc.add_length_le terminator_ne_nil)).mpr hocc)
      have hlen : (data ++ chunk.bytes).length ≤ headerLimit :=
        le_trans (by simp only [List.length_append]; omega) hshort'
      rw [List.map_cons, List.cons_append, readHeader, if_neg (hne chunk List.mem_cons_self),
        clear_iff.mp hpre]
      dsimp only
      rw [if_neg (Nat.not_lt.mpr hlen)]
      exact ih hpre hlen hfirst (fun c hc => hne c (List.mem_cons_of_mem _ hc)) hclear' hshort'

/-- Two authenticators return the same: both accept with the same payload, or both reject, or
both still wait for the next read. -/
def Agree : AuthPhase → AuthPhase → Prop
  | .returned _ _ (.ok trailing) _, .returned _ _ (.ok trailing') _ => trailing = trailing'
  | .returned _ _ (.error _) _, .returned _ _ (.error _) _ => True
  | .waiting _, .waiting _ => True
  | _, _ => False

/-- The first line of a header that the reads deliver is no `Authorization` header, or it is
accepted exactly when the first of the other lines is. -/
def FirstLineIrrelevant (auth : ProxyAuth) (reads : List ReadResult) : Prop :=
  ∀ full unread i, Delivers [] reads full unread → Scan.IsFirst terminator full i →
    ∀ line rest value, lines (Utf8.lossy (full.take (i + 4))) = line :: rest →
      stripPrefix "Authorization: ".toList line = some value →
        (auth.validateHeader (trim value) = true ↔ Accepts auth rest)

/-- The credentials that decide, where the first line is an `Authorization` header or not. -/
theorem accepts_cons (auth : ProxyAuth) (line : Str) (rest : List Str) :
    Accepts auth (line :: rest) ↔
      match stripPrefix "Authorization: ".toList line with
      | some value => auth.validateHeader (trim value) = true
      | none => Accepts auth rest := by
  rw [Accepts, firstAuthorization, List.findSome?_cons]
  cases stripPrefix "Authorization: ".toList line with
  | none => rfl
  | some value =>
    refine ⟨?_, fun h => ⟨value, rfl, h⟩⟩
    rintro ⟨value', hvalue, h⟩
    rwa [Option.some.inj hvalue]

/-- Leaving out the first line changes nothing unless it decides otherwise. -/
theorem accepts_drop_iff (auth : ProxyAuth) (ls : List Str) :
    (Accepts auth (ls.drop 1) ↔ Accepts auth ls) ↔ ∀ line rest value, ls = line :: rest →
      stripPrefix "Authorization: ".toList line = some value →
        (auth.validateHeader (trim value) = true ↔ Accepts auth rest) := by
  cases ls with
  | nil => exact iff_of_true Iff.rfl nofun
  | cons line rest =>
    rw [List.drop_one, List.tail_cons, accepts_cons]
    cases hvalue : stripPrefix "Authorization: ".toList line with
    | none =>
      refine iff_of_true Iff.rfl fun line' rest' value hls hstrip => ?_
      obtain ⟨rfl, rfl⟩ := List.cons.inj hls
      cases hvalue.symm.trans hstrip
    | some value =>
      constructor
      · intro h line' rest' value' hls hstrip
        obtain ⟨rfl, rfl⟩ := List.cons.inj hls
        obtain rfl := Option.some.inj (hvalue.symm.trans hstrip)
        exact h.symm
      · exact fun h => (h line rest value rfl hvalue).symm

/-- Two checks of one header agree when the examined lines are accepted alike. -/
theorem agree_checkHeader (auth : ProxyAuth) (data : List UInt8) (n : ℕ) (found : Option ℕ)
    (unread : List ReadResult) :
    Agree (.returned data found (checkHeader .sync auth data n) unread)
      (.returned data found (checkHeader .async auth data n) unread) ↔
      (Accepts auth ((lines (Utf8.lossy (data.take n))).drop 1) ↔
        Accepts auth (lines (Utf8.lossy (data.take n)))) := by
  unfold checkHeader
  rcases checkLines_cases auth (data.drop n)
      (examined .sync (lines (Utf8.lossy (data.take n)))) with ⟨hsync, heq⟩ | ⟨hsync, err, heq⟩ <;>
    rcases checkLines_cases auth (data.drop n)
      (examined .async (lines (Utf8.lossy (data.take n)))) with
        ⟨hasync, heq'⟩ | ⟨hasync, err', heq'⟩
  · rw [heq, heq']
    exact iff_of_true rfl (iff_of_true hsync hasync)
  · rw [heq, heq']
    exact iff_of_false id fun h => hasync (h.mp hsync)
  · rw [heq, heq']
    exact iff_of_false id fun h => hsync (h.mpr hasync)
  · rw [heq, heq']
    exact iff_of_true trivial (iff_of_false hsync hasync)

/-- **When the two authenticators agree.**

**Proof sketch.** Both read the same header and return the same payload; the sync proxy leaves
out the first line, so they differ exactly when the first line decides otherwise than the
first `Authorization` header after it. -/
theorem agree_iff (u p : Str) (reads : List ReadResult) :
    Agree (validateHttpAuthStream (.basic u p) reads) (authenticateStream (.basic u p) reads) ↔
      FirstLineIrrelevant (.basic u p) reads := by
  have hsync : validateHttpAuthStream (.basic u p) reads = _ := authenticate_eq .sync u p reads
  have hasync : authenticateStream (.basic u p) reads = _ := authenticate_eq .async u p reads
  have hfound := readHeader_eq_found_iff clear_nil (Nat.zero_le _) reads
  rw [hsync, hasync]
  cases hread : readHeader [] reads with
  | waiting data =>
    refine iff_of_true trivial fun full unread i hdelivers hfirst => ?_
    cases hread.symm.trans ((hfound full i unread).mpr ⟨hdelivers, hfirst⟩)
  | failed data failure left =>
    refine iff_of_true trivial fun full unread i hdelivers hfirst => ?_
    cases hread.symm.trans ((hfound full i unread).mpr ⟨hdelivers, hfirst⟩)
  | found data j left =>
    refine (agree_checkHeader _ _ _ _ _).trans ((accepts_drop_iff _ _).trans ?_)
    constructor
    · intro h full unread i hdelivers hfirst
      obtain ⟨rfl, rfl, -⟩ := HeaderRead.found.inj
        (hread.symm.trans ((hfound full i unread).mpr ⟨hdelivers, hfirst⟩))
      exact h
    · intro h
      obtain ⟨hdelivers, hfirst⟩ := (hfound data j left).mp hread
      exact h data left j hdelivers hfirst

/-- A header whose first line is the `Authorization` header. -/
def firstLineRead : ReadResult :=
  .ok ⟨Utf8.encode "Authorization: Basic dXNlcjpwYXNz\r\n\r\n".toList, by decide⟩

/-- The two authenticators do not always agree: the sync proxy leaves out the line with the
credentials. -/
theorem not_forall_agree :
    ¬∀ (u p : Str) (reads : List ReadResult),
      Agree (validateHttpAuthStream (.basic u p) reads)
        (authenticateStream (.basic u p) reads) := by
  intro hall
  have hagree := hall "user".toList "pass".toList [firstLineRead]
  have hsync : validateHttpAuthStream (.basic "user".toList "pass".toList) [firstLineRead] =
      .returned (readBytes firstLineRead) (some 37)
        (.error (.authenticationError "Authorization required".toList)) [] := by
    decide +kernel
  have hasync : authenticateStream (.basic "user".toList "pass".toList) [firstLineRead] =
      .returned (readBytes firstLineRead) (some 37) (.ok []) [] := by
    decide +kernel
  rw [hsync, hasync] at hagree
  exact hagree

end Synclaire
