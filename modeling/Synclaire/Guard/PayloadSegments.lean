import Synclaire.Guard.Basic

set_option relaxedAutoImplicit false
set_option autoImplicit false

/-!
# Payload inspection and segmentation

A guarded connection shows its guards what each read delivered, and the guards keep nothing of it:
`UdpAmplificationGuard` judges one read at a time, by its length and its first byte. How a stream is
cut into reads is up to the network and to the buffers of the handler. One read of the whole stream
is judged most leniently and reads of single bytes most strictly, so the cut matters unless these
two are judged alike.

## Main definitions

* `Synclaire.recordPayload` — what `GuardSession::record_payload` asks of one guard.
* `Synclaire.GuardedRead`, `Synclaire.inspect` — the reads of a guarded connection, each shown to
  the guard until it refuses one.
* `Synclaire.Segmentation` — the reads cut a stream into non-empty pieces.
* `Synclaire.UdpAmplificationConfig.SegmentationFree` — when the cut does not matter.

## Main results

* `Synclaire.UdpAmplificationGuard.refused_iff` — refused iff some read is too short or begins with
  a zero.
* `Synclaire.UdpAmplificationGuard.refused_of_malformed`,
  `Synclaire.UdpAmplificationGuard.refused_byteReads` — the most lenient and the strictest cut.
* `Synclaire.UdpAmplificationGuard.segmentation_iff` — when all cuts of a stream are judged alike.
* `Synclaire.UdpAmplificationGuard.not_forall_segmentation` — a last byte that comes alone.
-/

namespace Synclaire

/-! ## Reads of a guarded connection -/

section Reads

variable {G : Type*} [Guard G]

/-- What `GuardSession::record_payload` asks of one guard: the activity, then the payload. -/
def recordPayload (g : G) (ctx : GuardContext) (payload : List UInt8) (now : Instant) :
    Except SynError Unit × G :=
  match Guard.onActivity g ctx now with
  | (.error err, g') => (.error err, g')
  | (.ok (), g') => Guard.onPayload g' ctx payload now

/-- The functions of a connection that read. -/
inductive ReadKind
  | read
  | readExact
  deriving DecidableEq

/-- A read, what it delivered, and when. -/
structure GuardedRead where
  kind : ReadKind
  bytes : List UInt8
  now : Instant
  deriving DecidableEq

/-- What the guard answers to `Connection::read` and `Connection::read_exact`. -/
def GuardedRead.run (g : G) (ctx : GuardContext) (r : GuardedRead) : Except SynError Unit × G :=
  match r.kind with
  -- the end of the stream is not shown to the guard
  | .read => if 0 < r.bytes.length then recordPayload g ctx r.bytes r.now else (.ok (), g)
  | .readExact => recordPayload g ctx r.bytes r.now

/-- The reads of a connection, up to the first that the guard refuses. -/
def inspect (g : G) (ctx : GuardContext) : List GuardedRead → Except SynError Unit × G
  | [] => (.ok (), g)
  | r :: rest =>
    match r.run g ctx with
    | (.error err, g') => (.error err, g')
    | (.ok (), g') => inspect g' ctx rest

/-- The overall verdict: the guard refuses some read. -/
def Refused (g : G) (ctx : GuardContext) (reads : List GuardedRead) : Prop :=
  ∃ err, (inspect g ctx reads).1 = .error err

instance (g : G) (ctx : GuardContext) (reads : List GuardedRead) :
    Decidable (Refused g ctx reads) :=
  match h : (inspect g ctx reads).1 with
  | .ok () => .isFalse fun ⟨_, herr⟩ => by cases h.symm.trans herr
  | .error err => .isTrue ⟨err, h⟩

end Reads

/-- The reads deliver the whole stream in non-empty pieces. -/
def Segmentation (stream : List UInt8) (reads : List GuardedRead) : Prop :=
  (∀ r ∈ reads, r.bytes ≠ []) ∧ (reads.map (·.bytes)).flatten = stream

instance (stream : List UInt8) (reads : List GuardedRead) : Decidable (Segmentation stream reads) :=
  inferInstanceAs (Decidable (_ ∧ _))

/-- All bytes in one read. -/
def wholeRead (stream : List UInt8) : List GuardedRead := [⟨.read, stream, 0⟩]

/-- Every byte in a read of its own. -/
def byteReads (stream : List UInt8) : List GuardedRead := stream.map fun b => ⟨.read, [b], 0⟩

/-- A stream that is not empty can come in one read. -/
theorem segmentation_wholeRead {stream : List UInt8} (h : stream ≠ []) :
    Segmentation stream (wholeRead stream) := by
  simp [Segmentation, wholeRead, h]

/-- A stream can come byte by byte. -/
theorem segmentation_byteReads (stream : List UInt8) : Segmentation stream (byteReads stream) := by
  refine ⟨fun r hr => ?_, ?_⟩
  · obtain ⟨b, -, rfl⟩ := List.mem_map.mp hr
    exact List.cons_ne_nil b []
  · unfold byteReads
    rw [List.map_map, ← List.flatMap_def]
    exact List.flatMap_singleton' stream

/-- The first read begins as the stream does. -/
theorem Segmentation.head {stream : List UInt8} {r : GuardedRead} {rest : List GuardedRead}
    (h : Segmentation stream (r :: rest)) : r.bytes.head? = stream.head? := by
  obtain ⟨b, bytes, hbytes⟩ := List.exists_cons_of_ne_nil (h.1 r List.mem_cons_self)
  rw [← h.2, List.map_cons, List.flatten_cons, hbytes, List.cons_append, List.head?_cons,
    List.head?_cons]

/-- No read is longer than the stream. -/
theorem Segmentation.length_le {stream : List UInt8} {reads : List GuardedRead}
    (h : Segmentation stream reads) {r : GuardedRead} (hr : r ∈ reads) :
    r.bytes.length ≤ stream.length := by
  rw [← h.2]
  exact (List.sublist_flatten_of_mem (List.mem_map_of_mem hr)).length_le

/-- The bytes of a read are bytes of the stream. -/
theorem Segmentation.mem {stream : List UInt8} {reads : List GuardedRead}
    (h : Segmentation stream reads) {r : GuardedRead} (hr : r ∈ reads) {b : UInt8}
    (hb : b ∈ r.bytes) : b ∈ stream := by
  rw [← h.2]
  exact List.mem_flatten_of_mem (List.mem_map_of_mem hr) hb

namespace UdpAmplificationConfig

variable (config : UdpAmplificationConfig)

/-- A read that is refused wherever it stands. -/
def Malformed (payload : List UInt8) : Prop :=
  config.rejectMalformedTcpProbes ∧
    (payload.length < config.minimumProbeBytes ∨ payload.head? = some 0)

/-- The cut of the stream does not matter: nothing is rejected; there is one cut at most; all cuts
are refused, as the stream is short or begins with a zero; or none is, as no byte alone would be. -/
def SegmentationFree (stream : List UInt8) : Prop :=
  config.rejectMalformedTcpProbes = false ∨ stream.length ≤ 1 ∨
    stream.length < config.minimumProbeBytes ∨ stream.head? = some 0 ∨
    (config.minimumProbeBytes ≤ 1 ∧ 0 ∉ stream)

end UdpAmplificationConfig

namespace UdpAmplificationGuard

/-- `UdpAmplificationGuard::new`. -/
def new (config : UdpAmplificationConfig) : UdpAmplificationGuard where
  config := config

variable {g : UdpAmplificationGuard} {ctx : GuardContext} {stream : List UInt8}
  {reads : List GuardedRead}

/-! ## The verdict -/

/-- The guard refuses a payload iff it is malformed, and keeps nothing of it. -/
theorem recordPayload_eq (payload : List UInt8) (now : Instant) :
    (¬g.config.Malformed payload ∧ recordPayload g ctx payload now = (.ok (), g)) ∨
      (g.config.Malformed payload ∧ ∃ err, recordPayload g ctx payload now = (.error err, g)) := by
  show (_ ∧ (g.onPayload payload, g) = _) ∨ (_ ∧ ∃ err, (g.onPayload payload, g) = _)
  unfold onPayload UdpAmplificationConfig.Malformed
  split_ifs with hshort hzero
  · exact .inr ⟨⟨hshort.1, .inl hshort.2⟩, _, rfl⟩
  · exact .inr ⟨⟨hzero.1, .inr hzero.2⟩, _, rfl⟩
  · refine .inl ⟨?_, rfl⟩
    rintro ⟨hreject, hlength | hhead⟩
    · exact hshort ⟨hreject, hlength⟩
    · exact hzero ⟨hreject, hhead⟩

/-- Both functions show the guard what was delivered. -/
theorem run_eq_recordPayload {r : GuardedRead} (h : r.bytes ≠ []) :
    r.run g ctx = recordPayload g ctx r.bytes r.now := by
  unfold GuardedRead.run
  cases r.kind with
  | read => exact if_pos (List.length_pos_iff.mpr h)
  | readExact => rfl

/-- **The connection is refused iff some read is malformed.** -/
theorem refused_iff (h : ∀ r ∈ reads, r.bytes ≠ []) :
    Refused g ctx reads ↔ ∃ r ∈ reads, g.config.Malformed r.bytes := by
  unfold Refused
  induction reads with
  | nil => simp [inspect]
  | cons r rest ih =>
    obtain ⟨hr, hrest⟩ := List.forall_mem_cons.mp h
    rw [List.exists_mem_cons_iff, inspect, run_eq_recordPayload hr]
    have hanswer : (¬g.config.Malformed r.bytes ∧ recordPayload g ctx r.bytes r.now = (.ok (), g)) ∨
        (g.config.Malformed r.bytes ∧ ∃ err, recordPayload g ctx r.bytes r.now = (.error err, g)) :=
      recordPayload_eq r.bytes r.now
    rcases hanswer with ⟨hok, heq⟩ | ⟨hbad, err, heq⟩
    · rw [heq]
      exact (ih hrest).trans (or_iff_right hok).symm
    · rw [heq]
      exact iff_of_true ⟨err, rfl⟩ (.inl hbad)

/-- The whole stream in one read. -/
theorem refused_wholeRead_iff (h : stream ≠ []) :
    Refused g ctx (wholeRead stream) ↔ g.config.Malformed stream := by
  rw [refused_iff (segmentation_wholeRead h).1]
  simp [wholeRead]

/-- **The whole stream in one read is judged most leniently**: what refuses it refuses every
cut. -/
theorem refused_of_malformed (h : Segmentation stream reads) (hne : stream ≠ [])
    (hbad : g.config.Malformed stream) : Refused g ctx reads := by
  rw [refused_iff h.1]
  cases reads with
  | nil => exact absurd h.2.symm hne
  | cons r rest =>
    refine ⟨r, .head _, hbad.1, hbad.2.imp (fun hshort => ?_) (fun hzero => ?_)⟩
    · exact Nat.lt_of_le_of_lt (h.length_le (.head _)) hshort
    · rw [h.head, hzero]

/-- **Single bytes are judged most strictly**: what refuses some cut refuses them. -/
theorem refused_byteReads (h : Segmentation stream reads) (hbad : Refused g ctx reads) :
    Refused g ctx (byteReads stream) := by
  rw [refused_iff h.1] at hbad
  rw [refused_iff (segmentation_byteReads stream).1]
  obtain ⟨r, hr, hreject, hmalformed⟩ := hbad
  obtain ⟨b, bytes, hbytes⟩ := List.exists_cons_of_ne_nil (h.1 r hr)
  have hb : b ∈ stream := h.mem hr (hbytes ▸ List.mem_cons_self)
  -- the first byte of the read, alone, is as short and begins with the same byte
  refine ⟨⟨.read, [b], 0⟩, List.mem_map_of_mem hb, hreject, ?_⟩
  rw [hbytes] at hmalformed
  refine hmalformed.imp (fun hshort => ?_) id
  exact Nat.lt_of_le_of_lt (Nat.succ_le_succ (Nat.zero_le _)) hshort

/-- Single bytes are refused iff they are too short or one of them is zero. -/
theorem refused_byteReads_iff :
    Refused g ctx (byteReads stream) ↔ g.config.rejectMalformedTcpProbes ∧ stream ≠ [] ∧
      (1 < g.config.minimumProbeBytes ∨ 0 ∈ stream) := by
  rw [refused_iff (segmentation_byteReads stream).1]
  constructor
  · rintro ⟨r, hr, hreject, hmalformed⟩
    obtain ⟨b, hb, rfl⟩ := List.mem_map.mp hr
    refine ⟨hreject, List.ne_nil_of_mem hb, hmalformed.imp id fun hzero => ?_⟩
    obtain rfl := Option.some.inj hzero
    exact hb
  · rintro ⟨hreject, hne, hshort | hzero⟩
    · obtain ⟨b, hb⟩ := List.exists_mem_of_ne_nil stream hne
      exact ⟨⟨.read, [b], 0⟩, List.mem_map_of_mem hb, hreject, .inl hshort⟩
    · exact ⟨⟨.read, [0], 0⟩, List.mem_map_of_mem hzero, hreject, .inr rfl⟩

/-- All cuts of a stream are judged alike iff the two extreme ones are. -/
theorem forall_cut_iff :
    (∀ reads reads', Segmentation stream reads → Segmentation stream reads' →
        (Refused g ctx reads ↔ Refused g ctx reads')) ↔
      (Refused g ctx (byteReads stream) → g.config.Malformed stream) := by
  have hbytes := segmentation_byteReads stream
  have hne : Refused g ctx (byteReads stream) → stream ≠ [] :=
    fun h => (refused_byteReads_iff.mp h).2.1
  constructor
  · intro h hrefused
    have hwhole := segmentation_wholeRead (hne hrefused)
    exact (refused_wholeRead_iff (hne hrefused)).mp ((h _ _ hbytes hwhole).mp hrefused)
  · intro h
    have hcut : ∀ {reads reads'}, Segmentation stream reads → Segmentation stream reads' →
        Refused g ctx reads → Refused g ctx reads' := by
      intro reads reads' hreads hreads' hrefused
      have hstrict := refused_byteReads hreads hrefused
      exact refused_of_malformed hreads' (hne hstrict) (h hstrict)
    exact fun reads reads' hreads hreads' => ⟨hcut hreads hreads', hcut hreads' hreads⟩

/-- **The cut of a stream into reads does not matter exactly when the stream is free of it**: for
a guard that rejects, when the stream has one byte at most, is short or begins with a zero as a
whole, or has no byte that is refused alone.

**Proof sketch.** One read of everything is judged most leniently and single bytes most strictly,
so all cuts are judged alike iff these two are. -/
theorem segmentation_iff (config : UdpAmplificationConfig) (ctx : GuardContext)
    (stream : List UInt8) :
    (∀ reads reads', Segmentation stream reads → Segmentation stream reads' →
        (Refused (new config) ctx reads ↔ Refused (new config) ctx reads')) ↔
      config.SegmentationFree stream := by
  rw [forall_cut_iff, refused_byteReads_iff]
  show (config.rejectMalformedTcpProbes = true ∧ stream ≠ [] ∧
    (1 < config.minimumProbeBytes ∨ 0 ∈ stream) → config.Malformed stream) ↔ _
  unfold UdpAmplificationConfig.Malformed UdpAmplificationConfig.SegmentationFree
  cases hreject : config.rejectMalformedTcpProbes with
  | false => simp
  | true =>
    match stream with
    | [] => simp
    | [b] =>
      -- the one cut: a single byte is the whole stream
      simp only [List.length_cons, List.length_nil, List.head?_cons, List.mem_singleton]
      simp [eq_comm]
    | b :: b' :: rest =>
      have hlength : ¬(b :: b' :: rest).length ≤ 1 := by simp
      simp only [hlength, false_or, Bool.true_eq_false, true_and, ne_eq, reduceCtorEq,
        not_false_eq_true]
      constructor
      · intro h
        by_cases hstrict : 1 < config.minimumProbeBytes ∨ 0 ∈ b :: b' :: rest
        · exact (h hstrict).imp id .inl
        · obtain ⟨hmin, hzero⟩ := not_or.mp hstrict
          exact .inr (.inr ⟨Nat.not_lt.mp hmin, hzero⟩)
      · rintro (hshort | hzero | ⟨hmin, hzero⟩) hstrict
        · exact .inl hshort
        · exact .inr hzero
        · exact absurd hstrict (not_or.mpr ⟨Nat.not_lt.mpr hmin, hzero⟩)

/-- **A last byte that comes alone is refused**: the default guard lets five bytes in one read
through, and not four of them and then one. -/
theorem not_forall_segmentation :
    ¬∀ (config : UdpAmplificationConfig) (ctx : GuardContext) (stream : List UInt8)
      (reads reads' : List GuardedRead), Segmentation stream reads → Segmentation stream reads' →
        (Refused (new config) ctx reads ↔ Refused (new config) ctx reads') := by
  intro h
  have hcuts := h {} (.new (.v4 1 2) none false 0) [80, 73, 78, 71, 33]
    [⟨.read, [80, 73, 78, 71, 33], 0⟩] [⟨.read, [80, 73, 78, 71], 0⟩, ⟨.readExact, [33], 0⟩]
    (by decide) (by decide)
  exact absurd hcuts (by decide +kernel)

end UdpAmplificationGuard

end Synclaire
