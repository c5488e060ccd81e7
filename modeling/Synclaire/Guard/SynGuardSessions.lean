import Synclaire.Guard.SynGuard
import Synclaire.Lib.Table
import Synclaire.Lib.Transition

set_option relaxedAutoImplicit false
set_option autoImplicit false

/-!
# The half-open guard under interleaved sessions

Each session reserves, is perhaps established, and is closed; sessions interleave in any
order. The guard keeps no session, only counters and a set of socket addresses, so the
sessions are kept beside it as a ghost table, and the counters are compared with it.

## Main definitions

* `Synclaire.SynGuard.World` — the guard with the table of sessions.
* `Synclaire.SynGuard.sessions` — the transition system of reservations, establishments and
  closes.
* `Synclaire.SynGuard.World.DistinctAddrs` — no two open sessions share a socket address.
* `Synclaire.SynGuard.World.Counted`, `Synclaire.SynGuard.World.Remembered` — the counters, and
  the set of established addresses, describe the table.

## Main results

* `Synclaire.SynGuard.counters_exact` — with distinct addresses, and as long as the tracked
  addresses fit, the counters are exact in every reachable state.
* `Synclaire.SynGuard.total_eq_sum_iff` — along a run with distinct addresses, `total` is the
  sum of the per-address counts exactly if no half-open session whose address was evicted is
  established or closed while `total` is positive.
* `Synclaire.SynGuard.close_exact_iff` — when closing a session adjusts the counters as the
  status of that session demands.
-/

namespace Synclaire

open Transition Table

namespace SynGuard

/-! ## Sessions beside the guard -/

/-- How far a session has come. -/
inductive Phase
  | halfOpen
  | established
  | closed
  deriving DecidableEq

/-- A session that was reserved. -/
structure Session where
  addr : SocketAddr
  phase : Phase
  reservedAt : Instant
  deriving DecidableEq

/-- A session counts as half-open from its reservation until it is established or closed. -/
def Session.weight (x : Session) : ℕ := if x.phase = .halfOpen then 1 else 0

/-- The weight of a session for one peer address. -/
def Session.weightAt (ip : IpAddr) (x : Session) : ℕ := if x.addr.ip = ip then x.weight else 0

/-- The guard with the table of the sessions it reserved. -/
structure World where
  guard : HalfOpenState
  table : List Session
  deriving DecidableEq

/-- What a session does. -/
inductive Op
  | reserve (addr : SocketAddr) (now : Instant)
  | establish (i : ℕ)
  | close (i : ℕ)
  deriving DecidableEq

/-- One operation: a granted reservation opens a new session, only a half-open session is
established, and a session is closed once. -/
def stepOp (config : SynGuardConfig) (s : World) : Op → Option World
  | .reserve addr now =>
    match reserve config s.guard addr.ip now with
    | (.ok _, guard) => some ⟨guard, s.table ++ [⟨addr, .halfOpen, now⟩]⟩
    | (.error _, guard) => some { s with guard }
  | .establish i =>
    match s.table[i]? with
    | some x =>
      if x.phase = .halfOpen then
        some ⟨establish config s.guard x.addr, s.table.set i { x with phase := .established }⟩
      else none
    | none => none
  | .close i =>
    match s.table[i]? with
    | some x =>
      if x.phase = .closed then none
      else some ⟨close config s.guard x.addr, s.table.set i { x with phase := .closed }⟩
    | none => none

/-- No session and fresh counters. -/
def World.start : World := ⟨{}, []⟩

/-- The sessions of one guard, interleaved in any order. -/
def sessions (config : SynGuardConfig) : System World Op := .ofFn World.start (stepOp config)

namespace World

/-- The number of half-open sessions. -/
def halfOpen (s : World) : ℕ := tally Session.weight s.table

/-- The number of half-open sessions of one peer address. -/
def halfOpenOf (s : World) (ip : IpAddr) : ℕ := tally (Session.weightAt ip) s.table

/-- The peer addresses that have a half-open session. -/
def halfOpenIps (s : World) : Finset IpAddr :=
  ((s.table.filter fun x => x.phase = .halfOpen).map fun x => x.addr.ip).toFinset

/-- The socket addresses of the open sessions. -/
def openAddrs (s : World) : List SocketAddr :=
  (s.table.filter fun x => x.phase ≠ .closed).map Session.addr

/-- No two open sessions share a socket address. -/
def DistinctAddrs (s : World) : Prop := s.openAddrs.Nodup

instance (s : World) : Decidable s.DistinctAddrs := inferInstanceAs (Decidable s.openAddrs.Nodup)

/-- The set of established addresses is that of the established open sessions. -/
def Remembered (s : World) : Prop :=
  ∀ addr, addr ∈ s.guard.established ↔
    ∃ (i : ℕ) (x : Session), s.table[i]? = some x ∧ x.phase = .established ∧ x.addr = addr

/-- The counters count the half-open sessions. -/
structure Counted (s : World) : Prop where
  total : s.guard.total = s.halfOpen
  perIp : ∀ ip, s.guard.perIp.lookup ip =
    if s.halfOpenOf ip = 0 then none else some (s.halfOpenOf ip)

/-- `total` is the sum of the per-address counts. -/
def Balanced (s : World) : Prop := s.guard.total = s.guard.perIp.sum

/-- An open session's address is listed. -/
theorem mem_openAddrs {l : List Session} {i : ℕ} {x : Session} (hx : l[i]? = some x)
    (hopen : x.phase ≠ .closed) :
    x.addr ∈ (l.filter fun x => x.phase ≠ .closed).map Session.addr :=
  List.mem_map.mpr ⟨x, List.mem_filter.mpr ⟨List.mem_of_getElem? hx, by simpa using hopen⟩, rfl⟩

/-- With distinct addresses, an address names one open session.

**Proof sketch.** Induction on the table. If the first row is one of the two sessions and the
other is further down, the address of the first row would be listed twice. -/
theorem DistinctAddrs.index_unique {s : World} (hd : s.DistinctAddrs) {i j : ℕ} {x y : Session}
    (hx : s.table[i]? = some x) (hy : s.table[j]? = some y) (hxo : x.phase ≠ .closed)
    (hyo : y.phase ≠ .closed) (hxy : x.addr = y.addr) : i = j := by
  obtain ⟨guard, table⟩ := s
  unfold DistinctAddrs openAddrs at hd
  simp only at hd hx hy
  induction table generalizing i j with
  | nil => simp at hx
  | cons z l ih =>
    have htail : ((l.filter fun x => x.phase ≠ .closed).map Session.addr).Nodup := by
      rw [List.filter_cons] at hd
      split_ifs at hd
      · exact (List.nodup_cons.mp hd).2
      · exact hd
    have hhead : z.phase ≠ .closed →
        z.addr ∉ (l.filter fun x => x.phase ≠ .closed).map Session.addr := by
      intro hz
      rw [List.filter_cons_of_pos (by simpa using hz)] at hd
      exact (List.nodup_cons.mp hd).1
    cases i with
    | zero =>
      obtain rfl : z = x := by simpa using hx
      cases j with
      | zero => rfl
      | succ j => exact absurd (hxy ▸ mem_openAddrs (by simpa using hy) hyo) (hhead hxo)
    | succ i =>
      cases j with
      | zero =>
        obtain rfl : z = y := by simpa using hy
        exact absurd (hxy ▸ mem_openAddrs (by simpa using hx) hxo) (hhead hyo)
      | succ j =>
        rw [ih htail (i := i) (j := j) (by simpa using hx) (by simpa using hy)]

end World

/-! ## What one operation does -/

section Step

variable {config : SynGuardConfig} {s s' : World}

/-- **Inversion of a step**: a granted or refused reservation, an establishment of a half-open
session, or the close of an open one. -/
theorem stepOp_cases {op : Op} (h : stepOp config s op = some s') :
    (∃ addr now, op = .reserve addr now ∧ (reserve config s.guard addr.ip now).1 = .ok () ∧
        s' = ⟨(reserve config s.guard addr.ip now).2, s.table ++ [⟨addr, .halfOpen, now⟩]⟩) ∨
      (∃ addr now e, op = .reserve addr now ∧
        (reserve config s.guard addr.ip now).1 = .error e ∧ s' = s) ∨
      (∃ i x, op = .establish i ∧ s.table[i]? = some x ∧ x.phase = .halfOpen ∧
        s' = ⟨establish config s.guard x.addr,
          s.table.set i { x with phase := .established }⟩) ∨
      ∃ i x, op = .close i ∧ s.table[i]? = some x ∧ x.phase ≠ .closed ∧
        s' = ⟨close config s.guard x.addr, s.table.set i { x with phase := .closed }⟩ := by
  cases op with
  | reserve addr now =>
    cases hr : (reserve config s.guard addr.ip now).1 with
    | ok u =>
      refine .inl ⟨addr, now, rfl, hr, ?_⟩
      rw [stepOp, ← Prod.eta (reserve config s.guard addr.ip now), hr] at h
      exact (Option.some.inj h).symm
    | error e =>
      refine .inr (.inl ⟨addr, now, e, rfl, hr, ?_⟩)
      rw [stepOp, ← Prod.eta (reserve config s.guard addr.ip now), hr, reserve_error hr] at h
      exact (Option.some.inj h).symm
  | establish i =>
    simp only [stepOp] at h
    cases hx : s.table[i]? with
    | none => simp [hx] at h
    | some x =>
      by_cases hp : x.phase = .halfOpen
      · simp only [hx, if_pos hp, Option.some.injEq] at h
        exact .inr (.inr (.inl ⟨i, x, rfl, hx, hp, h.symm⟩))
      · simp [hx, hp] at h
  | close i =>
    simp only [stepOp] at h
    cases hx : s.table[i]? with
    | none => simp [hx] at h
    | some x =>
      by_cases hp : x.phase = .closed
      · simp [hx, hp] at h
      · simp only [hx, if_neg hp, Option.some.injEq] at h
        exact .inr (.inr (.inr ⟨i, x, rfl, hx, hp, h.symm⟩))

end Step

/-! ## The remembered addresses -/

section Remembered

variable {config : SynGuardConfig} {s : World}

/-- With distinct addresses, the close of a session finds its address in the set exactly if
that session was established. -/
theorem mem_established_iff (hd : s.DistinctAddrs) (hr : s.Remembered) {i : ℕ} {x : Session}
    (hx : s.table[i]? = some x) (hopen : x.phase ≠ .closed) :
    x.addr ∈ s.guard.established ↔ x.phase = .established := by
  rw [hr x.addr]
  constructor
  · rintro ⟨j, y, hy, hye, hya⟩
    obtain rfl : j = i := hd.index_unique hy hx (by simp [hye]) hopen hya
    obtain rfl : x = y := Option.some.inj (hx.symm.trans hy)
    exact hye
  · intro he
    exact ⟨i, x, hx, he, rfl⟩

/-- Every operation keeps the set of established addresses in step with the table.

**Proof sketch.** A reservation adds a half-open session. `establish` adds the address of the
session it establishes. `close` removes the address of an established session, which no other
established session has; a half-open session's address is not in the set. -/
theorem remembered_step {s' : World} {op : Op} (hd : s.DistinctAddrs) (hr : s.Remembered)
    (h : stepOp config s op = some s') : s'.Remembered := by
  rcases stepOp_cases h with ⟨addr, now, -, -, rfl⟩ | ⟨addr, now, e, -, -, rfl⟩ |
    ⟨i, x, -, hx, hph, rfl⟩ | ⟨i, x, -, hx, hph, rfl⟩ <;> intro a
  · simp only [reserve_established, getElem?_append_singleton]
    rw [hr a]
    constructor
    · rintro ⟨i, x, hx, hxe, hxa⟩
      exact ⟨i, x, .inl hx, hxe, hxa⟩
    · rintro ⟨i, x, hx | ⟨-, rfl⟩, hxe, hxa⟩
      · exact ⟨i, x, hx, hxe, hxa⟩
      · simp at hxe
  · exact hr a
  · simp only [establish, settleOne_established, Finset.mem_insert, getElem?_set_eq_some hx]
    rw [hr a]
    constructor
    · rintro (rfl | ⟨j, y, hy, hye, hya⟩)
      · exact ⟨i, _, .inl ⟨rfl, rfl⟩, rfl, rfl⟩
      · refine ⟨j, y, .inr ⟨?_, hy⟩, hye, hya⟩
        rintro rfl
        obtain rfl : x = y := Option.some.inj (hx.symm.trans hy)
        simp [hph] at hye
    · rintro ⟨j, y, ⟨rfl, rfl⟩ | ⟨-, hy⟩, hye, hya⟩
      · exact .inl hya.symm
      · exact .inr ⟨j, y, hy, hye, hya⟩
  · have hmem := mem_established_iff hd hr hx hph
    have hclose : a ∈ (close config s.guard x.addr).established ↔
        a ∈ s.guard.established ∧ a ≠ x.addr := by
      unfold close
      split_ifs with hin
      · simp [and_comm]
      · rw [settleOne_established]
        exact ⟨fun ha => ⟨ha, fun hax => hin (hax ▸ ha)⟩, fun ha => ha.1⟩
    simp only [getElem?_set_eq_some hx]
    rw [hclose, hr a]
    constructor
    · rintro ⟨⟨j, y, hy, hye, hya⟩, hne⟩
      refine ⟨j, y, .inr ⟨?_, hy⟩, hye, hya⟩
      rintro rfl
      obtain rfl : x = y := Option.some.inj (hx.symm.trans hy)
      exact hne hya.symm
    · rintro ⟨j, y, ⟨rfl, rfl⟩ | ⟨hji, hy⟩, hye, hya⟩
      · simp at hye
      · refine ⟨⟨j, y, hy, hye, hya⟩, fun hax => hji ?_⟩
        exact hd.index_unique hy hx (by simp [hye]) hph (hya.trans hax)

/-- The system whose states all have distinct addresses. -/
def distinctSessions (config : SynGuardConfig) : System World Op :=
  (sessions config).restrict fun _ _ s' => s'.DistinctAddrs

/-- Along distinct addresses the guard remembers the established sessions. -/
theorem distinct_remembered (h : (distinctSessions config).Reach s) :
    s.DistinctAddrs ∧ s.Remembered := by
  refine h.invariant (I := fun s => s.DistinctAddrs ∧ s.Remembered) ?_ ?_
  · rintro _ rfl
    refine ⟨by decide, fun addr => ?_⟩
    simp [World.start]
  · rintro s op s' - ⟨hd, hr⟩ ⟨hstep, hd'⟩
    exact ⟨hd', remembered_step hd hr hstep⟩

end Remembered

/-! ## The global counter and the per-address counts -/

section Balanced

variable {config : SynGuardConfig} {s s' : World}

/-- A tracked address has a positive count. -/
theorem lookup_ne_zero (h : (sessions config).Reach s) (ip : IpAddr) :
    s.guard.perIp.lookup ip ≠ some 0 := by
  refine h.invariant (I := fun s => ∀ ip, s.guard.perIp.lookup ip ≠ some 0) ?_ ?_ ip
  · rintro _ rfl ip
    simp [World.start]
  · rintro s op s' - hI hstep ip
    have hsettle : ∀ a, (settleOne config s.guard a).perIp.lookup ip ≠ some 0 := by
      intro a
      rw [settleOne_lookup]
      split_ifs with h1 h2
      · simp
      · have hc : ¬countOf s.guard a ≤ 1 := fun hc => h1 ⟨h2, hc⟩
        rw [ne_eq, Option.some.injEq]
        omega
      · exact hI ip
    rcases stepOp_cases hstep with ⟨addr, now, -, hok, rfl⟩ | ⟨addr, now, e, -, -, rfl⟩ |
      ⟨i, x, -, -, -, rfl⟩ | ⟨i, x, -, -, -, rfl⟩
    · obtain ⟨evicted, hev, heq⟩ := reserve_ok hok
      simp only [heq, track_perIp, FMap.lookup_insert_eq_ite]
      split_ifs with ha
      · simp
      · rcases hev with rfl | ⟨-, -, rfl⟩
        · exact hI ip
        · intro hz
          refine hI ip ?_
          rcases evictLoop_cases s.guard.ipOrder s.guard with ⟨rest, he⟩ | ⟨a, c, rest, -, he⟩
          · rwa [evictOldestTrackedIp, he] at hz
          · rw [evictOldestTrackedIp, he, FMap.lookup_erase_eq_ite] at hz
            split_ifs at hz
            exact hz
    · exact hI ip
    · exact hsettle x.addr.ip
    · unfold close
      split_ifs
      · exact hI ip
      · exact hsettle x.addr.ip

/-- A granted reservation adds one to `total` and one to the sum of the counts, whatever it
evicts. -/
theorem reserve_balanced {state : HalfOpenState} {ip : IpAddr} {now : Instant}
    (hb : state.total = state.perIp.sum) (hok : (reserve config state ip now).1 = .ok ()) :
    (reserve config state ip now).2.total = (reserve config state ip now).2.perIp.sum := by
  obtain ⟨evicted, hev, heq⟩ := reserve_ok hok
  have hbal : evicted.total = evicted.perIp.sum := by
    rcases hev with rfl | ⟨-, -, rfl⟩
    · exact hb
    · exact evictOldestTrackedIp_total_eq_sum hb
  have hcount : (evicted.perIp.lookup ip).getD 0 = countOf state ip := by
    rcases hev with rfl | ⟨hnew, -, rfl⟩
    · rfl
    · have hnone := Finmap.lookup_eq_none.mpr hnew
      rw [evictOldestTrackedIp_lookup_eq_none hnone, countOf, hnone]
  have hsum := FMap.sum_insert evicted.perIp ip (countOf state ip + 1)
  rw [heq, track_total, track_perIp]
  omega

/-- Counting down one session keeps `total` equal to the sum iff the address is tracked or
there is nothing to count down. -/
theorem settleOne_balanced_iff (config : SynGuardConfig) {state : HalfOpenState} {ip : IpAddr}
    (hz : state.perIp.lookup ip ≠ some 0) (hb : state.total = state.perIp.sum) :
    (settleOne config state ip).total = (settleOne config state ip).perIp.sum ↔
      ip ∈ state.perIp ∨ state.total = 0 := by
  have hsum := settleOne_sum config state ip
  have hle := FMap.lookup_le_sum state.perIp ip
  rw [settleOne_total]
  cases hl : state.perIp.lookup ip with
  | none =>
    have hnot : ip ∉ state.perIp := Finmap.lookup_eq_none.mp hl
    rw [countOf, hl, Option.getD_none] at hsum
    simp only [hnot, false_or]
    omega
  | some count =>
    have hmem : ip ∈ state.perIp := Finmap.mem_of_lookup_eq_some hl
    have hpos : count ≠ 0 := fun h0 => hz (h0 ▸ hl)
    rw [countOf, hl, Option.getD_some] at hsum
    rw [hl, Option.getD_some] at hle
    simp only [hmem, true_or, iff_true]
    omega

/-- The session that `op` counts down, if any: the half-open session it establishes or
closes. -/
def countedDown (s : World) : Op → Option Session
  | .reserve _ _ => none
  | .establish i | .close i => (s.table[i]?).filter fun x => x.phase = .halfOpen

/-- `op` counts down only a session whose address is tracked, unless `total` is zero. -/
def CountsTracked (s : World) (op : Op) : Prop :=
  ∀ x ∈ countedDown s op, x.addr.ip ∈ s.guard.perIp ∨ s.guard.total = 0

/-- `op` leaves `total` alone if the session it counts down has lost its address to an
eviction. -/
def SparesOthers (s : World) (op : Op) (s' : World) : Prop :=
  ∀ x ∈ countedDown s op, x.addr.ip ∉ s.guard.perIp → s'.guard.total = s.guard.total

/-- From a balanced state, an operation leads to a balanced state iff it counts down only a
tracked session, or `total` is zero.

**Proof sketch.** A reservation keeps the balance, and so does the close of an established
session, which touches no counter. Every other operation is one `settleOne`, judged by
`settleOne_balanced_iff`. -/
theorem balanced_step_iff {op : Op} (hr : (distinctSessions config).Reach s) (hb : s.Balanced)
    (h : stepOp config s op = some s') : s'.Balanced ↔ CountsTracked s op := by
  obtain ⟨hd, hrem⟩ := distinct_remembered hr
  have hz := lookup_ne_zero hr.of_restrict
  rcases stepOp_cases h with ⟨addr, now, rfl, hok, rfl⟩ | ⟨addr, now, e, rfl, -, rfl⟩ |
    ⟨i, x, rfl, hx, hph, rfl⟩ | ⟨i, x, rfl, hx, hph, rfl⟩
  · simpa [World.Balanced, CountsTracked, countedDown] using reserve_balanced hb hok
  · simpa [CountsTracked, countedDown] using hb
  · have hiff := settleOne_balanced_iff config (hz x.addr.ip) hb
    simpa [World.Balanced, establish, CountsTracked, countedDown, hx, hph] using hiff
  · have hmem := mem_established_iff hd hrem hx hph
    by_cases hest : x.phase = .established
    · have hclose : (close config s.guard x.addr).total = s.guard.total ∧
          (close config s.guard x.addr).perIp = s.guard.perIp := by
        simp [close, hmem.mpr hest]
      simp only [World.Balanced, hclose.1, hclose.2, CountsTracked, countedDown, hx,
        Option.filter_some, hest]
      simpa [World.Balanced] using hb
    · have hhalf : x.phase = .halfOpen := by
        cases hp : x.phase <;> simp_all
      have hiff := settleOne_balanced_iff config (hz x.addr.ip) hb
      simpa [World.Balanced, close, mt hmem.mp hest, CountsTracked, countedDown, hx, hhalf]
        using hiff

/-- **`total` and the per-address counts**: along a run in which open sessions have distinct
socket addresses, `total` stays the sum of the counts, and no session whose address was
evicted takes a slot from another one, exactly if every `establish` and `close` of a
half-open session finds its address tracked, or `total` at zero.

**Proof sketch.** `balanced_step_iff` decides each step; `Run.forall_target_iff` carries the
decision along the run. A step that counts down only a tracked session, or finds `total` at
zero, takes nothing from anyone. -/
theorem total_eq_sum_iff {tr : List (Taken World Op)}
    (h : (distinctSessions config).Run World.start tr s) :
    (∀ x ∈ tr, x.target.Balanced ∧ SparesOthers x.source x.label x.target) ↔
      ∀ x ∈ tr, CountsTracked x.source x.label := by
  have hstart : (distinctSessions config).Reach World.start := .init rfl
  have hiff := h.forall_target_iff (P := World.Balanced) (G := fun s op _ => CountsTracked s op)
    (fun _ _ _ hr hb hst => balanced_step_iff hr hb hst.1) hstart rfl
  constructor
  · exact fun hall => hiff.mp fun x hx => (hall x hx).1
  · intro hall x hx
    refine ⟨hiff.mpr hall x hx, fun y hy hnot => ?_⟩
    have hzero : x.source.guard.total = 0 := (hall x hx y hy).resolve_left hnot
    have hstep := (h.taken hstart hx).2.1
    rcases stepOp_cases hstep with ⟨addr, now, hop, -⟩ | ⟨addr, now, e, hop, -⟩ |
      ⟨i, z, -, -, -, ht⟩ | ⟨i, z, -, -, -, ht⟩
    · simp [hop, countedDown] at hy
    · simp [hop, countedDown] at hy
    · rw [ht]
      simp [establish, hzero]
    · rw [ht]
      unfold close
      split_ifs <;> simp [hzero]

/-- An eviction that does no harm: the evicted session is closed when `total` is zero. -/
theorem total_eq_sum_late_close :
    ∃ (tr : List (Taken World Op)) (s : World),
      (distinctSessions { maxTrackedIps := 1 }).Run World.start tr s ∧ tr.length = 4 ∧
      ∀ x ∈ tr, x.target.Balanced ∧ SparesOthers x.source x.label x.target := by
  have h : (distinctSessions { maxTrackedIps := 1 }).Run World.start _ _ :=
    .cons (l := .reserve (.v4 (ipv4 10 0 0 1) 1001) 5) ⟨by rfl, by decide⟩
      (.cons (l := .reserve (.v4 (ipv4 10 0 0 2) 1002) 7) ⟨by rfl, by decide⟩
        (.cons (l := .close 1) ⟨by rfl, by decide⟩
          (.cons (l := .close 0) ⟨by rfl, by decide⟩ (.nil _))))
  exact ⟨_, _, h, rfl, (total_eq_sum_iff h).mpr (by unfold CountsTracked; decide)⟩

/-- **Double decrement**: with room for one address, `10.0.0.1` reserves, is evicted by
`10.0.0.2`, and closes; `total` is then zero while `10.0.0.2` is still counted. -/
theorem not_forall_balanced :
    ¬ ∀ (config : SynGuardConfig) (s : World), (distinctSessions config).Reach s →
      s.Balanced := by
  intro hall
  have h : (distinctSessions { maxTrackedIps := 1 }).Reach _ :=
    .step (l := .close 0)
      (.step (l := .reserve (.v4 (ipv4 10 0 0 2) 1002) 7)
        (.step (l := .reserve (.v4 (ipv4 10 0 0 1) 1001) 5) (.init rfl) ⟨by rfl, by decide⟩)
        ⟨by rfl, by decide⟩)
      ⟨by rfl, by decide⟩
  exact absurd (hall _ _ h) (by unfold World.Balanced; decide)

end Balanced

/-! ## Exact counters -/

section Counted

variable {config : SynGuardConfig} {s s' : World}

/-- The half-open sessions of an address are among the half-open sessions. -/
theorem halfOpenOf_ne_zero_iff (s : World) (ip : IpAddr) :
    s.halfOpenOf ip ≠ 0 ↔ ip ∈ s.halfOpenIps := by
  unfold World.halfOpenOf World.halfOpenIps
  induction s.table with
  | nil => simp
  | cons x l ih =>
    rw [tally_cons]
    by_cases hp : x.phase = .halfOpen <;> by_cases hip : x.addr.ip = ip
    · simp [Session.weightAt, Session.weight, hp, hip]
    · simpa [Session.weightAt, hp, hip, Ne.symm hip] using ih
    · simpa [Session.weightAt, Session.weight, hp] using ih
    · simpa [Session.weightAt, hp, hip] using ih

/-- With exact counters the tracked addresses are those with a half-open session. -/
theorem World.Counted.mem_perIp_iff (hc : s.Counted) (ip : IpAddr) :
    ip ∈ s.guard.perIp ↔ ip ∈ s.halfOpenIps := by
  rw [← halfOpenOf_ne_zero_iff, ← Finmap.lookup_isSome, hc.perIp ip]
  split_ifs with h0 <;> simp [h0]

/-- With exact counters the count of an address is its number of half-open sessions. -/
theorem World.Counted.countOf_eq (hc : s.Counted) (ip : IpAddr) :
    countOf s.guard ip = s.halfOpenOf ip := by
  rw [countOf, hc.perIp ip]
  split_ifs with h0 <;> simp [h0]

/-- Establishing or closing a half-open session keeps the counters exact.

**Proof sketch.** Overwriting the row takes one from the tally of its address and from the
total tally, which is what `settleOne` takes from the counters; the entry of the address is
dropped exactly when its tally reaches zero. -/
theorem settleOne_counted (config : SynGuardConfig) (hc : s.Counted) {i : ℕ} {x y : Session}
    (hx : s.table[i]? = some x) (hph : x.phase = .halfOpen) (hyp : y.phase ≠ .halfOpen)
    {guard : HalfOpenState}
    (htotal : guard.total = (settleOne config s.guard x.addr.ip).total)
    (hperIp : guard.perIp = (settleOne config s.guard x.addr.ip).perIp) :
    World.Counted ⟨guard, s.table.set i y⟩ := by
  have hwx : x.weight = 1 := if_pos hph
  have hwy : y.weight = 0 := if_neg hyp
  have hset : World.halfOpen ⟨guard, s.table.set i y⟩ + x.weight = s.halfOpen + y.weight :=
    tally_set Session.weight hx y
  refine ⟨?_, fun ip => ?_⟩
  · rw [htotal, settleOne_total, hc.total]
    omega
  · have hsetip : World.halfOpenOf ⟨guard, s.table.set i y⟩ ip + x.weightAt ip =
        s.halfOpenOf ip + y.weightAt ip := tally_set (Session.weightAt ip) hx y
    have hyip : y.weightAt ip = 0 := by simp [Session.weightAt, hwy]
    rw [hperIp, settleOne_lookup, hc.countOf_eq]
    by_cases hip : ip = x.addr.ip
    · have hxip : x.weightAt ip = 1 := by simp [Session.weightAt, hip, hwx]
      subst hip
      by_cases hle : s.halfOpenOf x.addr.ip ≤ 1
      · rw [if_pos ⟨rfl, hle⟩, if_pos (by omega)]
      · rw [if_neg (fun hh => hle hh.2), if_pos rfl, if_neg (by omega), Option.some.injEq]
        omega
    · have hxip : x.weightAt ip = 0 := by simp [Session.weightAt, Ne.symm hip]
      have heq : World.halfOpenOf ⟨guard, s.table.set i y⟩ ip = s.halfOpenOf ip := by omega
      rw [if_neg (fun hh => hip hh.1), if_neg hip, hc.perIp ip, heq]

/-- Every operation that leaves distinct addresses, and no more half-open addresses than may
be tracked, keeps the counters exact.

**Proof sketch.** A granted reservation does not evict: a new address makes one more half-open
address than were tracked, so the map was not full. It then adds one to both counts.
`establish`, and the close of a half-open session, are `settleOne_counted`; the close of an
established session touches no counter. -/
theorem counted_step {op : Op} (hd : s.DistinctAddrs) (hr : s.Remembered) (hc : s.Counted)
    (hfit : s'.halfOpenIps.card ≤ config.maxTrackedIps) (h : stepOp config s op = some s') :
    s'.Counted := by
  rcases stepOp_cases h with ⟨addr, now, -, hok, rfl⟩ | ⟨addr, now, e, -, -, rfl⟩ |
    ⟨i, x, -, hx, hph, rfl⟩ | ⟨i, x, -, hx, hph, rfl⟩
  · obtain ⟨evicted, hev, heq⟩ := reserve_ok hok
    have hnoevict : evicted = s.guard := by
      rcases hev with rfl | ⟨hnew, hfull, -⟩
      · rfl
      · have hkeys : s.guard.perIp.keys = s.halfOpenIps := by
          ext ip
          rw [Finmap.mem_keys, hc.mem_perIp_iff]
        have hnot : addr.ip ∉ s.halfOpenIps := mt (hc.mem_perIp_iff _).mpr hnew
        have hgrow : World.halfOpenIps ⟨(reserve config s.guard addr.ip now).2,
            s.table ++ [⟨addr, .halfOpen, now⟩]⟩ = insert addr.ip s.halfOpenIps := by
          ext ip
          simp only [World.halfOpenIps, List.filter_append, List.map_append, List.mem_toFinset,
            List.mem_append, Finset.mem_insert]
          simp [or_comm, eq_comm]
        rw [hgrow, Finset.card_insert_of_notMem hnot] at hfit
        rw [hkeys] at hfull
        omega
    subst hnoevict
    refine ⟨?_, fun ip => ?_⟩
    · simp only [heq, track_total, World.halfOpen, tally_append_singleton]
      rw [hc.total]
      rfl
    · have hw : Session.weightAt ip ⟨addr, .halfOpen, now⟩ = if addr.ip = ip then 1 else 0 := rfl
      simp only [heq, track_perIp, FMap.lookup_insert_eq_ite, World.halfOpenOf,
        tally_append_singleton, hw]
      by_cases hip : ip = addr.ip
      · subst hip
        rw [if_pos rfl, if_pos rfl, if_neg (by omega), hc.countOf_eq]
        rfl
      · rw [if_neg hip, if_neg (Ne.symm hip), hc.perIp ip]
        rfl
  · exact hc
  · exact settleOne_counted config hc hx hph (by simp) rfl rfl
  · have hmem := mem_established_iff hd hr hx hph
    by_cases hest : x.phase = .established
    · have hguard : (close config s.guard x.addr).total = s.guard.total ∧
          (close config s.guard x.addr).perIp = s.guard.perIp := by
        simp [close, hmem.mpr hest]
      refine ⟨?_, fun ip => ?_⟩
      · have hopen : World.halfOpen ⟨close config s.guard x.addr,
            s.table.set i { x with phase := .closed }⟩ = s.halfOpen :=
          tally_set_of_eq Session.weight hx (by simp [Session.weight, hest])
        exact hguard.1.trans (hc.total.trans hopen.symm)
      · have hopen : World.halfOpenOf ⟨close config s.guard x.addr,
            s.table.set i { x with phase := .closed }⟩ ip = s.halfOpenOf ip :=
          tally_set_of_eq (Session.weightAt ip) hx
            (by simp [Session.weightAt, Session.weight, hest])
        rw [hguard.2, hc.perIp ip, hopen]
    · have hhalf : x.phase = .halfOpen := by
        cases hp : x.phase <;> simp_all
      refine settleOne_counted config hc hx hhalf (by simp) ?_ ?_ <;>
        simp [close, mt hmem.mp hest]

/-- The sessions of one guard, as long as open sessions have distinct socket addresses and
the addresses with a half-open session fit into the map. -/
def fittingSessions (config : SynGuardConfig) : System World Op :=
  (sessions config).restrict fun _ _ s' =>
    s'.DistinctAddrs ∧ s'.halfOpenIps.card ≤ config.maxTrackedIps

/-- The counters are exact in every reachable state of `fittingSessions`. -/
theorem fitting_counted (h : (fittingSessions config).Reach s) :
    s.DistinctAddrs ∧ s.Remembered ∧ s.Counted := by
  refine h.invariant (I := fun s => s.DistinctAddrs ∧ s.Remembered ∧ s.Counted) ?_ ?_
  · rintro _ rfl
    have hd := distinct_remembered (show (distinctSessions config).Reach World.start from .init rfl)
    refine ⟨hd.1, hd.2, ?_, ?_⟩
    · rfl
    · intro ip
      rfl
  · rintro s op s' - ⟨hd, hr, hc⟩ ⟨hstep, hd', hfit⟩
    exact ⟨hd', remembered_step hd hr hstep, counted_step hd hr hc hfit hstep⟩

/-- **Exact half-open counts**: in every run in which open sessions have distinct socket
addresses and the addresses with half-open sessions fit into the map, `total` is the number
of half-open sessions, the count of each address is its number of half-open sessions (absent
iff zero), the established set is that of the established open sessions, and a reservation is
granted iff both counts are below their limits, a refused one changing nothing. -/
theorem counters_exact (h : (fittingSessions config).Reach s) :
    s.guard.total = s.halfOpen ∧
      (∀ ip, s.guard.perIp.lookup ip =
        if s.halfOpenOf ip = 0 then none else some (s.halfOpenOf ip)) ∧
      (∀ addr, addr ∈ s.guard.established ↔
        ∃ (i : ℕ) (x : Session),
          s.table[i]? = some x ∧ x.phase = .established ∧ x.addr = addr) ∧
      ∀ ip now,
        ((reserve config s.guard ip now).1 = .ok () ↔
          s.guard.total < config.maxHalfOpenGlobal ∧
            s.halfOpenOf ip < config.maxHalfOpenPerIp) ∧
        ((reserve config s.guard ip now).1 ≠ .ok () →
          (reserve config s.guard ip now).2 = s.guard) := by
  obtain ⟨-, hr, hc⟩ := fitting_counted h
  refine ⟨hc.total, hc.perIp, hr, fun ip now => ⟨?_, ?_⟩⟩
  · rw [reserve_isOk_iff, hc.countOf_eq]
  · intro hne
    cases he : (reserve config s.guard ip now).1 with
    | ok u => exact absurd he hne
    | error e => exact reserve_error he

/-- Two sessions from different addresses, the first of them established. -/
theorem counters_exact_two_sessions :
    ∃ s : World, (fittingSessions {}).Reach s ∧ s.table.length = 2 ∧
      s.guard.total = s.halfOpen := by
  have h : (fittingSessions {}).Reach _ :=
    .step (l := .establish 0)
      (.step (l := .reserve (.v4 (ipv4 10 0 0 2) 1002) 7)
        (.step (l := .reserve (.v4 (ipv4 10 0 0 1) 1001) 5) (.init rfl) ⟨by rfl, by decide⟩)
        ⟨by rfl, by decide⟩)
      ⟨by rfl, by decide⟩
  exact ⟨_, h, by decide, (counters_exact h).1⟩

end Counted

/-! ## Closing a session -/

section Close

variable {config : SynGuardConfig} {s : World}

/-- What the status of a session demands of its close: an established session leaves the
counts alone, and a half-open one takes one from `total`. -/
def CloseExact (x : Session) (before after : HalfOpenState) : Prop :=
  if x.phase = .established then after.total = before.total ∧ after.perIp = before.perIp
  else after.total + 1 = before.total

/-- The guard's records fit the status of a session: its address is in the established set
exactly if the session was established, and `total` counts a half-open session. (An
established session that was forgotten does no harm if there is nothing left to count.) -/
def CloseFits (x : Session) (guard : HalfOpenState) : Prop :=
  if x.phase = .established then
    x.addr ∈ guard.established ∨ guard.total = 0 ∧ x.addr.ip ∉ guard.perIp
  else x.addr ∉ guard.established ∧ 0 < guard.total

/-- Counting down changes the map exactly if the address is tracked. -/
theorem settleOne_perIp_eq_iff (config : SynGuardConfig) (state : HalfOpenState) (ip : IpAddr) :
    (settleOne config state ip).perIp = state.perIp ↔ ip ∉ state.perIp := by
  have hlook := settleOne_lookup config state ip
  constructor
  · intro heq hmem
    obtain ⟨count, hl⟩ := Finmap.mem_iff.mp hmem
    have hip := hlook ip
    rw [heq, hl] at hip
    have hcount : countOf state ip = count := by rw [countOf, hl]; rfl
    by_cases hle : countOf state ip ≤ 1
    · rw [if_pos ⟨rfl, hle⟩] at hip
      simp at hip
    · rw [if_neg (fun hh => hle hh.2), if_pos rfl, Option.some.injEq] at hip
      omega
  · intro hnot
    unfold settleOne
    simp only [Finmap.lookup_eq_none.mpr hnot]

/-- Closing does what the status of the session demands iff the guard's records fit it.

**Proof sketch.** If the address is in the established set, the close touches no counter,
which is right for an established session only. Otherwise it counts down, which is right for
a half-open session as long as `total` is positive, and for an established one only if
neither `total` nor the map changes. -/
theorem closeExact_close_iff (config : SynGuardConfig) (x : Session) (guard : HalfOpenState) :
    CloseExact x guard (close config guard x.addr) ↔ CloseFits x guard := by
  unfold CloseExact CloseFits close
  by_cases hph : x.phase = .established <;> by_cases hin : x.addr ∈ guard.established
  · simp [hph, hin]
  · simp only [if_pos hph, if_neg hin, settleOne_total, settleOne_perIp_eq_iff]
    have hzero : guard.total - 1 = guard.total ↔ guard.total = 0 := by omega
    simp only [hzero, hin, false_or]
  · simp [hph, hin]
  · simp only [if_neg hph, if_neg hin, settleOne_total]
    have hpos : guard.total - 1 + 1 = guard.total ↔ 0 < guard.total := by omega
    simp only [hpos, hin, not_false_eq_true, true_and]

/-- **Closing, with sessions that may share a socket address**: at every close of every run,
the counters move as the status of the closed session demands exactly if, before the close,
the established set has its address iff the session was established, and `total` still counts
a half-open one. -/
theorem close_exact_iff {tr : List (Taken World Op)}
    (h : (sessions config).Run World.start tr s) :
    ∀ t ∈ tr, ∀ i x, t.label = .close i → t.source.table[i]? = some x →
      (CloseExact x t.source.guard t.target.guard ↔ CloseFits x t.source.guard) := by
  intro t ht i x hlabel hx
  have hstep := (h.taken (.init rfl) ht).2
  rw [hlabel] at hstep
  rcases stepOp_cases hstep with ⟨addr, now, hop, -⟩ | ⟨addr, now, e, hop, -⟩ |
    ⟨j, y, hop, -⟩ | ⟨j, y, hop, hy, -, htarget⟩
  · cases hop
  · cases hop
  · cases hop
  · cases hop
    obtain rfl : y = x := Option.some.inj (hy.symm.trans hx)
    rw [htarget]
    exact closeExact_close_iff config y t.source.guard

/-- One session that is reserved, established and closed. -/
theorem close_exact_one_session :
    ∃ (tr : List (Taken World Op)) (s : World), (sessions {}).Run World.start tr s ∧
      ∃ t ∈ tr, ∃ x, t.label = .close 0 ∧ t.source.table[0]? = some x ∧
        CloseExact x t.source.guard t.target.guard := by
  have h : (sessions {}).Run World.start _ _ :=
    .cons (l := .reserve (.v4 (ipv4 10 0 0 1) 1001) 5) (by rfl)
      (.cons (l := .establish 0) (by rfl) (.cons (l := .close 0) (by rfl) (.nil _)))
  refine ⟨_, _, h, _, .tail _ (.tail _ (.head _)), _, rfl, rfl, ?_⟩
  exact (close_exact_iff h _ (.tail _ (.tail _ (.head _))) 0 _ rfl rfl).mpr
    (by unfold CloseFits; decide)

/-- **A stolen status**: two sessions share `10.0.0.1:1001`; the first is established, and the
close of the second, which is half-open, leaves `total` alone. -/
theorem not_forall_closeExact :
    ¬ ∀ (config : SynGuardConfig) (tr : List (Taken World Op)) (s : World),
      (sessions config).Run World.start tr s → ∀ t ∈ tr, ∀ i x, t.label = .close i →
        t.source.table[i]? = some x → CloseExact x t.source.guard t.target.guard := by
  intro hall
  have h : (sessions {}).Run World.start _ _ :=
    .cons (l := .reserve (.v4 (ipv4 10 0 0 1) 1001) 5) (by rfl)
      (.cons (l := .reserve (.v4 (ipv4 10 0 0 1) 1001) 7) (by rfl)
        (.cons (l := .establish 0) (by rfl) (.cons (l := .close 1) (by rfl) (.nil _))))
  exact absurd (hall _ _ _ h _ (.tail _ (.tail _ (.tail _ (.head _)))) 1 _ rfl rfl)
    (by unfold CloseExact; decide)

end Close

end SynGuard

end Synclaire
