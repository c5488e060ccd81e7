import Synclaire.Guard.SynGuardBounds
import Synclaire.Guard.SynGuardSessions

set_option relaxedAutoImplicit false
set_option autoImplicit false

/-!
# Whom the half-open guard times out

The guard keeps one starting time for each peer address: the time of the reservation with which
the address came to be tracked. It is not renewed as long as some connection of the address is
half-open, and it decides about every connection of the address. Activities of the sessions are
interleaved with their operations here, and each address is given the session that its starting
time belongs to.

## Main definitions

* `Synclaire.SynGuard.Watched` — guard and sessions, with the session that opened the tracking of
  each address.
* `Synclaire.SynGuard.watch` — the transition system of operations and activities.
* `Synclaire.SynGuard.Guilty` — the session is half-open, and has been for too long.
* `Synclaire.SynGuard.StartedInTime` — the address of a session has not been tracked for too long,
  or the session is guilty.

## Main results

* `Synclaire.SynGuard.startedAt_of_watch` — whose starting time the guard keeps.
* `Synclaire.SynGuard.onlyGuilty_iff` — when timeouts hit guilty sessions only.
-/

namespace Synclaire

open Transition Table

namespace SynGuard

/-! ## Starting times -/

section StartedAt

variable {config : SynGuardConfig} {state : HalfOpenState} {ip a : IpAddr} {now t : Instant}

/-- Counting down keeps starting times, or drops one. -/
theorem startedAt_of_settleOne (h : (settleOne config state ip).startedAt.lookup a = some t) :
    state.startedAt.lookup a = some t := by
  rcases settleOne_cases config state ip with ⟨-, heq⟩ | ⟨count, -, -, heq⟩ |
    ⟨count, -, -, heq⟩
  · rwa [heq] at h
  · rwa [heq] at h
  · rw [heq, maybeCompactIpOrder_startedAt, FMap.lookup_erase_eq_ite] at h
    split_ifs at h
    exact h

/-- Closing keeps starting times, or drops one. -/
theorem startedAt_of_close {addr : SocketAddr}
    (h : (close config state addr).startedAt.lookup a = some t) :
    state.startedAt.lookup a = some t := by
  unfold close at h
  split_ifs at h
  · exact h
  · exact startedAt_of_settleOne h

/-- An eviction drops a starting time at most, and none of an address that is not tracked. -/
theorem startedAt_of_evict (h : (evictOldestTrackedIp state).startedAt.lookup a = some t) :
    state.startedAt.lookup a = some t := by
  rcases evictLoop_cases state.ipOrder state with ⟨rest, heq⟩ | ⟨b, count, rest, -, heq⟩
  · rwa [evictOldestTrackedIp, heq] at h
  · rw [evictOldestTrackedIp, heq, FMap.lookup_erase_eq_ite] at h
    split_ifs at h
    exact h

/-- An eviction keeps the starting time of an address that is not tracked. -/
theorem evict_startedAt_lookup (hnew : ip ∉ state.perIp) :
    (evictOldestTrackedIp state).startedAt.lookup ip = state.startedAt.lookup ip := by
  rcases evictLoop_cases state.ipOrder state with ⟨rest, heq⟩ | ⟨b, count, rest, hl, heq⟩
  · rw [evictOldestTrackedIp, heq]
  · have hne : ip ≠ b := by
      rintro rfl
      exact hnew (Finmap.mem_of_lookup_eq_some hl)
    rw [evictOldestTrackedIp, heq, FMap.lookup_erase_eq_ite, if_neg hne]

/-- A reservation keeps starting times, or starts its address. -/
theorem startedAt_of_reserve (h : (reserve config state ip now).2.startedAt.lookup a = some t) :
    state.startedAt.lookup a = some t ∨
      a = ip ∧ t = now ∧ ip ∉ state.startedAt ∧ (reserve config state ip now).1 = .ok () := by
  cases hr : (reserve config state ip now).1 with
  | error e =>
    rw [reserve_error hr] at h
    exact .inl h
  | ok _ =>
    obtain ⟨evicted, hev, heq⟩ := reserve_ok hr
    have hkeep : evicted.startedAt.lookup a = some t → state.startedAt.lookup a = some t := by
      rcases hev with rfl | ⟨-, -, rfl⟩
      · exact id
      · exact startedAt_of_evict
    have hsame : evicted.startedAt.lookup ip = state.startedAt.lookup ip := by
      rcases hev with rfl | ⟨hnew, -, rfl⟩
      · rfl
      · exact evict_startedAt_lookup hnew
    rw [heq, track, maybeCompactIpOrder_startedAt] at h
    dsimp only at h
    split_ifs at h with hin
    · exact .inl (hkeep h)
    · rw [FMap.lookup_insert_eq_ite] at h
      split_ifs at h with ha
      · have hnone : state.startedAt.lookup ip = none := by
          rw [← hsame]
          exact Finmap.lookup_eq_none.mpr hin
        exact .inr ⟨ha, (Option.some.inj h).symm, Finmap.lookup_eq_none.mp hnone, rfl⟩
      · exact .inl (hkeep h)

end StartedAt

/-! ## Activities among the operations -/

/-- The guard with its sessions, and for each address with a starting time the session whose
reservation has set it. -/
structure Watched where
  world : World
  opener : IpAddr → ℕ

/-- No session and fresh counters. -/
def Watched.start : Watched := ⟨World.start, fun _ => 0⟩

/-- What happens to a session: an operation, or an activity at a time. -/
inductive Event
  | op (op : Op)
  | activity (i : ℕ) (now : Instant)
  deriving DecidableEq

/-- One event: an address that gains a starting time gains it by the session that is reserved. -/
def Watched.next (config : SynGuardConfig) (s : Watched) : Event → Option Watched
  | .op op => (stepOp config s.world op).map fun world =>
    { world
      opener := fun ip =>
        if ip ∉ s.world.guard.startedAt ∧ ip ∈ world.guard.startedAt then s.world.table.length
        else s.opener ip }
  | .activity _ _ => some s

/-- The sessions of one guard with their activities, interleaved in any order. -/
def watch (config : SynGuardConfig) : System Watched Event :=
  .ofFn Watched.start (Watched.next config)

/-- What `on_activity` is told about the connection of a session. -/
def Session.context (x : Session) : GuardContext := .new x.addr none false x.reservedAt

/-- The session is half-open, and was reserved more than the timeout ago. -/
def Guilty (config : SynGuardConfig) (x : Session) (now : Instant) : Prop :=
  x.phase = .halfOpen ∧ config.synTimeout.nanos < now.durationSince x.reservedAt

instance (config : SynGuardConfig) (x : Session) (now : Instant) :
    Decidable (Guilty config x now) := inferInstanceAs (Decidable (_ ∧ _))

/-- An activity that fails is that of a guilty session. -/
def OnlyGuilty (config : SynGuardConfig) (s : Watched) : Event → Prop
  | .op _ => True
  | .activity i now => ∀ x, s.world.table[i]? = some x → ∀ e,
    onActivity ⟨config, s.world.guard⟩ x.context now = .error e → Guilty config x now

/-- At an activity, the reservation since which the address of the session has been tracked is at
most the timeout old, or the session is guilty. -/
def StartedInTime (config : SynGuardConfig) (s : Watched) : Event → Prop
  | .op _ => True
  | .activity i now => ∀ x, s.world.table[i]? = some x → x.addr.ip ∈ s.world.guard.startedAt →
    (∀ y, s.world.table[s.opener x.addr.ip]? = some y →
      now.durationSince y.reservedAt ≤ config.synTimeout.nanos) ∨ Guilty config x now

section Watch

variable {config : SynGuardConfig} {s s' : Watched}

/-- The starting times are those of the sessions that opened the tracking. -/
def Watched.Opened (s : Watched) : Prop :=
  ∀ ip t, s.world.guard.startedAt.lookup ip = some t →
    ∃ y, s.world.table[s.opener ip]? = some y ∧ y.addr.ip = ip ∧ y.reservedAt = t

/-- An address that keeps its starting time keeps the session it belongs to, if the rows of the
table keep their addresses and times. -/
theorem Watched.Opened.keep (h : s.Opened) {ip : IpAddr} {t : Instant} {table : List Session}
    (hkeep : s.world.guard.startedAt.lookup ip = some t)
    (htable : ∀ (i : ℕ) (x : Session), s.world.table[i]? = some x →
      ∃ y : Session, table[i]? = some y ∧ y.addr = x.addr ∧ y.reservedAt = x.reservedAt) :
    ∃ y, table[s.opener ip]? = some y ∧ y.addr.ip = ip ∧ y.reservedAt = t := by
  obtain ⟨x, hx, hip, ht⟩ := h ip t hkeep
  obtain ⟨y, hy, hya, hyt⟩ := htable _ x hx
  exact ⟨y, hy, by rw [hya, hip], by rw [hyt, ht]⟩

/-- A session that comes further keeps its address and time. -/
theorem getElem?_set_phase {table : List Session} {i : ℕ} {x : Session} (hx : table[i]? = some x)
    (phase : Phase) (j : ℕ) (z : Session) (hz : table[j]? = some z) :
    ∃ y, (table.set i { x with phase })[j]? = some y ∧ y.addr = z.addr ∧
      y.reservedAt = z.reservedAt := by
  by_cases hji : j = i
  · subst hji
    obtain rfl : x = z := Option.some.inj (hx.symm.trans hz)
    exact ⟨_, (getElem?_set_eq_some hx).mpr (.inl ⟨rfl, rfl⟩), rfl, rfl⟩
  · exact ⟨z, (getElem?_set_eq_some hx).mpr (.inr ⟨hji, hz⟩), rfl, rfl⟩

/-- Every event keeps the starting times with the sessions that opened the tracking.

**Proof sketch.** Only a granted reservation of an address without a starting time sets one, and
its session is the next row of the table. -/
theorem Watched.Opened.next {e : Event} (h : s.Opened) (hnext : s.next config e = some s') :
    s'.Opened := by
  cases e with
  | activity i now =>
    obtain rfl := Option.some.inj hnext
    exact h
  | op op =>
    obtain ⟨world, hstep, rfl⟩ := Option.map_eq_some_iff.mp hnext
    intro ip t ht
    dsimp only at ht ⊢
    have hin : ip ∈ world.guard.startedAt := Finmap.mem_of_lookup_eq_some ht
    by_cases hold : ip ∈ s.world.guard.startedAt
    · -- the starting time is an old one
      rw [if_neg fun hnew => hnew.1 hold]
      rcases stepOp_cases hstep with ⟨addr, now, -, -, rfl⟩ | ⟨addr, now, e, -, -, rfl⟩ |
        ⟨i, x, -, hx, -, rfl⟩ | ⟨i, x, -, hx, -, rfl⟩
      · rcases startedAt_of_reserve ht with hkeep | ⟨rfl, -, hnot, -⟩
        · exact h.keep hkeep fun j z hz =>
            ⟨z, getElem?_append_singleton.mpr (.inl hz), rfl, rfl⟩
        · exact absurd hold hnot
      · exact h ip t ht
      · exact h.keep (startedAt_of_settleOne ht) (getElem?_set_phase hx _)
      · exact h.keep (startedAt_of_close ht) (getElem?_set_phase hx _)
    · rw [if_pos ⟨hold, hin⟩]
      have hnone : s.world.guard.startedAt.lookup ip ≠ some t := fun hsome =>
        hold (Finmap.mem_of_lookup_eq_some hsome)
      rcases stepOp_cases hstep with ⟨addr, now, -, -, rfl⟩ | ⟨addr, now, e, -, -, rfl⟩ |
        ⟨i, x, -, -, -, rfl⟩ | ⟨i, x, -, -, -, rfl⟩
      · rcases startedAt_of_reserve ht with hkeep | ⟨rfl, rfl, -, -⟩
        · exact absurd hkeep hnone
        · exact ⟨_, getElem?_append_singleton.mpr (.inr ⟨rfl, rfl⟩), rfl, rfl⟩
      · exact absurd ht hnone
      · exact absurd (startedAt_of_settleOne ht) hnone
      · exact absurd (startedAt_of_close ht) hnone

/-- **Whose starting time the guard keeps**: in every reachable state it is the reservation time
of the session that opened the tracking of the address. -/
theorem startedAt_of_watch (h : (watch config).Reach s) : s.Opened := by
  refine h.invariant (I := Watched.Opened) ?_ ?_
  · rintro _ rfl ip t ht
    simp [Watched.start, World.start] at ht
  · exact fun _ _ _ _ ho hnext => ho.next hnext

/-- **One event**: an activity fails for a guilty session only, exactly if the address of the
session has not been tracked for too long or the session is guilty. -/
theorem onlyGuilty_event_iff (h : s.Opened) (e : Event) :
    OnlyGuilty config s e ↔ StartedInTime config s e := by
  cases e with
  | op op => exact Iff.rfl
  | activity i now =>
    refine forall₂_congr fun x hx => ?_
    have hip : x.context.peerIp = x.addr.ip := rfl
    unfold onActivity
    rw [hip]
    cases hl : s.world.guard.startedAt.lookup x.addr.ip with
    | none =>
      have hnot : x.addr.ip ∉ s.world.guard.startedAt := Finmap.lookup_eq_none.mp hl
      simp [hnot]
    | some t =>
      have hin : x.addr.ip ∈ s.world.guard.startedAt := Finmap.mem_of_lookup_eq_some hl
      obtain ⟨y, hy, -, rfl⟩ := h _ _ hl
      simp only [hin, true_imp_iff, hy, Option.some.injEq, forall_eq']
      by_cases hlate : config.synTimeout.nanos < now.durationSince y.reservedAt
      · simp [hlate]
      · simp [hlate, Nat.not_lt.mp hlate]

/-- **Timeouts hit the guilty only**, in every run, exactly if at every activity the reservation
since which the address has been tracked is at most the timeout old, or the session is itself
half-open and overdue. -/
theorem onlyGuilty_iff {tr : List (Taken Watched Event)}
    (h : (watch config).Run Watched.start tr s) :
    (∀ x ∈ tr, OnlyGuilty config x.source x.label) ↔
      ∀ x ∈ tr, StartedInTime config x.source x.label :=
  forall₂_congr fun _ hx => onlyGuilty_event_iff (startedAt_of_watch (h.taken (.init rfl) hx).1) _

/-- A session that is half-open for six seconds is timed out. -/
theorem onlyGuilty_iff_overdue :
    ∃ (tr : List (Taken Watched Event)) (s : Watched), (watch {}).Run Watched.start tr s ∧
      tr.length = 2 ∧ ∀ x ∈ tr, OnlyGuilty {} x.source x.label := by
  have h : (watch {}).Run Watched.start _ _ :=
    .cons (l := .op (.reserve (.v4 (ipv4 10 0 0 1) 1001) 0)) (by rfl)
      (.cons (l := .activity 0 (6 * 10 ^ 9)) (by rfl) (.nil _))
  refine ⟨_, _, h, rfl, (onlyGuilty_iff h).mpr ?_⟩
  simp only [List.forall_mem_cons]
  refine ⟨trivial, fun x hx _ => .inr ?_, by simp⟩
  obtain rfl := Option.some.inj hx
  decide

/-- **An established connection that is cut off**: a connection from `10.0.0.1` is reserved, four
seconds later a second one is; the first is established, and two seconds later its activity
fails, since the second is still half-open and the address has been tracked for six seconds. -/
theorem not_forall_onlyGuilty :
    ¬ ∀ (config : SynGuardConfig) (tr : List (Taken Watched Event)) (s : Watched),
      (watch config).Run Watched.start tr s → ∀ x ∈ tr, OnlyGuilty config x.source x.label := by
  intro hall
  have h : (watch {}).Run Watched.start _ _ :=
    .cons (l := .op (.reserve (.v4 (ipv4 10 0 0 1) 1001) 0)) (by rfl)
      (.cons (l := .op (.reserve (.v4 (ipv4 10 0 0 1) 1002) (4 * 10 ^ 9))) (by rfl)
        (.cons (l := .op (.establish 0)) (by rfl)
          (.cons (l := .activity 0 (6 * 10 ^ 9)) (by rfl) (.nil _))))
  have honly := hall _ _ _ h _ (.tail _ (.tail _ (.tail _ (.head _))))
  have hguilty := honly ⟨.v4 (ipv4 10 0 0 1) 1001, .established, 0⟩ rfl _ rfl
  exact absurd hguilty (by decide)

end Watch

end SynGuard

end Synclaire
