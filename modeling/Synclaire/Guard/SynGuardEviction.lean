import Synclaire.Guard.SynGuardBounds
import Synclaire.Lib.Queue

set_option relaxedAutoImplicit false
set_option autoImplicit false

/-!
# Which address the half-open guard evicts

A full map loses the first tracked address of the queue. The queue is in the order in which the
addresses came to be tracked, except that an address that leaves the map does not leave the
queue: when it comes back, its old entry stands for it.

## Main definitions

* `Synclaire.SynGuard.Periods` — the guard beside the call with which each address came to be
  tracked.
* `Synclaire.SynGuard.periods` — the transition system of all calls, with these numbers.
* `Synclaire.SynGuard.EvictsOldest` — a reservation that evicts takes the address tracked longest.
* `Synclaire.SynGuard.QueuesLast` — an address that comes to be tracked is queued behind the others.

## Main results

* `Synclaire.SynGuard.queueOrdered_track_iff` — when the queue stays in order.
* `Synclaire.SynGuard.evictsOldest_of_queuesLast` — evictions are in order in every run in which
  no new address has an old entry in front of a tracked one.
-/

namespace Synclaire

open Transition Queue

namespace SynGuard

/-! ## The queue of tracked addresses -/

/-- The queue has the tracked addresses in the order of their numbers. -/
def QueueOrdered (since : IpAddr → ℕ) (state : HalfOpenState) : Prop :=
  ∀ y ∈ state.perIp, ∀ z ∈ state.perIp, since y < since z → Ahead state.ipOrder y z

section Queue

variable {config : SynGuardConfig} {state : HalfOpenState} {since : IpAddr → ℕ}

/-- A compaction keeps the order of the tracked addresses.

**Proof sketch.** Induction on the queue. An entry that is kept is the first of its address, and
one that is dropped belongs to neither of the two. -/
theorem ahead_compactLoop {perIp : FMap IpAddr ℕ} {order : List IpAddr} {seen : Finset IpAddr}
    {y z : IpAddr} (hy : y ∈ perIp) (hz : z ∈ perIp) (hys : y ∉ seen) (hzs : z ∉ seen) :
    Ahead (compactLoop perIp order seen) y z ↔ Ahead order y z := by
  induction order generalizing seen with
  | nil => rfl
  | cons a rest ih =>
    unfold compactLoop
    by_cases hkeep : a ∈ perIp ∧ a ∉ seen
    · rw [if_pos hkeep]
      by_cases haz : a = z
      · subst haz
        exact iff_of_false not_ahead_cons_self not_ahead_cons_self
      · by_cases hay : a = y
        · subst hay
          exact iff_of_true (ahead_cons_self haz) (ahead_cons_self haz)
        · rw [ahead_cons_of_ne hay haz, ahead_cons_of_ne hay haz]
          apply ih
          · simp [hys, Ne.symm hay]
          · simp [hzs, Ne.symm haz]
    · have hay : a ≠ y := by
        rintro rfl
        exact hkeep ⟨hy, hys⟩
      have haz : a ≠ z := by
        rintro rfl
        exact hkeep ⟨hz, hzs⟩
      rw [if_neg hkeep, ahead_cons_of_ne hay haz, ih hys hzs]

/-- A compaction keeps the queue in order, and out of order. -/
theorem queueOrdered_maybeCompactIpOrder :
    QueueOrdered since (maybeCompactIpOrder config state) ↔ QueueOrdered since state := by
  have hahead : ∀ y ∈ state.perIp, ∀ z ∈ state.perIp,
      (Ahead (maybeCompactIpOrder config state).ipOrder y z ↔ Ahead state.ipOrder y z) := by
    intro y hy z hz
    rw [maybeCompactIpOrder_ipOrder]
    split_ifs
    · rfl
    · exact ahead_compactLoop hy hz (Finset.notMem_empty y) (Finset.notMem_empty z)
  unfold QueueOrdered
  rw [maybeCompactIpOrder_perIp]
  exact forall₂_congr fun y hy => forall₂_congr fun z hz =>
    imp_congr_right fun _ => hahead y hy z hz

/-- Fewer tracked addresses are still in order. -/
theorem QueueOrdered.mono {state' : HalfOpenState} (h : QueueOrdered since state)
    (hsub : ∀ ip ∈ state'.perIp, ip ∈ state.perIp) (horder : state'.ipOrder = state.ipOrder) :
    QueueOrdered since state' := by
  intro y hy z hz hlt
  rw [horder]
  exact h y (hsub y hy) z (hsub z hz) hlt

/-- Counting down tracks no new address. -/
theorem mem_of_mem_settleOne {ip a : IpAddr} (h : a ∈ (settleOne config state ip).perIp) :
    a ∈ state.perIp := by
  rcases settleOne_cases config state ip with ⟨-, heq⟩ | ⟨count, hl, -, heq⟩ |
    ⟨count, hl, -, heq⟩
  · rwa [heq] at h
  · rw [heq] at h
    rcases Finmap.mem_insert.mp h with rfl | h
    · exact Finmap.mem_of_lookup_eq_some hl
    · exact h
  · rw [heq, maybeCompactIpOrder_perIp] at h
    exact (Finmap.mem_erase.mp h).2

/-- Counting down keeps the queue in order. -/
theorem QueueOrdered.settleOne (h : QueueOrdered since state) (ip : IpAddr) :
    QueueOrdered since (settleOne config state ip) := by
  have hsub : ∀ a ∈ (SynGuard.settleOne config state ip).perIp, a ∈ state.perIp :=
    fun a ha => mem_of_mem_settleOne ha
  rcases settleOne_cases config state ip with ⟨-, heq⟩ | ⟨count, -, -, heq⟩ |
    ⟨count, -, -, heq⟩
  · rw [heq] at hsub ⊢
    exact h.mono hsub rfl
  · rw [heq] at hsub ⊢
    exact h.mono hsub rfl
  · rw [heq] at hsub ⊢
    rw [queueOrdered_maybeCompactIpOrder]
    rw [maybeCompactIpOrder_perIp] at hsub
    exact h.mono hsub rfl

end Queue

/-! ## Who is evicted -/

section Evict

variable {config : SynGuardConfig} {state : HalfOpenState} {since : IpAddr → ℕ}

/-- The tracked address that stands first in the queue. -/
def firstTracked (state : HalfOpenState) : Option IpAddr :=
  state.ipOrder.find? fun ip => ip ∈ state.perIp

/-- The queue behind the first tracked address. -/
def behindFirst (state : HalfOpenState) : List IpAddr :=
  (state.ipOrder.dropWhile fun ip => ip ∉ state.perIp).tail

/-- **An eviction** takes the tracked address that stands first in the queue, and what stands
behind it keeps its order. -/
theorem evict_firstTracked (hqueued : ∀ ip ∈ state.perIp, ip ∈ state.ipOrder)
    (hsome : ∃ ip, ip ∈ state.perIp) :
    ∃ x, firstTracked state = some x ∧ x ∈ state.perIp ∧
      (evictOldestTrackedIp state).perIp = state.perIp.erase x ∧
      (evictOldestTrackedIp state).ipOrder = behindFirst state ∧
      (∀ y ∈ state.perIp, ¬Ahead state.ipOrder y x) ∧
      ∀ y ∈ state.perIp, ∀ z ∈ state.perIp, y ≠ x → z ≠ x →
        (Ahead (behindFirst state) y z ↔ Ahead state.ipOrder y z) := by
  obtain ⟨pre, x, rest, count, horder, hpre, hl, heq⟩ := evictOldestTrackedIp_cases hqueued hsome
  have hx : x ∈ state.perIp := Finmap.mem_of_lookup_eq_some hl
  have hfirst : firstTracked state = some x := by
    unfold firstTracked
    rw [horder, List.find?_append, List.find?_cons_of_pos (by simpa using hx)]
    have hnone : pre.find? (fun ip => decide (ip ∈ state.perIp)) = none :=
      List.find?_eq_none.mpr fun a ha => by simpa using hpre a ha
    rw [hnone, Option.none_or]
  have hbehind : behindFirst state = rest := by
    unfold behindFirst
    rw [horder, List.dropWhile_append_of_pos fun a ha => by simpa using hpre a ha,
      List.dropWhile_cons_of_neg (by simpa using hx), List.tail_cons]
  refine ⟨x, hfirst, hx, by rw [heq], by rw [heq, hbehind], fun y hy => ?_,
    fun y hy z hz hyx hzx => ?_⟩
  · rw [horder]
    exact not_ahead_of_first fun hin => hpre y hin hy
  · rw [hbehind, horder, ahead_append_of_notMem (fun hin => hpre y hin hy)
      (fun hin => hpre z hin hz), ahead_cons_of_ne (Ne.symm hyx) (Ne.symm hzx)]

/-- An eviction keeps the queue in order. -/
theorem QueueOrdered.evict (h : QueueOrdered since state)
    (hqueued : ∀ ip ∈ state.perIp, ip ∈ state.ipOrder) (hsome : ∃ ip, ip ∈ state.perIp) :
    QueueOrdered since (evictOldestTrackedIp state) := by
  obtain ⟨x, -, -, hperIp, horder, -, hahead⟩ := evict_firstTracked hqueued hsome
  intro y hy z hz hlt
  rw [hperIp, Finmap.mem_erase] at hy hz
  rw [horder, hahead y hy.2 z hz.2 hy.1 hz.1]
  exact h y hy.2 z hz.2 hlt

/-- **When the queue stays in order**: a new address gets the highest number, so the queue stays in
order exactly if no old entry of the address is in front of a tracked one.

**Proof sketch.** The entry of the new address is at the end, and the tracked addresses are in the
queue already, so it is only an old entry that may be ahead of one of them. -/
theorem queueOrdered_track_iff {ip : IpAddr} {now : Instant} {n : ℕ}
    (hordered : QueueOrdered since state)
    (hqueued : ∀ ip ∈ state.perIp, ip ∈ state.ipOrder) (hnew : ip ∉ state.perIp)
    (hsince : ∀ y ∈ state.perIp, since y < n) :
    QueueOrdered (Function.update since ip n) (track config true 1 ip now state) ↔
      ∀ y ∈ state.perIp, Ahead state.ipOrder y ip := by
  have hother : ∀ y ∈ state.perIp, Function.update since ip n y = since y := by
    intro y hy
    apply Function.update_of_ne
    rintro rfl
    exact hnew hy
  unfold track
  rw [queueOrdered_maybeCompactIpOrder]
  simp only [if_true]
  constructor
  · intro h y hy
    have hlt : Function.update since ip n y < Function.update since ip n ip := by
      rw [hother y hy, Function.update_self]
      exact hsince y hy
    have hahead := h y (Finmap.mem_insert.mpr (.inr hy)) ip (Finmap.mem_insert.mpr (.inl rfl)) hlt
    exact (ahead_concat_self (hqueued y hy)).mp hahead
  · intro h y hy z hz hlt
    rcases Finmap.mem_insert.mp hy with rfl | hold
    · exfalso
      rcases Finmap.mem_insert.mp hz with rfl | hz
      · exact Nat.lt_irrefl _ hlt
      · rw [hother z hz, Function.update_self] at hlt
        exact Nat.lt_asymm hlt (hsince z hz)
    · rcases Finmap.mem_insert.mp hz with rfl | hz
      · exact (ahead_concat_self (hqueued y hold)).mpr (h y hold)
      · rw [hother y hold, hother z hz] at hlt
        exact (ahead_append_of_mem (hqueued y hold) (hqueued z hz)).mpr (hordered y hold z hz hlt)

end Evict

/-! ## Every run -/

/-- The guard beside the number of calls so far, and for each tracked address the number of the
call with which its present period of tracking began. -/
structure Periods where
  state : HalfOpenState
  clock : ℕ
  since : IpAddr → ℕ

/-- No call, and no address that is tracked. -/
def Periods.start : Periods := ⟨{}, 0, fun _ => 0⟩

/-- A call: an address that was not tracked and now is begins its period with it. -/
def Periods.call (config : SynGuardConfig) (p : Periods) (c : Call) : Periods where
  state := SynGuard.call config p.state c
  clock := p.clock + 1
  since ip :=
    if ip ∉ p.state.perIp ∧ ip ∈ (SynGuard.call config p.state c).perIp then p.clock
    else p.since ip

/-- All calls, in any order, with the periods of tracking. -/
def periods (config : SynGuardConfig) : System Periods Call :=
  .ofFn Periods.start fun p c => some (p.call config c)

/-- A granted reservation of a new address, with a full map that is not empty, replaces the tracked
address whose period began earliest. -/
def EvictsOldest (config : SynGuardConfig) (p : Periods) : Call → HalfOpenState → Prop
  | .reserve ip now, state' =>
    (reserve config p.state ip now).1 = .ok () → ip ∉ p.state.perIp →
      config.maxTrackedIps ≤ p.state.perIp.keys.card → (∃ a, a ∈ p.state.perIp) →
      ∃ x ∈ p.state.perIp, state'.perIp = (p.state.perIp.erase x).insert ip 1 ∧
        ∀ y ∈ p.state.perIp, p.since x ≤ p.since y
  | _, _ => True

/-- The entries of the queue that are left when `reserve` pushes a new address: those behind the
first tracked one if the map is full. -/
def entriesLeft (config : SynGuardConfig) (state : HalfOpenState) : List IpAddr :=
  if config.maxTrackedIps ≤ state.perIp.keys.card then behindFirst state else state.ipOrder

/-- The address has been evicted when `reserve` pushes a new one. -/
def Evicted (config : SynGuardConfig) (state : HalfOpenState) (y : IpAddr) : Prop :=
  config.maxTrackedIps ≤ state.perIp.keys.card ∧ firstTracked state = some y

instance (config : SynGuardConfig) (state : HalfOpenState) (y : IpAddr) :
    Decidable (Evicted config state y) := inferInstanceAs (Decidable (_ ∧ _))

/-- A granted reservation of a new address pushes it to a queue in which no old entry of it is in
front of the first entry of a tracked address. -/
def QueuesLast (config : SynGuardConfig) (state : HalfOpenState) : Call → Prop
  | .reserve ip now =>
    (reserve config state ip now).1 = .ok () → ip ∉ state.perIp →
      ∀ y ∈ state.perIp, ¬Evicted config state y → Ahead (entriesLeft config state) y ip
  | _ => True

instance (config : SynGuardConfig) (state : HalfOpenState) :
    (c : Call) → Decidable (QueuesLast config state c)
  | .reserve ip now =>
    inferInstanceAs (Decidable ((reserve config state ip now).1 = .ok () → ip ∉ state.perIp →
      ∀ y ∈ state.perIp, ¬Evicted config state y → Ahead (entriesLeft config state) y ip))
  | .establish _ | .close _ => .isTrue trivial

/-- The queue is in the order of the periods. -/
def Periods.Ordered (p : Periods) : Prop := QueueOrdered p.since p.state

section Run

variable {config : SynGuardConfig} {p p' : Periods}

/-- The periods are beside the guard. -/
theorem Periods.reach_state (h : (periods config).Reach p) : (calls config).Reach p.state := by
  refine h.invariant (I := fun p => (calls config).Reach p.state) ?_ ?_
  · rintro _ rfl
    exact .init rfl
  · rintro p c _ - hr hstep
    obtain rfl := Option.some.inj hstep
    exact .step (l := c) hr rfl

/-- The periods of tracked addresses have begun. -/
theorem Periods.since_lt (h : (periods config).Reach p) {ip : IpAddr} (hip : ip ∈ p.state.perIp) :
    p.since ip < p.clock := by
  refine h.invariant (I := fun p => ∀ ip ∈ p.state.perIp, p.since ip < p.clock) ?_ ?_ ip hip
  · rintro _ rfl ip hip
    exact absurd hip Finmap.notMem_empty
  · rintro p c _ - hlt hstep ip hip
    obtain rfl := Option.some.inj hstep
    show (if _ then _ else _) < p.clock + 1
    split_ifs with hnew
    · exact Nat.lt_succ_self _
    · have hold : ip ∈ p.state.perIp := by
        by_contra hnot
        exact hnew ⟨hnot, hip⟩
      exact (hlt ip hold).trans (Nat.lt_succ_self _)

/-- A call that tracks no new address keeps the numbers. -/
theorem Periods.ordered_of_subset {c : Call} {state' : HalfOpenState}
    (h : SynGuard.call config p.state c = state') (hsub : ∀ ip ∈ state'.perIp, ip ∈ p.state.perIp) :
    (p.call config c).Ordered ↔ QueueOrdered p.since state' := by
  subst h
  have hsince : (p.call config c).since = p.since := by
    funext ip
    exact if_neg fun hnew => hnew.1 (hsub ip hnew.2)
  unfold Periods.Ordered
  rw [hsince]
  rfl

/-- A granted reservation of a new address gives it the next number. -/
theorem Periods.ordered_of_track {ip : IpAddr} {now : Instant} {evicted : HalfOpenState}
    (hnew : ip ∉ p.state.perIp) (hsub : ∀ a ∈ evicted.perIp, a ∈ p.state.perIp)
    (h : (reserve config p.state ip now).2 = track config true 1 ip now evicted) :
    (p.call config (.reserve ip now)).Ordered ↔
      QueueOrdered (Function.update p.since ip p.clock) (track config true 1 ip now evicted) := by
  have hsince : (p.call config (.reserve ip now)).since = Function.update p.since ip p.clock := by
    funext a
    have hmem : a ∈ (SynGuard.call config p.state (.reserve ip now)).perIp ↔
        a = ip ∨ a ∈ evicted.perIp := by
      have hperIp : (SynGuard.call config p.state (.reserve ip now)).perIp =
          evicted.perIp.insert ip 1 := (congrArg HalfOpenState.perIp h).trans (track_perIp true 1)
      rw [hperIp]
      exact Finmap.mem_insert
    simp only [Periods.call, hmem, Function.update_apply]
    by_cases ha : a = ip
    · subst ha
      rw [if_pos ⟨hnew, .inl rfl⟩, if_pos rfl]
    · rw [if_neg ha, if_neg]
      rintro ⟨hnot, hin⟩
      exact hnot (hsub a (hin.resolve_left ha))
  unfold Periods.Ordered
  rw [hsince, ← h]
  rfl

/-- A granted reservation of a new address, with its count. -/
theorem reserve_new {state : HalfOpenState} {ip : IpAddr} {now : Instant}
    (hok : (reserve config state ip now).1 = .ok ()) (hnew : ip ∉ state.perIp) :
    (reserve config state ip now).2 = track config true 1 ip now
      (if config.maxTrackedIps ≤ state.perIp.keys.card then evictOldestTrackedIp state
      else state) := by
  have hcount : countOf state ip = 0 := by rw [countOf, Finmap.lookup_eq_none.mpr hnew]; rfl
  rw [reserve_ok_eq hok, hcount]
  simp only [hnew, not_false_eq_true, true_and, decide_true, Nat.zero_add]

/-- A granted reservation of a tracked address, with its count. -/
theorem reserve_again {state : HalfOpenState} {ip : IpAddr} {now : Instant}
    (hok : (reserve config state ip now).1 = .ok ()) (hold : ip ∈ state.perIp) :
    (reserve config state ip now).2 =
      track config false (countOf state ip + 1) ip now state := by
  rw [reserve_ok_eq hok]
  simp only [hold, not_true_eq_false, false_and, if_false, decide_false]

/-- **One reservation**: the queue stays in order exactly if the reserved address is queued last.

**Proof sketch.** A refusal changes nothing, and an address that is tracked already enters no
queue. For a new one `queueOrdered_track_iff` decides, in the queue that an eviction leaves. -/
theorem Periods.ordered_reserve_iff (hb : Bounds config p.state)
    (hsince : ∀ y ∈ p.state.perIp, p.since y < p.clock) (ho : p.Ordered) (ip : IpAddr)
    (now : Instant) :
    (p.call config (.reserve ip now)).Ordered ↔
      QueuesLast config p.state (.reserve ip now) := by
  cases hr : (reserve config p.state ip now).1 with
  | error e =>
    rw [Periods.ordered_of_subset (c := .reserve ip now) (reserve_error hr) fun _ ha => ha]
    refine iff_of_true ho fun hok => ?_
    rw [hr] at hok
    cases hok
  | ok _ =>
    by_cases hnew : ip ∈ p.state.perIp
    · have hsub : ∀ a ∈ (track config false (countOf p.state ip + 1) ip now p.state).perIp,
          a ∈ p.state.perIp := by
        intro a ha
        rw [track_perIp] at ha
        rcases Finmap.mem_insert.mp ha with rfl | ha
        · exact hnew
        · exact ha
      rw [Periods.ordered_of_subset (c := .reserve ip now) (reserve_again hr hnew) hsub]
      refine iff_of_true ?_ fun _ hnot => absurd hnew hnot
      rw [track_perIp] at hsub
      unfold track
      rw [queueOrdered_maybeCompactIpOrder]
      exact QueueOrdered.mono ho hsub rfl
    · have heq := reserve_new hr hnew
      simp only [QueuesLast, hr, hnew, not_false_eq_true, true_imp_iff, Evicted, entriesLeft]
      by_cases hfull : config.maxTrackedIps ≤ p.state.perIp.keys.card
      · rw [if_pos hfull] at heq
        by_cases hsome : ∃ a, a ∈ p.state.perIp
        · obtain ⟨x, hfirst, hx, hperIp, horder, -, -⟩ := evict_firstTracked hb.queued hsome
          have hsub : ∀ a ∈ (evictOldestTrackedIp p.state).perIp, a ∈ p.state.perIp := by
            intro a ha
            rw [hperIp] at ha
            exact (Finmap.mem_erase.mp ha).2
          rw [Periods.ordered_of_track hnew hsub heq,
            queueOrdered_track_iff (ho.evict hb.queued hsome)
              (hb.evictOldestTrackedIp hsome).1.queued (mt (hsub ip) hnew)
              fun y hy => hsince y (hsub y hy)]
          rw [hperIp, horder, hfirst]
          simp only [hfull, true_and, if_true, Finmap.mem_erase, ne_eq, Option.some.injEq, and_imp,
            eq_comm (a := x)]
          exact ⟨fun h y hy hyx => h y hyx hy, fun h y hyx hy => h y hy hyx⟩
        · obtain ⟨hev, hsame⟩ := hb.evict_empty hsome
          have hnone : ∀ y, y ∉ p.state.perIp := fun y hy => hsome ⟨y, hy⟩
          have hordered : QueueOrdered p.since (evictOldestTrackedIp p.state) := by
            intro y hy
            rw [hsame] at hy
            exact absurd hy (hnone y)
          rw [Periods.ordered_of_track hnew (by rw [hsame]; exact fun _ ha => ha) heq,
            queueOrdered_track_iff hordered hev.queued (by rw [hsame]; exact hnew)
              (by rw [hsame]; exact hsince), hsame]
          exact iff_of_true (fun y hy => absurd hy (hnone y)) fun y hy => absurd hy (hnone y)
      · rw [if_neg hfull] at heq
        rw [Periods.ordered_of_track hnew (fun _ ha => ha) heq,
          queueOrdered_track_iff ho hb.queued hnew hsince]
        simp only [hfull, false_and, not_false_eq_true, true_imp_iff, if_false]

/-- **One call**: the queue stays in order exactly if a reserved address is queued last. -/
theorem Periods.ordered_call_iff (hb : Bounds config p.state)
    (hsince : ∀ y ∈ p.state.perIp, p.since y < p.clock) (ho : p.Ordered) (c : Call) :
    (p.call config c).Ordered ↔ QueuesLast config p.state c := by
  cases c with
  | reserve ip now => exact Periods.ordered_reserve_iff hb hsince ho ip now
  | establish addr =>
    refine iff_of_true ?_ trivial
    have hcall : SynGuard.call config p.state (.establish addr) = establish config p.state addr :=
      rfl
    have hsub : ∀ a ∈ (SynGuard.settleOne config p.state addr.ip).perIp, a ∈ p.state.perIp :=
      fun a ha => mem_of_mem_settleOne ha
    rw [Periods.ordered_of_subset hcall hsub]
    exact (QueueOrdered.settleOne ho addr.ip).mono (fun _ ha => ha) rfl
  | close addr =>
    refine iff_of_true ?_ trivial
    have hcall : SynGuard.call config p.state (.close addr) = close config p.state addr := rfl
    unfold close at hcall
    by_cases hest : addr ∈ p.state.established
    · rw [if_pos hest] at hcall
      rw [Periods.ordered_of_subset hcall fun _ ha => ha]
      exact QueueOrdered.mono ho (fun _ ha => ha) rfl
    · rw [if_neg hest] at hcall
      rw [Periods.ordered_of_subset hcall fun a ha => mem_of_mem_settleOne ha]
      exact QueueOrdered.settleOne ho addr.ip

/-- **With the queue in order an eviction takes the address tracked longest.** -/
theorem Periods.evictsOldest (hb : Bounds config p.state) (ho : p.Ordered) (c : Call) :
    EvictsOldest config p c (p.call config c).state := by
  cases c with
  | establish addr | close addr => trivial
  | reserve ip now =>
    intro hok hnew hfull hsome
    obtain ⟨x, -, hx, hperIp, -, hfirst, -⟩ := evict_firstTracked hb.queued hsome
    have heq := reserve_new hok hnew
    rw [if_pos hfull] at heq
    refine ⟨x, hx, ?_, fun y hy => ?_⟩
    · show (reserve config p.state ip now).2.perIp = _
      rw [heq, track_perIp, hperIp]
    · by_contra hlt
      exact hfirst y hy (ho y hy x hx (Nat.not_le.mp hlt))

/-- **Evictions are in order**, in every run: the queue stays in the order of the periods of
tracking exactly if every address that comes to be tracked is queued behind the tracked ones, and
if so every eviction takes the address whose period began earliest.

**Proof sketch.** `Periods.ordered_call_iff` decides each step, and `Run.forall_target_iff`
carries the decision along the run. -/
theorem evictsOldest_of_queuesLast (hmax : config.maxTrackedIps ≤ usizeMax)
    {tr : List (Taken Periods Call)} (h : (periods config).Run Periods.start tr p) :
    ((∀ x ∈ tr, x.target.Ordered) ↔ ∀ x ∈ tr, QueuesLast config x.source.state x.label) ∧
      ((∀ x ∈ tr, QueuesLast config x.source.state x.label) →
        ∀ x ∈ tr, EvictsOldest config x.source x.label x.target.state) := by
  have hstart : (periods config).Reach Periods.start := .init rfl
  have hordered : Periods.start.Ordered := fun y hy => absurd hy Finmap.notMem_empty
  have hbounds : ∀ {q : Periods}, (periods config).Reach q → Bounds config q.state := fun hr =>
    bounds_of_reach hmax (Periods.reach_state hr)
  have hiff := h.forall_target_iff (P := Periods.Ordered)
    (G := fun q c _ => QueuesLast config q.state c) (fun q c q' hr ho hstep => by
      obtain rfl := Option.some.inj hstep
      exact Periods.ordered_call_iff (hbounds hr) (fun y hy => Periods.since_lt hr hy) ho c)
    hstart hordered
  refine ⟨hiff, fun hlast x hx => ?_⟩
  have hsource := h.forall_source hordered (hiff.mpr hlast) x hx
  obtain ⟨hr, hstep⟩ := h.taken hstart hx
  obtain heq : x.source.call config x.label = x.target := Option.some.inj hstep
  rw [← heq]
  exact Periods.evictsOldest (hbounds hr) hsource x.label

/-! ## An old entry in front -/

/-- With room for two addresses: `10.0.0.1` and `10.0.0.2` come to be tracked, and `10.0.0.3` takes
the place of the first. -/
theorem evictsOldest_of_queuesLast_two :
    ∃ (tr : List (Taken Periods Call)) (p : Periods),
      (periods { maxTrackedIps := 2 }).Run Periods.start tr p ∧ tr.length = 3 ∧
        p.state.perIp.keys = {.v4 (ipv4 10 0 0 2), .v4 (ipv4 10 0 0 3)} ∧
        ∀ x ∈ tr, EvictsOldest { maxTrackedIps := 2 } x.source x.label x.target.state := by
  have h : (periods { maxTrackedIps := 2 }).Run Periods.start _ _ :=
    .cons (l := .reserve (.v4 (ipv4 10 0 0 1)) 1) rfl
      (.cons (l := .reserve (.v4 (ipv4 10 0 0 2)) 2) rfl
        (.cons (l := .reserve (.v4 (ipv4 10 0 0 3)) 3) rfl (.nil _)))
  refine ⟨_, _, h, rfl, by decide +kernel, (evictsOldest_of_queuesLast (by decide) h).2 ?_⟩
  decide +kernel

/-- **The younger of two addresses is evicted**: with room for two, `10.0.0.1` and `10.0.0.2` come
to be tracked, `10.0.0.1` is established and reserves again, and then `10.0.0.3` takes the place of
`10.0.0.1`, although `10.0.0.2` has been tracked longer. -/
theorem not_forall_evictsOldest :
    ¬ ∀ (config : SynGuardConfig) (tr : List (Taken Periods Call)) (p : Periods),
      (periods config).Run Periods.start tr p →
        ∀ x ∈ tr, EvictsOldest config x.source x.label x.target.state := by
  intro hall
  have h : (periods { maxTrackedIps := 2 }).Run Periods.start _ _ :=
    .cons (l := .reserve (.v4 (ipv4 10 0 0 1)) 1) rfl
      (.cons (l := .reserve (.v4 (ipv4 10 0 0 2)) 2) rfl
        (.cons (l := .establish (.v4 (ipv4 10 0 0 1) 1001)) rfl
          (.cons (l := .reserve (.v4 (ipv4 10 0 0 1)) 3) rfl
            (.cons (l := .reserve (.v4 (ipv4 10 0 0 3)) 4) rfl (.nil _)))))
  have hlast := hall _ _ _ h _ (.tail _ (.tail _ (.tail _ (.tail _ (.head _)))))
  have hevicted := hlast (by decide +kernel) (by decide +kernel) (by decide +kernel)
    ⟨.v4 (ipv4 10 0 0 2), by decide +kernel⟩
  exact absurd hevicted (by decide +kernel)

end Run

end SynGuard

end Synclaire
