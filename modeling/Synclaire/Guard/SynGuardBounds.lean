import Synclaire.Guard.SynGuard
import Synclaire.Lib.Transition

set_option relaxedAutoImplicit false
set_option autoImplicit false

/-!
# The bounds of the half-open guard

Whatever is called, in whatever order, the half-open guard stays within its configuration: the
counts, the map, the queue of tracked addresses and the total. Nothing is assumed of the calls;
an address may be closed that never reserved, and established twice.

## Main definitions

* `Synclaire.SynGuard.Call`, `Synclaire.SynGuard.call` — a call on the counters, and what it does.
* `Synclaire.SynGuard.calls` — the transition system of all calls.
* `Synclaire.SynGuard.Bounds` — the bounds.

## Main results

* `Synclaire.SynGuard.settleOne_cases`, `Synclaire.SynGuard.evictOldestTrackedIp_cases` — what
  counting down and evicting do.
* `Synclaire.SynGuard.mem_compactLoop`, `Synclaire.SynGuard.nodup_compactLoop` — what a compaction
  keeps.
* `Synclaire.SynGuard.bounds_of_reach` — the bounds hold in every reachable state.

## Implementation notes

Eviction finds an address to evict because every tracked address is somewhere in the queue, and
a compaction shortens the queue enough because it leaves every tracked address once.
-/

namespace Synclaire

open Transition

namespace SynGuard

/-! ## Calls -/

/-- A call on the counters. -/
inductive Call
  | reserve (ip : IpAddr) (now : Instant)
  | establish (addr : SocketAddr)
  | close (addr : SocketAddr)
  deriving DecidableEq

/-- The counters after a call. -/
def call (config : SynGuardConfig) (state : HalfOpenState) : Call → HalfOpenState
  | .reserve ip now => (reserve config state ip now).2
  | .establish addr => establish config state addr
  | .close addr => close config state addr

/-- All calls, in any order. -/
def calls (config : SynGuardConfig) : System HalfOpenState Call :=
  .ofFn {} fun state c => some (call config state c)

/-- The length from which the queue is compacted. -/
def orderBound (config : SynGuardConfig) : ℕ := max 16 (saturatingMul config.maxTrackedIps 4)

/-- The bounds of the counters. -/
structure Bounds (config : SynGuardConfig) (state : HalfOpenState) : Prop where
  sameKeys : state.startedAt.keys = state.perIp.keys
  counts : ∀ ip count, state.perIp.lookup ip = some count →
    1 ≤ count ∧ count ≤ config.maxHalfOpenPerIp
  queued : ∀ ip ∈ state.perIp, ip ∈ state.ipOrder
  tracked : state.perIp.keys.card ≤ max 1 config.maxTrackedIps
  order : state.ipOrder.length ≤ orderBound config
  total_le_global : state.total ≤ config.maxHalfOpenGlobal
  total_le_sum : state.total ≤ state.perIp.sum

/-- No connection is counted at first. -/
theorem bounds_empty (config : SynGuardConfig) : Bounds config {} where
  sameKeys := rfl
  counts ip count h := by simp at h
  queued ip h := absurd h (Finmap.notMem_empty)
  tracked := Nat.zero_le _
  order := Nat.zero_le _
  total_le_global := Nat.zero_le _
  total_le_sum := Nat.zero_le _

/-! ## Compaction -/

section Compaction

variable {perIp : FMap IpAddr ℕ}

/-- A compaction keeps the tracked addresses. -/
theorem mem_compactLoop {ip : IpAddr} {order : List IpAddr} {seen : Finset IpAddr} :
    ip ∈ compactLoop perIp order seen ↔ ip ∈ order ∧ ip ∈ perIp ∧ ip ∉ seen := by
  induction order generalizing seen with
  | nil => simp [compactLoop]
  | cons a rest ih =>
    unfold compactLoop
    by_cases hkeep : a ∈ perIp ∧ a ∉ seen
    · rw [if_pos hkeep, List.mem_cons, ih, List.mem_cons, Finset.mem_insert]
      by_cases hip : ip = a
      · subst hip
        simp [hkeep]
      · simp [hip]
    · rw [if_neg hkeep, ih, List.mem_cons]
      by_cases hip : ip = a
      · subst hip
        simp only [true_or, true_and]
        exact ⟨fun h => h.2, fun h => absurd h hkeep⟩
      · simp [hip]

/-- A compaction keeps each address once. -/
theorem nodup_compactLoop (order : List IpAddr) (seen : Finset IpAddr) :
    (compactLoop perIp order seen).Nodup := by
  induction order generalizing seen with
  | nil => exact List.nodup_nil
  | cons a rest ih =>
    unfold compactLoop
    split_ifs
    · refine List.nodup_cons.mpr ⟨fun hmem => ?_, ih _⟩
      exact (mem_compactLoop.mp hmem).2.2 (Finset.mem_insert_self a seen)
    · exact ih seen

/-- A compacted queue is not longer than the map. -/
theorem length_compactLoop_le (order : List IpAddr) (seen : Finset IpAddr) :
    (compactLoop perIp order seen).length ≤ perIp.keys.card := by
  rw [← List.toFinset_card_of_nodup (nodup_compactLoop order seen)]
  apply Finset.card_le_card
  intro ip hip
  exact Finmap.mem_keys.mpr (mem_compactLoop.mp (List.mem_toFinset.mp hip)).2.1

end Compaction

section Compact

variable (config : SynGuardConfig) (state : HalfOpenState)

/-- A compaction is made when the queue is too long. -/
theorem maybeCompactIpOrder_ipOrder :
    (maybeCompactIpOrder config state).ipOrder =
      if state.ipOrder.length ≤ orderBound config then state.ipOrder
      else compactLoop state.perIp state.ipOrder ∅ := by
  unfold maybeCompactIpOrder orderBound
  rw [max_comm 16]
  dsimp only
  split_ifs <;> rfl

/-- Compacting the order of the addresses keeps the start times. -/
@[simp] theorem maybeCompactIpOrder_startedAt :
    (maybeCompactIpOrder config state).startedAt = state.startedAt := by
  unfold maybeCompactIpOrder
  dsimp only
  split_ifs <;> rfl

/-- A tracked address stays in the queue. -/
theorem mem_maybeCompactIpOrder {ip : IpAddr} (htracked : ip ∈ state.perIp)
    (hqueued : ip ∈ state.ipOrder) : ip ∈ (maybeCompactIpOrder config state).ipOrder := by
  rw [maybeCompactIpOrder_ipOrder]
  split_ifs
  · exact hqueued
  · exact mem_compactLoop.mpr ⟨hqueued, htracked, Finset.notMem_empty ip⟩

/-- **The queue is short enough after a compaction**, if the map is not too large. -/
theorem length_maybeCompactIpOrder_le (hmax : config.maxTrackedIps ≤ usizeMax)
    (hcard : state.perIp.keys.card ≤ max 1 config.maxTrackedIps) :
    (maybeCompactIpOrder config state).ipOrder.length ≤ orderBound config := by
  rw [maybeCompactIpOrder_ipOrder]
  split_ifs with hlen
  · exact hlen
  · have hle : (compactLoop state.perIp state.ipOrder ∅).length ≤ state.perIp.keys.card :=
      length_compactLoop_le state.ipOrder ∅
    unfold orderBound saturatingMul
    omega

end Compact

/-! ## Counting down -/

section Settle

variable {config : SynGuardConfig} {state : HalfOpenState}

/-- **What counting down does**: `total` goes down, and a tracked address loses one from its count
or leaves. -/
theorem settleOne_cases (config : SynGuardConfig) (state : HalfOpenState) (ip : IpAddr) :
    (state.perIp.lookup ip = none ∧
        settleOne config state ip = { state with total := state.total - 1 }) ∨
      (∃ count, state.perIp.lookup ip = some count ∧ 1 < count ∧
        settleOne config state ip =
          { state with total := state.total - 1, perIp := state.perIp.insert ip (count - 1) }) ∨
      ∃ count, state.perIp.lookup ip = some count ∧ count ≤ 1 ∧
        settleOne config state ip = maybeCompactIpOrder config
          { state with
            total := state.total - 1
            perIp := state.perIp.erase ip
            startedAt := state.startedAt.erase ip } := by
  unfold settleOne
  dsimp only
  cases hl : state.perIp.lookup ip with
  | none => exact .inl ⟨rfl, rfl⟩
  | some count =>
    dsimp only
    by_cases hcount : 1 < count
    · rw [if_pos hcount]
      exact .inr (.inl ⟨count, rfl, hcount, rfl⟩)
    · rw [if_neg hcount]
      exact .inr (.inr ⟨count, rfl, Nat.not_lt.mp hcount, rfl⟩)

/-- Counting down takes no more from `total` than from the sum. -/
theorem settleOne_total_le_sum (config : SynGuardConfig) {state : HalfOpenState} (ip : IpAddr)
    (h : state.total ≤ state.perIp.sum) :
    (settleOne config state ip).total ≤ (settleOne config state ip).perIp.sum := by
  have hsum := settleOne_sum config state ip
  rw [settleOne_total]
  omega

/-- Counting down keeps the bounds. -/
theorem Bounds.settleOne (hmax : config.maxTrackedIps ≤ usizeMax) (h : Bounds config state)
    (ip : IpAddr) : Bounds config (settleOne config state ip) := by
  have hsum := settleOne_total_le_sum config ip h.total_le_sum
  have hglobal : state.total - 1 ≤ config.maxHalfOpenGlobal :=
    (Nat.sub_le _ _).trans h.total_le_global
  rcases settleOne_cases config state ip with ⟨-, heq⟩ | ⟨count, hl, hcount, heq⟩ |
    ⟨count, hl, hcount, heq⟩
  · rw [heq] at hsum ⊢
    exact ⟨h.sameKeys, h.counts, h.queued, h.tracked, h.order, hglobal, hsum⟩
  · have hkeys : (state.perIp.insert ip (count - 1)).keys = state.perIp.keys :=
      FMap.keys_insert_of_mem (Finmap.mem_of_lookup_eq_some hl) (count - 1)
    rw [heq] at hsum ⊢
    refine ⟨h.sameKeys.trans hkeys.symm, fun a c hc => ?_, fun a ha => ?_, ?_, h.order, hglobal,
      hsum⟩
    · rw [FMap.lookup_insert_eq_ite] at hc
      split_ifs at hc with ha
      · have hbound := h.counts ip count hl
        have := Option.some.inj hc
        omega
      · exact h.counts a c hc
    · rw [← Finmap.mem_keys, hkeys, Finmap.mem_keys] at ha
      exact h.queued a ha
    · rw [hkeys]
      exact h.tracked
  · have hcard : (state.perIp.erase ip).keys.card ≤ max 1 config.maxTrackedIps := by
      rw [Finmap.keys_erase]
      exact (Finset.card_le_card (Finset.erase_subset _ _)).trans h.tracked
    rw [heq] at hsum ⊢
    refine ⟨?_, fun a c hc => ?_, fun a ha => ?_, ?_, ?_, ?_, hsum⟩
    · rw [maybeCompactIpOrder_startedAt, maybeCompactIpOrder_perIp]
      rw [Finmap.keys_erase, Finmap.keys_erase, h.sameKeys]
    · rw [maybeCompactIpOrder_perIp, FMap.lookup_erase_eq_ite] at hc
      split_ifs at hc
      exact h.counts a c hc
    · rw [maybeCompactIpOrder_perIp] at ha
      have hold : a ∈ state.perIp := (Finmap.mem_erase.mp ha).2
      exact mem_maybeCompactIpOrder config _ ha (h.queued a hold)
    · rw [maybeCompactIpOrder_perIp]
      exact hcard
    · exact length_maybeCompactIpOrder_le config _ hmax hcard
    · rw [maybeCompactIpOrder_total]
      exact hglobal

/-- Remembering an established address is no matter of the counters. -/
theorem Bounds.of_established (h : Bounds config state) (established : Finset SocketAddr) :
    Bounds config { state with established } :=
  ⟨h.sameKeys, h.counts, h.queued, h.tracked, h.order, h.total_le_global, h.total_le_sum⟩

end Settle

/-! ## Evicting -/

/-- **Eviction finds an address**: if the tracked addresses are in the queue and there is one, the
first tracked one in the queue leaves. -/
theorem evictOldestTrackedIp_cases {state : HalfOpenState}
    (hqueued : ∀ ip ∈ state.perIp, ip ∈ state.ipOrder) (hsome : ∃ ip, ip ∈ state.perIp) :
    ∃ pre ip rest count, state.ipOrder = pre ++ ip :: rest ∧ (∀ a ∈ pre, a ∉ state.perIp) ∧
      state.perIp.lookup ip = some count ∧
      evictOldestTrackedIp state =
        { state with
          total := state.total - count
          perIp := state.perIp.erase ip
          startedAt := state.startedAt.erase ip
          ipOrder := rest } := by
  rcases evictLoop_split state.ipOrder state with ⟨hnone, -⟩ | hsplit
  · obtain ⟨ip, hip⟩ := hsome
    exact absurd hip (hnone ip (hqueued ip hip))
  · exact hsplit

/-- An eviction keeps the bounds. -/
theorem Bounds.evictOldestTrackedIp {config : SynGuardConfig} {state : HalfOpenState}
    (h : Bounds config state) (hsome : ∃ ip, ip ∈ state.perIp) :
    Bounds config (evictOldestTrackedIp state) ∧
      (SynGuard.evictOldestTrackedIp state).perIp.keys.card < state.perIp.keys.card := by
  obtain ⟨pre, ip, rest, count, horder, hpre, hl, heq⟩ :=
    evictOldestTrackedIp_cases h.queued hsome
  have hmem : ip ∈ state.perIp.keys := Finmap.mem_keys.mpr (Finmap.mem_of_lookup_eq_some hl)
  have hsum := FMap.sum_erase state.perIp ip
  rw [hl, Option.getD_some] at hsum
  have htotal := h.total_le_sum
  have hcard : (state.perIp.erase ip).keys.card < state.perIp.keys.card := by
    rw [Finmap.keys_erase]
    exact Finset.card_erase_lt_of_mem hmem
  rw [heq]
  refine ⟨⟨?_, fun a c hc => ?_, fun a ha => ?_, hcard.le.trans h.tracked, ?_, ?_, ?_⟩, hcard⟩
  · rw [Finmap.keys_erase, Finmap.keys_erase, h.sameKeys]
  · rw [FMap.lookup_erase_eq_ite] at hc
    split_ifs at hc
    exact h.counts a c hc
  · obtain ⟨hne, ha⟩ := Finmap.mem_erase.mp ha
    have hqueued := h.queued a ha
    rw [horder, List.mem_append, List.mem_cons] at hqueued
    exact (hqueued.resolve_left fun hin => hpre a hin ha).resolve_left hne
  · have hlen := h.order
    rw [horder, List.length_append, List.length_cons] at hlen
    show rest.length ≤ orderBound config
    omega
  · exact (Nat.sub_le _ _).trans h.total_le_global
  · show state.total - count ≤ FMap.sum (Finmap.erase ip state.perIp)
    omega

/-- An eviction takes from the total, if anything. -/
theorem evictOldestTrackedIp_total_le (state : HalfOpenState) :
    (evictOldestTrackedIp state).total ≤ state.total := by
  rcases evictLoop_cases state.ipOrder state with ⟨rest, h⟩ | ⟨ip, count, rest, -, h⟩
  · rw [evictOldestTrackedIp, h]
  · rw [evictOldestTrackedIp, h]
    exact Nat.sub_le _ _

/-- There is nothing to evict from an empty map. -/
theorem Bounds.evict_empty {config : SynGuardConfig} {state : HalfOpenState}
    (h : Bounds config state) (hnone : ¬∃ ip, ip ∈ state.perIp) :
    Bounds config (SynGuard.evictOldestTrackedIp state) ∧
      (SynGuard.evictOldestTrackedIp state).perIp = state.perIp := by
  unfold SynGuard.evictOldestTrackedIp
  rcases evictLoop_split state.ipOrder state with ⟨-, heq⟩ | ⟨pre, ip, rest, count, -, -, hl, -⟩
  · rw [heq]
    exact ⟨⟨h.sameKeys, h.counts, fun ip hip => absurd ⟨ip, hip⟩ hnone, h.tracked, Nat.zero_le _,
      h.total_le_global, h.total_le_sum⟩, rfl⟩
  · exact absurd ⟨ip, Finmap.mem_of_lookup_eq_some hl⟩ hnone

/-! ## Reserving -/

section Reserve

variable {config : SynGuardConfig} {state : HalfOpenState} {ip : IpAddr}

/-- Counting a reservation takes no more to `total` than to the sum. -/
theorem track_total_le_sum {isNewIp : Bool} {now : Instant} (h : state.total ≤ state.perIp.sum) :
    (track config isNewIp (countOf state ip + 1) ip now state).total ≤
      (track config isNewIp (countOf state ip + 1) ip now state).perIp.sum := by
  have hsum := FMap.sum_insert state.perIp ip (countOf state ip + 1)
  rw [track_total, track_perIp]
  unfold countOf at hsum ⊢
  omega

/-- **Counting a reservation keeps the bounds**, if there is room in total, for the address and,
where the address is new, in the map.

**Proof sketch.** A new address enters both maps with a count of one and the queue at its end; an
old one only counts up. The queue is compacted if it has become too long. -/
theorem Bounds.track (hmax : config.maxTrackedIps ≤ usizeMax) (h : Bounds config state)
    (hglobal : state.total < config.maxHalfOpenGlobal)
    (hperIp : countOf state ip < config.maxHalfOpenPerIp)
    (hroom : ip ∉ state.perIp → state.perIp.keys.card < max 1 config.maxTrackedIps)
    (now : Instant) :
    Bounds config
      (track config (decide (ip ∉ state.perIp)) (countOf state ip + 1) ip now state) := by
  have hstarted : ip ∈ state.startedAt ↔ ip ∈ state.perIp := by
    rw [← Finmap.mem_keys, h.sameKeys, Finmap.mem_keys]
  have hkeys : (state.perIp.insert ip (countOf state ip + 1)).keys = insert ip state.perIp.keys :=
    FMap.keys_insert state.perIp ip _
  have hcard : (state.perIp.insert ip (countOf state ip + 1)).keys.card ≤
      max 1 config.maxTrackedIps := by
    by_cases hip : ip ∈ state.perIp
    · rw [FMap.keys_insert_of_mem hip]
      exact h.tracked
    · rw [hkeys, Finset.card_insert_of_notMem (mt Finmap.mem_keys.mp hip)]
      exact hroom hip
  refine ⟨?_, fun a c hc => ?_, fun a ha => ?_, ?_, ?_, ?_, track_total_le_sum h.total_le_sum⟩
  · rw [track_perIp, hkeys, SynGuard.track, maybeCompactIpOrder_startedAt]
    dsimp only
    split_ifs with hin
    · rw [h.sameKeys, Finset.insert_eq_of_mem (Finmap.mem_keys.mpr (hstarted.mp hin))]
    · rw [FMap.keys_insert, h.sameKeys]
  · rw [track_perIp, FMap.lookup_insert_eq_ite] at hc
    split_ifs at hc with ha
    · have := Option.some.inj hc
      omega
    · exact h.counts a c hc
  · rw [track_perIp] at ha
    refine mem_maybeCompactIpOrder config _ ha ?_
    dsimp only
    rcases Finmap.mem_insert.mp ha with rfl | hold
    · by_cases hip : a ∈ state.perIp
      · simpa [hip] using h.queued a hip
      · simp [hip]
    · split_ifs
      · exact List.mem_append_left _ (h.queued a hold)
      · exact h.queued a hold
  · rw [track_perIp]
    exact hcard
  · exact length_maybeCompactIpOrder_le config _ hmax hcard
  · rw [track_total]
    exact hglobal

/-- **Reserving keeps the bounds.**

**Proof sketch.** A granted reservation of a new address for which the map has no room has evicted
another one, as a map without room has an address in it, unless it may have none at all. -/
theorem Bounds.reserve (hmax : config.maxTrackedIps ≤ usizeMax) (h : Bounds config state)
    (ip : IpAddr) (now : Instant) : Bounds config (reserve config state ip now).2 := by
  cases hr : (SynGuard.reserve config state ip now).1 with
  | error e =>
    rw [reserve_error hr]
    exact h
  | ok _ =>
    obtain ⟨hglobal, hperIp⟩ := reserve_isOk_iff.mp hr
    rw [reserve_ok_eq hr]
    split_ifs with hfull
    · obtain ⟨hnew, hfull⟩ := hfull
      have hnone := Finmap.lookup_eq_none.mpr hnew
      obtain ⟨hev, hroom⟩ : Bounds config (SynGuard.evictOldestTrackedIp state) ∧
          (SynGuard.evictOldestTrackedIp state).perIp.keys.card < max 1 config.maxTrackedIps := by
        by_cases hsome : ∃ a, a ∈ state.perIp
        · obtain ⟨hev, hlt⟩ := h.evictOldestTrackedIp hsome
          exact ⟨hev, hlt.trans_le h.tracked⟩
        · obtain ⟨hev, hsame⟩ := h.evict_empty hsome
          have hempty : state.perIp.keys = ∅ :=
            Finset.eq_empty_of_forall_notMem fun a ha => hsome ⟨a, Finmap.mem_keys.mp ha⟩
          refine ⟨hev, ?_⟩
          rw [hsame, hempty, Finset.card_empty]
          omega
      have hnone' := evictOldestTrackedIp_lookup_eq_none hnone
      have hnew' : ip ∉ (SynGuard.evictOldestTrackedIp state).perIp :=
        Finmap.lookup_eq_none.mp hnone'
      have hcount : countOf state ip = countOf (SynGuard.evictOldestTrackedIp state) ip := by
        rw [countOf, countOf, hnone, hnone']
      have htotal := evictOldestTrackedIp_total_le state
      rw [hcount] at hperIp ⊢
      have htrack := hev.track hmax (htotal.trans_lt hglobal) hperIp (fun _ => hroom) now
      simpa only [hnew, hnew'] using htrack
    · refine h.track hmax hglobal hperIp (fun hip => ?_) now
      have hlt : ¬config.maxTrackedIps ≤ state.perIp.keys.card := fun hle => hfull ⟨hip, hle⟩
      omega

end Reserve

/-! ## Every run -/

/-- Every call keeps the bounds. -/
theorem Bounds.call {config : SynGuardConfig} {state : HalfOpenState}
    (hmax : config.maxTrackedIps ≤ usizeMax) (h : Bounds config state) (c : Call) :
    Bounds config (call config state c) := by
  cases c with
  | reserve ip now => exact h.reserve hmax ip now
  | establish addr => exact (h.settleOne hmax addr.ip).of_established _
  | close addr =>
    show Bounds config (close config state addr)
    unfold close
    split_ifs
    · exact h.of_established _
    · exact h.settleOne hmax addr.ip

/-- **The bounds of the half-open guard** hold in every state that any sequence of `reserve`,
`establish` and `close` calls reaches, for every configuration (`max_tracked_ips` is a `usize`):
both maps have the same keys, every count is at least one and within its limit, every tracked
address is queued, the map and the queue are bounded, and `total` is within its limit and at
most the sum of the counts. -/
theorem bounds_of_reach {config : SynGuardConfig} (hmax : config.maxTrackedIps ≤ usizeMax)
    {state : HalfOpenState} (h : (calls config).Reach state) : Bounds config state := by
  refine h.invariant (I := Bounds config) ?_ ?_
  · rintro _ rfl
    exact bounds_empty config
  · rintro state c _ - hb hstep
    obtain rfl := Option.some.inj hstep
    exact hb.call hmax c

/-- With room for no address at all: `10.0.0.1` reserves, `10.0.0.2` takes its place, and
`10.0.0.1` is closed and established without being tracked. -/
theorem bounds_of_reach_ill_paired :
    ∃ state, (calls { maxTrackedIps := 0 }).Reach state ∧ state.perIp.keys.card = 1 ∧
      Bounds { maxTrackedIps := 0 } state := by
  have h : (calls { maxTrackedIps := 0 }).Reach _ :=
    .step (l := .establish (.v4 (ipv4 10 0 0 1) 1001))
      (.step (l := .close (.v4 (ipv4 10 0 0 1) 1001))
        (.step (l := .reserve (.v4 (ipv4 10 0 0 2)) 7)
          (.step (l := .reserve (.v4 (ipv4 10 0 0 1)) 5) (.init rfl) rfl) rfl) rfl) rfl
  exact ⟨_, h, by decide +kernel, bounds_of_reach (by decide) h⟩

end SynGuard

end Synclaire
