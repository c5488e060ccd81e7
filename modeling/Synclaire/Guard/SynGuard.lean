import Mathlib.Data.Finset.Basic
import Synclaire.Lib.FMap
import Synclaire.Guard.Basic

set_option relaxedAutoImplicit false
set_option autoImplicit false

/-!
# The half-open guard

`SynGuard` limits the connections that are reserved but not yet established, in total and for
each peer address. It tracks a bounded number of addresses and evicts the one tracked longest
when the bound is reached. A socket address is remembered as established from `establish`
until its `close`.

## Main definitions

* `Synclaire.HalfOpenState` — the counters behind the lock.
* `Synclaire.SynGuard.evictOldestTrackedIp`, `Synclaire.SynGuard.maybeCompactIpOrder` — the
  upkeep of the queue of tracked addresses.
* `Synclaire.SynGuard.reserve`, `Synclaire.SynGuard.establish`, `Synclaire.SynGuard.close` —
  the three operations; `Synclaire.SynGuard.settleOne` is the decrement the last two share.

## Main results

* `Synclaire.SynGuard.reserve_isOk_iff` — when a reservation is granted.
* `Synclaire.SynGuard.reserve_ok_eq`, `Synclaire.SynGuard.reserve_error` — what it does.
* `Synclaire.SynGuard.evictLoop_split` — an eviction removes the first tracked address of the
  queue, or there is none.

## Implementation notes

The counters are natural numbers: each counts open connections, so `usize` is not exceeded.
The queue `ipOrder` may hold addresses that are no longer tracked, and an address twice.
-/

namespace Synclaire

/-- `SynGuardConfig`. -/
structure SynGuardConfig where
  maxHalfOpenPerIp : ℕ := 32
  maxHalfOpenGlobal : ℕ := 512
  synTimeout : Duration := .fromSecs 5
  maxTrackedIps : ℕ := 100000
  deriving DecidableEq

/-- `HalfOpenState`. -/
structure HalfOpenState where
  total : ℕ := 0
  perIp : FMap IpAddr ℕ := ∅
  ipOrder : List IpAddr := []
  startedAt : FMap IpAddr Instant := ∅
  established : Finset SocketAddr := ∅
  deriving DecidableEq

/-- `SynGuard`. -/
structure SynGuard where
  config : SynGuardConfig
  state : HalfOpenState
  deriving DecidableEq

namespace SynGuard

/-- `SynGuard::new`. -/
def new (config : SynGuardConfig) : SynGuard := ⟨config, {}⟩

/-! ## The queue of tracked addresses -/

/-- The loop of `evict_oldest_tracked_ip` over the queue `ipOrder`: addresses that are no
longer tracked are dropped, and the first tracked one leaves with its count. -/
def evictLoop : List IpAddr → HalfOpenState → HalfOpenState
  | [], state => { state with ipOrder := [] }
  | oldIp :: rest, state =>
    match state.perIp.lookup oldIp with
    | some oldCount =>
      { state with
        total := state.total - oldCount
        perIp := state.perIp.erase oldIp
        startedAt := state.startedAt.erase oldIp
        ipOrder := rest }
    | none => evictLoop rest state

/-- `SynGuard::evict_oldest_tracked_ip`. -/
def evictOldestTrackedIp (state : HalfOpenState) : HalfOpenState :=
  evictLoop state.ipOrder state

/-- The loop of `maybe_compact_ip_order`: it keeps the first occurrence of each tracked
address. -/
def compactLoop (perIp : FMap IpAddr ℕ) : List IpAddr → Finset IpAddr → List IpAddr
  | [], _ => []
  | ip :: rest, seen =>
    if ip ∈ perIp ∧ ip ∉ seen then ip :: compactLoop perIp rest (insert ip seen)
    else compactLoop perIp rest seen

/-- `SynGuard::maybe_compact_ip_order`. -/
def maybeCompactIpOrder (config : SynGuardConfig) (state : HalfOpenState) : HalfOpenState :=
  let threshold := max (saturatingMul config.maxTrackedIps 4) 16
  if state.ipOrder.length ≤ threshold then state
  else { state with ipOrder := compactLoop state.perIp state.ipOrder ∅ }

/-! ## The operations -/

/-- The last part of `reserve`: the reservation is counted. -/
def track (config : SynGuardConfig) (isNewIp : Bool) (nextIp : ℕ) (ip : IpAddr) (now : Instant)
    (state : HalfOpenState) : HalfOpenState :=
  maybeCompactIpOrder config
    { state with
      total := state.total + 1
      ipOrder := if isNewIp then state.ipOrder ++ [ip] else state.ipOrder
      perIp := state.perIp.insert ip nextIp
      startedAt :=
        if ip ∈ state.startedAt then state.startedAt else state.startedAt.insert ip now }

/-- `SynGuard::reserve`. -/
def reserve (config : SynGuardConfig) (state : HalfOpenState) (ip : IpAddr) (now : Instant) :
    Except SynError Unit × HalfOpenState :=
  let nextTotal := state.total + 1
  let nextIp := (state.perIp.lookup ip).getD 0 + 1
  if config.maxHalfOpenGlobal < nextTotal then
    (.error (.throttled "half-open global".toList config.maxHalfOpenGlobal), state)
  else if config.maxHalfOpenPerIp < nextIp then
    (.error (.throttled "half-open per-ip".toList config.maxHalfOpenPerIp), state)
  else
    let isNewIp := decide (ip ∉ state.perIp)
    let evicted :=
      if isNewIp ∧ config.maxTrackedIps ≤ state.perIp.keys.card then evictOldestTrackedIp state
      else state
    (.ok (), track config isNewIp nextIp ip now evicted)

/-- The decrement that `establish` and `close` share: `total` goes down whenever it can, the
count of the address only if the address is tracked. -/
def settleOne (config : SynGuardConfig) (state : HalfOpenState) (ip : IpAddr) : HalfOpenState :=
  let state := { state with total := state.total - 1 }
  match state.perIp.lookup ip with
  | some count =>
    if 1 < count then { state with perIp := state.perIp.insert ip (count - 1) }
    else
      maybeCompactIpOrder config
        { state with perIp := state.perIp.erase ip, startedAt := state.startedAt.erase ip }
  | none => state

/-- `SynGuard::establish`. -/
def establish (config : SynGuardConfig) (state : HalfOpenState) (addr : SocketAddr) :
    HalfOpenState :=
  let state := settleOne config state addr.ip
  { state with established := insert addr state.established }

/-- `SynGuard::close`. -/
def close (config : SynGuardConfig) (state : HalfOpenState) (addr : SocketAddr) :
    HalfOpenState :=
  if addr ∈ state.established then { state with established := state.established.erase addr }
  else settleOne config state addr.ip

/-- `SynGuard::on_activity`. -/
def onActivity (g : SynGuard) (ctx : GuardContext) (now : Instant) : Except SynError Unit :=
  match g.state.startedAt.lookup ctx.peerIp with
  | some startedAt =>
    if g.config.synTimeout.nanos < now.durationSince startedAt then
      .error (.timeout g.config.synTimeout "waiting for a connection to settle".toList)
    else .ok ()
  | none => .ok ()

end SynGuard

instance : Guard SynGuard where
  name _ := "syn_guard".toList
  onReserve g ctx now :=
    let r := SynGuard.reserve g.config g.state ctx.peerIp now
    (r.1, { g with state := r.2 })
  onEstablished g ctx _ :=
    (.ok (), { g with state := SynGuard.establish g.config g.state ctx.peerAddr })
  onActivity g ctx now := (g.onActivity ctx now, g)
  onClose g ctx _ := { g with state := SynGuard.close g.config g.state ctx.peerAddr }

namespace SynGuard

/-! ## The counters after each operation -/

/-- The half-open count of an address; an untracked address counts none. -/
def countOf (state : HalfOpenState) (ip : IpAddr) : ℕ := (state.perIp.lookup ip).getD 0

section Compact

variable (config : SynGuardConfig) (state : HalfOpenState)

/-- Compacting the order of the addresses keeps the total. -/
@[simp] theorem maybeCompactIpOrder_total :
    (maybeCompactIpOrder config state).total = state.total := by
  unfold maybeCompactIpOrder
  dsimp only
  split_ifs <;> rfl

/-- Compacting the order of the addresses keeps the entries. -/
@[simp] theorem maybeCompactIpOrder_perIp :
    (maybeCompactIpOrder config state).perIp = state.perIp := by
  unfold maybeCompactIpOrder
  dsimp only
  split_ifs <;> rfl

/-- Compacting the order of the addresses keeps the established peers. -/
@[simp] theorem maybeCompactIpOrder_established :
    (maybeCompactIpOrder config state).established = state.established := by
  unfold maybeCompactIpOrder
  dsimp only
  split_ifs <;> rfl

end Compact

section Settle

variable (config : SynGuardConfig) (state : HalfOpenState) (ip : IpAddr)

/-- Settling one attempt takes it from the total, which saturates at zero. -/
@[simp] theorem settleOne_total : (settleOne config state ip).total = state.total - 1 := by
  unfold settleOne
  simp only
  split
  · split_ifs <;> simp
  · rfl

/-- Settling one attempt keeps the established peers. -/
@[simp] theorem settleOne_established :
    (settleOne config state ip).established = state.established := by
  unfold settleOne
  simp only
  split
  · split_ifs <;> simp
  · rfl

/-- The decrement takes one from the count of its address, and drops the entry at zero. -/
theorem settleOne_lookup (a : IpAddr) :
    (settleOne config state ip).perIp.lookup a =
      if a = ip ∧ countOf state ip ≤ 1 then none
      else if a = ip then some (countOf state ip - 1) else state.perIp.lookup a := by
  unfold settleOne countOf
  cases hl : state.perIp.lookup ip with
  | none =>
    by_cases ha : a = ip
    · subst ha
      simp [hl]
    · simp [ha, hl]
  | some count =>
    simp only [hl, Option.getD_some]
    by_cases hc : 1 < count
    · rw [if_pos hc, FMap.lookup_insert_eq_ite]
      have hc' : ¬count ≤ 1 := by omega
      simp [hc']
    · rw [if_neg hc, maybeCompactIpOrder_perIp, FMap.lookup_erase_eq_ite]
      have hc' : count ≤ 1 := by omega
      by_cases ha : a = ip <;> simp [ha, hc']

/-- The decrement takes one from the sum of the counts if its address is tracked.

**Proof sketch.** A tracked address loses one from its count, or its entry when the count is
at most one. -/
theorem settleOne_sum :
    (settleOne config state ip).perIp.sum + min 1 (countOf state ip) = state.perIp.sum := by
  unfold settleOne countOf
  cases hl : state.perIp.lookup ip with
  | none => simp [hl]
  | some count =>
    simp only [hl, Option.getD_some]
    by_cases hc : 1 < count
    · have hsum := FMap.sum_insert state.perIp ip (count - 1)
      rw [hl, Option.getD_some] at hsum
      rw [if_pos hc]
      simp only
      omega
    · have hsum := FMap.sum_erase state.perIp ip
      rw [hl, Option.getD_some] at hsum
      rw [if_neg hc, maybeCompactIpOrder_perIp]
      simp only
      omega

end Settle

/-! ## Eviction -/

/-- **What the eviction loop does**: it empties a queue without tracked addresses, and otherwise
the first tracked one leaves with all entries up to it.

**Proof sketch.** Induction on the queue: an untracked head joins the entries that are dropped. -/
theorem evictLoop_split (order : List IpAddr) (state : HalfOpenState) :
    ((∀ ip ∈ order, ip ∉ state.perIp) ∧ evictLoop order state = { state with ipOrder := [] }) ∨
      ∃ pre ip rest count, order = pre ++ ip :: rest ∧ (∀ a ∈ pre, a ∉ state.perIp) ∧
        state.perIp.lookup ip = some count ∧
        evictLoop order state =
          { state with
            total := state.total - count
            perIp := state.perIp.erase ip
            startedAt := state.startedAt.erase ip
            ipOrder := rest } := by
  induction order with
  | nil => exact .inl ⟨fun ip hip => absurd hip List.not_mem_nil, rfl⟩
  | cons a rest ih =>
    unfold evictLoop
    cases hl : state.perIp.lookup a with
    | none =>
      have ha : a ∉ state.perIp := Finmap.lookup_eq_none.mp hl
      rcases ih with ⟨hnone, heq⟩ | ⟨pre, ip, post, count, rfl, hpre, hip, heq⟩
      · exact .inl ⟨List.forall_mem_cons.mpr ⟨ha, hnone⟩, heq⟩
      · exact .inr ⟨a :: pre, ip, post, count, rfl, List.forall_mem_cons.mpr ⟨ha, hpre⟩, hip,
          heq⟩
    | some count => exact .inr ⟨[], a, rest, count, rfl, by simp, hl, rfl⟩

/-- **Eviction**: one tracked address leaves with its count and its starting time, or the
counters stay as they are. -/
theorem evictLoop_cases (order : List IpAddr) (state : HalfOpenState) :
    (∃ rest, evictLoop order state = { state with ipOrder := rest }) ∨
      ∃ ip count rest, state.perIp.lookup ip = some count ∧
        evictLoop order state =
          { state with
            total := state.total - count
            perIp := state.perIp.erase ip
            startedAt := state.startedAt.erase ip
            ipOrder := rest } := by
  rcases evictLoop_split order state with ⟨-, heq⟩ | ⟨_, ip, rest, count, -, -, hl, heq⟩
  · exact .inl ⟨[], heq⟩
  · exact .inr ⟨ip, count, rest, hl, heq⟩

/-- Eviction keeps the remembered established addresses. -/
@[simp] theorem evictOldestTrackedIp_established (state : HalfOpenState) :
    (evictOldestTrackedIp state).established = state.established := by
  rcases evictLoop_cases state.ipOrder state with ⟨rest, h⟩ | ⟨ip, count, rest, -, h⟩ <;>
    rw [evictOldestTrackedIp, h]

/-- Eviction keeps `total` equal to the sum of the counts. -/
theorem evictOldestTrackedIp_total_eq_sum {state : HalfOpenState}
    (h : state.total = state.perIp.sum) :
    (evictOldestTrackedIp state).total = (evictOldestTrackedIp state).perIp.sum := by
  rcases evictLoop_cases state.ipOrder state with ⟨rest, he⟩ | ⟨ip, count, rest, hl, he⟩
  · rw [evictOldestTrackedIp, he]
    exact h
  · have hsum := FMap.sum_erase state.perIp ip
    rw [hl, Option.getD_some] at hsum
    rw [evictOldestTrackedIp, he]
    simp only
    omega

/-- Eviction never tracks a new address. -/
theorem evictOldestTrackedIp_lookup_eq_none {state : HalfOpenState} {ip : IpAddr}
    (h : state.perIp.lookup ip = none) :
    (evictOldestTrackedIp state).perIp.lookup ip = none := by
  rcases evictLoop_cases state.ipOrder state with ⟨rest, he⟩ | ⟨ip', count, rest, hl, he⟩
  · rw [evictOldestTrackedIp, he]
    exact h
  · rw [evictOldestTrackedIp, he, FMap.lookup_erase_eq_ite, h, ite_self]

/-! ## Reserving -/

section Reserve

variable {config : SynGuardConfig} {state : HalfOpenState} {ip : IpAddr} {now : Instant}

/-- A reservation is granted iff both counters are below their limits. -/
theorem reserve_isOk_iff :
    (reserve config state ip now).1 = .ok () ↔
      state.total < config.maxHalfOpenGlobal ∧ countOf state ip < config.maxHalfOpenPerIp := by
  unfold reserve countOf
  dsimp only
  by_cases hglobal : config.maxHalfOpenGlobal < state.total + 1
  · simp only [if_pos hglobal, reduceCtorEq, false_iff]
    omega
  · by_cases hip : config.maxHalfOpenPerIp < (state.perIp.lookup ip).getD 0 + 1
    · simp only [if_neg hglobal, if_pos hip, reduceCtorEq, false_iff]
      omega
    · simp only [if_neg hglobal, if_neg hip, true_iff]
      omega

/-- A refused reservation changes nothing. -/
theorem reserve_error {e : SynError} (h : (reserve config state ip now).1 = .error e) :
    (reserve config state ip now).2 = state := by
  unfold reserve at *
  dsimp only at *
  split_ifs at h ⊢ <;> simp_all

/-- A granted reservation evicts exactly if its address is new and the map is full. -/
theorem reserve_ok_eq (h : (reserve config state ip now).1 = .ok ()) :
    (reserve config state ip now).2 =
      track config (decide (ip ∉ state.perIp)) (countOf state ip + 1) ip now
        (if ip ∉ state.perIp ∧ config.maxTrackedIps ≤ state.perIp.keys.card then
          evictOldestTrackedIp state
        else state) := by
  have hcap := reserve_isOk_iff.mp h
  unfold countOf at hcap
  unfold reserve countOf
  dsimp only
  rw [if_neg (by omega), if_neg (by omega)]
  simp only [decide_eq_true_eq]

/-- A granted reservation, possibly after an eviction. -/
theorem reserve_ok (h : (reserve config state ip now).1 = .ok ()) :
    ∃ evicted, (evicted = state ∨
        ip ∉ state.perIp ∧ config.maxTrackedIps ≤ state.perIp.keys.card ∧
          evicted = evictOldestTrackedIp state) ∧
      (reserve config state ip now).2 =
        track config (decide (ip ∉ state.perIp)) (countOf state ip + 1) ip now evicted := by
  rw [reserve_ok_eq h]
  split_ifs with hfull
  · exact ⟨_, .inr ⟨hfull.1, hfull.2, rfl⟩, rfl⟩
  · exact ⟨_, .inl rfl, rfl⟩

/-- A tracked attempt is added to the total. -/
@[simp] theorem track_total (isNewIp : Bool) (nextIp : ℕ) :
    (track config isNewIp nextIp ip now state).total = state.total + 1 := by
  simp [track]

/-- A tracked attempt sets the entry of its address. -/
@[simp] theorem track_perIp (isNewIp : Bool) (nextIp : ℕ) :
    (track config isNewIp nextIp ip now state).perIp = state.perIp.insert ip nextIp := by
  simp [track]

/-- A tracked attempt keeps the established peers. -/
@[simp] theorem track_established (isNewIp : Bool) (nextIp : ℕ) :
    (track config isNewIp nextIp ip now state).established = state.established := by
  simp [track]

/-- Reserving keeps the remembered established addresses. -/
theorem reserve_established : (reserve config state ip now).2.established = state.established := by
  cases h : (reserve config state ip now).1 with
  | error e => rw [reserve_error h]
  | ok _ =>
    obtain ⟨evicted, hev, heq⟩ := reserve_ok h
    rw [heq, track_established]
    rcases hev with rfl | ⟨-, -, rfl⟩
    · rfl
    · exact evictOldestTrackedIp_established state

end Reserve

end SynGuard

end Synclaire
