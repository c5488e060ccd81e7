import Synclaire.Lib.Residue
import Synclaire.Lib.Table
import Synclaire.LoadBalancer.Representation

set_option relaxedAutoImplicit false
set_option autoImplicit false

/-!
# Round robin under concurrency

Any number of threads call `select` on a pool. Each call holds the read lock while it takes a value
of the counter with one atomic `fetch_add` and looks up the backend at its position; the calls
interleave, and while they do the list of backends cannot change. The state keeps one row for each
call.

## Main definitions

* `Synclaire.SelectPhase` — how far a call of `select` has come, and
  `Synclaire.SelectPhase.advance` its next atomic step.
* `Synclaire.SharedPool`, `Synclaire.SharedPool.system` — a pool and the calls made of it.
* `Synclaire.SharedPool.taken`, `Synclaire.SharedPool.chosenAt` — the calls that took a value of
  the counter, and those for which a position was chosen.

## Main results

* `Synclaire.SharedPool.advance_select` — a call that nobody interrupts does what
  `BackendPool.select` does.
* `Synclaire.SharedPool.roundRobin_fair` — the positions are chosen equally often up to one.

## Implementation notes

A thread is in one call at a time, so the calls in progress stand for the threads.
-/

namespace Synclaire

/-! ## The calls -/

/-- How far a call of `select` has come. -/
inductive SelectPhase
  /-- The pool is locked for reading. -/
  | reading
  /-- `fetch_add` returned this value. -/
  | fetched (counter : UInt64)
  /-- `select` returned, with the value of the counter if it took one. -/
  | returned (counter : Option UInt64) (result : Except Panic (Option SocketAddr))
  deriving DecidableEq

namespace SelectPhase

/-- The next atomic step of a call. -/
def advance (p : BackendPool) (peer : SocketAddr) : SelectPhase → Option (SelectPhase × BackendPool)
  | reading =>
    if p.inner.backends = [] then some (returned none (.ok none), p)
    else
      match p.inner.strategy with
      | .roundRobin => some (fetched p.rrCounter, { p with rrCounter := p.rrCounter + 1 })
      | .consistentHash _ _ => some (returned none (p.select peer).1, p)
  | fetched counter => some (returned (some counter) (p.addrAt (counter.toNat % p.len)), p)
  | returned _ _ => none

/-- The value of the counter that the call took. -/
def counter : SelectPhase → Option UInt64
  | reading => none
  | fetched counter => some counter
  | returned counter _ => counter

end SelectPhase

/-- A call of `select`. -/
structure SelectCall where
  peer : SocketAddr
  phase : SelectPhase
  deriving DecidableEq

/-- A pool and the calls of `select` made of it. -/
structure SharedPool where
  pool : BackendPool
  calls : List SelectCall
  deriving DecidableEq

/-- What the threads do. -/
inductive SelectAction
  /-- A thread calls `select`. -/
  | call (peer : SocketAddr)
  /-- Call number `k` goes on. -/
  | advance (k : ℕ)
  deriving DecidableEq

namespace SharedPool

/-- One step of one thread. -/
def next (s : SharedPool) : SelectAction → Option SharedPool
  | .call peer => some { s with calls := s.calls ++ [⟨peer, .reading⟩] }
  | .advance k => do
    let call ← s.calls[k]?
    let (phase, pool) ← call.phase.advance s.pool call.peer
    return { pool := pool, calls := s.calls.set k { call with phase := phase } }

/-- The runs in which threads call `select` on the pool `p`. -/
def system (p : BackendPool) : Transition.System SharedPool SelectAction :=
  .ofFn ⟨p, []⟩ next

/-- The number of calls that took a value of the counter. -/
def taken (s : SharedPool) : ℕ := s.calls.countP fun c => c.phase.counter.isSome

/-- The number of calls for which the backend at position `i` was chosen. -/
def chosenAt (s : SharedPool) (i : ℕ) : ℕ :=
  s.calls.countP fun c => c.phase.counter.any fun counter => counter.toNat % s.pool.len = i

/-! ## One call -/

/-- A call that nobody interrupts does what `select` does. -/
theorem advance_select (p : BackendPool) (peer : SocketAddr) :
    ∃ counter, SelectPhase.reading.advance p peer =
        some (.returned counter (p.select peer).1, (p.select peer).2) ∨
      ∃ counter' p', SelectPhase.reading.advance p peer = some (.fetched counter', p') ∧
        (SelectPhase.fetched counter').advance p' peer =
          some (.returned counter (p.select peer).1, (p.select peer).2) := by
  by_cases hempty : p.inner.backends = []
  · have hselect : p.select peer = (.ok none, p) := if_pos hempty
    exact ⟨none, .inl (by rw [hselect]; exact if_pos hempty)⟩
  · cases hstrategy : p.inner.strategy with
    | roundRobin =>
      have hselect : p.select peer =
          (p.addrAt (p.rrCounter.toNat % p.len), { p with rrCounter := p.rrCounter + 1 }) := by
        rw [BackendPool.select, if_neg hempty, hstrategy]
      refine ⟨some p.rrCounter, .inr ⟨p.rrCounter, { p with rrCounter := p.rrCounter + 1 }, ?_, ?_⟩⟩
      · rw [SelectPhase.advance, if_neg hempty, hstrategy]
      · rw [hselect]
        rfl
    | consistentHash replicas sticky =>
      have hpool : (p.select peer).2 = p := by
        rw [BackendPool.select, if_neg hempty, hstrategy]
        dsimp only
        split_ifs <;> rfl
      refine ⟨none, .inl ?_⟩
      rw [hpool, SelectPhase.advance, if_neg hempty, hstrategy]

/-! ## Every run -/

variable {p : BackendPool} {s : SharedPool}

/-- The calls made of a round-robin pool since its counter was that of `p`: the counter has moved
by their number, each position was chosen by the values that are its own, and what was returned is
the backend at the position. -/
structure Even (s : SharedPool) (p : BackendPool) : Prop where
  inner : s.pool.inner = p.inner
  counter : s.pool.rrCounter = p.rrCounter + .ofNat s.taken
  turns : p.rrCounter.toNat + s.taken ≤ 2 ^ 64 → ∀ i,
    Nat.count (fun k => k % p.len = i) p.rrCounter.toNat + s.chosenAt i =
      Nat.count (fun k => k % p.len = i) (p.rrCounter.toNat + s.taken)
  results : ∀ call ∈ s.calls, ∀ counter result, call.phase = .returned counter result →
    ∃ c b, counter = some c ∧ p.inner.backends[c.toNat % p.len]? = some b ∧
      result = .ok (some b.addr)

/-- The length of the pool is that of its backends. -/
theorem Even.len (h : s.Even p) : s.pool.len = p.len := by
  unfold BackendPool.len
  rw [h.inner]

/-- What going on with a call does to a round-robin pool with backends: it takes a value of the
counter, or returns the backend at the position of the value it took. -/
theorem advance_cases {s' : SharedPool} {k : ℕ} (hstrategy : s.pool.inner.strategy = .roundRobin)
    (hne : s.pool.inner.backends ≠ []) (hstep : s.next (.advance k) = some s') :
    ∃ peer, (s.calls[k]? = some ⟨peer, .reading⟩ ∧
        s' = ⟨{ s.pool with rrCounter := s.pool.rrCounter + 1 },
          s.calls.set k ⟨peer, .fetched s.pool.rrCounter⟩⟩) ∨
      ∃ counter, s.calls[k]? = some ⟨peer, .fetched counter⟩ ∧
        s' = ⟨s.pool, s.calls.set k ⟨peer, .returned (some counter)
          (s.pool.addrAt (counter.toNat % s.pool.len))⟩⟩ := by
  obtain ⟨⟨peer, phase⟩, hk, hstep⟩ := Option.bind_eq_some_iff.mp hstep
  obtain ⟨⟨phase', pool⟩, hadvance, hstep⟩ := Option.bind_eq_some_iff.mp hstep
  obtain rfl := Option.some.inj hstep
  refine ⟨peer, ?_⟩
  cases phase with
  | reading =>
    dsimp only at hadvance
    rw [SelectPhase.advance, if_neg hne, hstrategy] at hadvance
    obtain ⟨rfl, rfl⟩ := Prod.mk.inj (Option.some.inj hadvance)
    exact .inl ⟨hk, rfl⟩
  | fetched counter =>
    obtain ⟨rfl, rfl⟩ := Prod.mk.inj (Option.some.inj hadvance)
    exact .inr ⟨counter, hk, rfl⟩
  | returned counter result => cases hadvance

/-- Calls that took as many values, and the same ones, are as even. -/
theorem Even.of_calls (h : s.Even p) {calls : List SelectCall}
    (htaken : SharedPool.taken ⟨s.pool, calls⟩ = s.taken)
    (hchosen : ∀ i, SharedPool.chosenAt ⟨s.pool, calls⟩ i = s.chosenAt i)
    (hresults : ∀ call ∈ calls, ∀ counter result, call.phase = .returned counter result →
      ∃ c b, counter = some c ∧ p.inner.backends[c.toNat % p.len]? = some b ∧
        result = .ok (some b.addr)) :
    SharedPool.Even ⟨s.pool, calls⟩ p where
  inner := h.inner
  counter := by rw [htaken]; exact h.counter
  turns := by
    rw [htaken]
    intro hwrap i
    rw [hchosen]
    exact h.turns hwrap i
  results := hresults

/-- A call that takes the next value of the counter keeps the turns even. -/
theorem Even.of_fetch (h : s.Even p) {k : ℕ} {peer : SocketAddr}
    (hk : s.calls[k]? = some ⟨peer, .reading⟩) :
    SharedPool.Even ⟨{ s.pool with rrCounter := s.pool.rrCounter + 1 },
      s.calls.set k ⟨peer, .fetched s.pool.rrCounter⟩⟩ p := by
  have htaken : SharedPool.taken ⟨{ s.pool with rrCounter := s.pool.rrCounter + 1 },
      s.calls.set k ⟨peer, .fetched s.pool.rrCounter⟩⟩ = s.taken + 1 :=
    Table.countP_set (fun c : SelectCall => c.phase.counter.isSome) hk
      ⟨peer, .fetched s.pool.rrCounter⟩
  have hchosen : ∀ i, SharedPool.chosenAt ⟨{ s.pool with rrCounter := s.pool.rrCounter + 1 },
      s.calls.set k ⟨peer, .fetched s.pool.rrCounter⟩⟩ i =
        s.chosenAt i + if s.pool.rrCounter.toNat % p.len = i then 1 else 0 := by
    intro i
    rw [← Table.toNat_decide, ← h.len]
    exact Table.countP_set (fun c : SelectCall =>
      c.phase.counter.any fun counter => counter.toNat % s.pool.len = i) hk
        ⟨peer, .fetched s.pool.rrCounter⟩
  refine ⟨h.inner, ?_, ?_, ?_⟩
  · rw [htaken, UInt64.ofNat_add, ← UInt64.add_assoc, ← h.counter]
    rfl
  · rw [htaken]
    intro hwrap i
    have hcounter : s.pool.rrCounter.toNat = p.rrCounter.toNat + s.taken := by
      rw [h.counter, UInt64.toNat_add, UInt64.toNat_ofNat']
      omega
    rw [hchosen, hcounter, ← Nat.add_assoc, ← Nat.add_assoc p.rrCounter.toNat, Nat.count_succ,
      ← h.turns (by omega) i]
  · intro call hcall counter result hphase
    rcases List.mem_or_eq_of_mem_set hcall with hcall | rfl
    · exact h.results call hcall counter result hphase
    · cases hphase

/-- **Each step keeps the turns even.** -/
theorem Even.next {s' : SharedPool} {a : SelectAction} (h : s.Even p)
    (hstrategy : p.inner.strategy = .roundRobin) (hne : p.inner.backends ≠ [])
    (hstep : s.next a = some s') : s'.Even p := by
  cases a with
  | call peer =>
    obtain rfl := Option.some.inj hstep
    refine h.of_calls ?_ (fun i => ?_) ?_
    · exact Table.countP_append_singleton _ _ _
    · exact Table.countP_append_singleton _ _ _
    · intro call hcall counter result hphase
      rcases List.mem_append.mp hcall with hcall | hcall
      · exact h.results call hcall counter result hphase
      · obtain rfl := List.mem_singleton.mp hcall
        cases hphase
  | advance k =>
    obtain ⟨peer, ⟨hk, rfl⟩ | ⟨counter, hk, rfl⟩⟩ :=
      advance_cases (h.inner ▸ hstrategy) (h.inner ▸ hne) hstep
    · exact h.of_fetch hk
    · refine h.of_calls ?_ (fun i => ?_) ?_
      · exact Table.countP_set_of_eq _ hk rfl
      · exact Table.countP_set_of_eq _ hk rfl
      · intro call hcall counter' result hphase
        rcases List.mem_or_eq_of_mem_set hcall with hcall | rfl
        · exact h.results call hcall counter' result hphase
        · obtain ⟨rfl, rfl⟩ := SelectPhase.returned.inj hphase
          have hlt : counter.toNat % s.pool.len < s.pool.inner.backends.length :=
            Nat.mod_lt _ (List.length_pos_iff.mpr (h.inner ▸ hne))
          obtain ⟨b, hb, haddr⟩ := BackendPool.addrAt_of_lt hlt
          rw [h.len, h.inner] at hb
          exact ⟨counter, b, rfl, hb, haddr⟩

/-- The turns are even in every run. -/
theorem even_of_reach (hstrategy : p.inner.strategy = .roundRobin) (hne : p.inner.backends ≠ [])
    (h : (system p).Reach s) : s.Even p := by
  refine h.invariant (I := fun s => s.Even p) (fun s hs => ?_) fun s a s' _ ih hstep =>
    ih.next hstrategy hne hstep
  obtain rfl : s = ⟨p, []⟩ := hs
  exact ⟨rfl, (UInt64.add_zero _).symm, fun _ _ => rfl, fun call hcall => nomatch hcall⟩

/-- **Round robin is fair.** In every run of any number of threads that call `select` on a
round-robin pool with backends, from any value of the counter, each call that returned has returned
the backend at a position of the list. As long as the counter has not wrapped, the positions that
were chosen for the calls so far differ by one at most in how often, and each was chosen equally
often when the number of these calls is a multiple of the number of backends.

**Proof sketch.** The calls took the values of the counter one after the other (`even_of_reach`),
and the call that took `k` chose position `k % n`. -/
theorem roundRobin_fair (hstrategy : p.inner.strategy = .roundRobin) (hne : p.inner.backends ≠ [])
    (h : (system p).Reach s) :
    (∀ call ∈ s.calls, ∀ counter result, call.phase = .returned counter result →
      ∃ c b, counter = some c ∧ p.inner.backends[c.toNat % p.len]? = some b ∧
        result = .ok (some b.addr)) ∧
    (p.rrCounter.toNat + s.taken ≤ 2 ^ 64 →
      (∀ i < p.len, ∀ j < p.len, s.chosenAt i ≤ s.chosenAt j + 1) ∧
      (p.len ∣ s.taken → ∀ i < p.len, s.chosenAt i = s.taken / p.len)) := by
  have heven := even_of_reach hstrategy hne h
  refine ⟨heven.results, fun hwrap => ⟨fun i hi j hj => ?_, fun hdvd i hi => ?_⟩⟩
  · have hturni := heven.turns hwrap i
    have hturnj := heven.turns hwrap j
    have hle := Residue.count_add_le hi hj p.rrCounter.toNat (p.rrCounter.toNat + s.taken)
    omega
  · have hturn := heven.turns hwrap i
    have hrounds := Residue.count_add_mul hi p.rrCounter.toNat (s.taken / p.len)
    rw [Nat.mul_div_cancel' hdvd] at hrounds
    omega

/-- Two backends, and a counter that is about to wrap. -/
def lastTurns : BackendPool :=
  { BackendPool.roundRobin [BackendPool.localBackend 8001, BackendPool.localBackend 8002] with
    rrCounter := 18446744073709551614 }

/-- Two threads whose calls interleave. -/
def interleaved : SharedPool :=
  Transition.System.after next ⟨lastTurns, []⟩
    [.call (.v4 1 1001), .call (.v4 2 1002), .advance 1, .advance 0, .advance 0, .advance 1]

/-- The first backend is chosen once for two calls. -/
theorem roundRobin_fair_interleaved : interleaved.chosenAt 0 = interleaved.taken / 2 :=
  have hreach : (system lastTurns).Reach interleaved :=
    Transition.System.reach_after (.init rfl) fun _ _ _ _ h => h
  ((roundRobin_fair rfl (by decide) hreach).2 (by decide +kernel)).2 (by decide +kernel) 0
    (by decide)

end SharedPool

end Synclaire
