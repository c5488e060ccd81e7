import Synclaire.Lib.Residue
import Synclaire.Lib.Table
import Synclaire.Proxy.AcceptLoop

set_option relaxedAutoImplicit false
set_option autoImplicit false

/-!
# How a round-robin proxy spreads its connections

The loop selects a backend before it asks the guards, so that connections which the table rejects
cost the guards nothing. A connection that a guard refuses has had its turn all the same: the
turns are spread evenly over the backends, and the connections that are forwarded need not be.

## Main definitions

* `Synclaire.ProxyIntake.forwardedTo`, `Synclaire.ProxyIntake.refusedAt` — connections by the turn
  they had.
* `Synclaire.spreadSystem` — the runs in which nothing else uses a pool.

## Main results

* `Synclaire.ProxyIntake.selectedAt_le` — the turns of two backends differ by one at most.
* `Synclaire.ProxyIntake.not_forall_forwardedTo_le` — the forwarded connections may all go to one.
-/

namespace Synclaire

/-- The turn of the connection in hand, once a pool has selected its backend. -/
def AcceptPhase.turn : AcceptPhase → Option (ℕ × ℕ)
  | .reserving _ choice => choice.turn
  | .establishing _ choice => choice.turn
  | _ => none

namespace ProxyIntake

/-- The number of connections, dealt with or in hand, whose turn satisfies `q`. -/
def turns (q : ℕ × ℕ → Bool) (s : ProxyIntake) : ℕ :=
  (s.dealt.countP fun d => d.choice.turn.any q) + (s.phase.turn.any q).toNat

/-- The number of selections a pool made. -/
def selections (s : ProxyIntake) (pool : ℕ) : ℕ := s.turns fun turn => turn.1 = pool

/-- The number of selections of the backend at position `i` of a pool. -/
def selectedAt (s : ProxyIntake) (pool i : ℕ) : ℕ := s.turns fun turn => turn = (pool, i)

/-- The number of connections forwarded to the backend at position `i` of a pool. -/
def forwardedTo (s : ProxyIntake) (pool i : ℕ) : ℕ :=
  s.dealt.countP fun d => d.choice.turn = some (pool, i) ∧ d.forwarded = true

/-- The number of connections that a guard refused when the backend at position `i` of a pool had
been selected for them. -/
def refusedAt (s : ProxyIntake) (pool i : ℕ) : ℕ :=
  s.dealt.countP fun d => d.choice.turn = some (pool, i) ∧ d.forwarded = false

/-- Whether the backend at position `i` of a pool was selected for the connection in hand. -/
def inHandAt (s : ProxyIntake) (pool i : ℕ) : ℕ :=
  if s.phase.turn = some (pool, i) then 1 else 0

end ProxyIntake

/-- The runs of a proxy server that began as `s₀`, in which nothing but its loop uses a pool. -/
def spreadSystem (B : Build) (flavor : ProxyFlavor) (backendPool : Option ℕ) (s₀ : ProxyIntake)
    (pool : ℕ) : Transition.System ProxyIntake AcceptAction where
  init s := s = s₀
  step s a s' := s.next B flavor backendPool a = some s' ∧ ∀ op, a ≠ .changePool pool op

namespace ProxyIntake

variable {B : Build} {flavor : ProxyFlavor} {backendPool : Option ℕ}

/-! ## Turns -/

/-- The backend at a position was selected for the connections forwarded to it, those refused
after that, and the one in hand. -/
theorem selectedAt_eq (s : ProxyIntake) (pool i : ℕ) :
    s.selectedAt pool i = s.forwardedTo pool i + s.refusedAt pool i + s.inHandAt pool i := by
  have hany : ∀ turn : Option (ℕ × ℕ),
      turn.any (fun t => decide (t = (pool, i))) = decide (turn = some (pool, i)) := by
    intro turn
    cases turn <;> simp
  unfold selectedAt turns forwardedTo refusedAt inHandAt
  simp only [hany, Table.countP_eq_tally, Table.toNat_decide, ← Table.tally_add]
  refine congrArg (· + _) (Table.tally_congr fun d _ => ?_)
  cases d.forwarded <;> simp

/-- What a step does to the turns of a round-robin pool: nothing, or it takes the next one. -/
inductive TakesTurn (s : ProxyIntake) (pool : ℕ) (p : BackendPool) (s' : ProxyIntake) : Prop
  | keeps (hpool : s'.pools[pool]? = some p)
      (hturns : ∀ q : ℕ × ℕ → Bool, (∀ turn, q turn = true → turn.1 = pool) →
        s'.turns q = s.turns q)
  | takes (hpool : s'.pools[pool]? = some { p with rrCounter := p.rrCounter + 1 })
      (hturns : ∀ q : ℕ × ℕ → Bool,
        s'.turns q = s.turns q + (q (pool, p.rrCounter.toNat % p.len)).toNat)

/-- A round-robin pool with backends selects the one at its position. -/
theorem select_roundRobin {p : BackendPool} (hstrategy : p.inner.strategy = .roundRobin)
    (hne : p.inner.backends ≠ []) (peer : SocketAddr) :
    ∃ addr, p.select peer = (.ok (some addr), { p with rrCounter := p.rrCounter + 1 }) := by
  have hlt : p.rrCounter.toNat % p.len < p.inner.backends.length :=
    Nat.mod_lt _ (List.length_pos_iff.mpr hne)
  refine ⟨p.inner.backends[p.rrCounter.toNat % p.len].addr, ?_⟩
  unfold BackendPool.select
  simp only [hne, if_false, hstrategy, BackendPool.addrAt, List.getElem?_eq_getElem hlt]

/-- A turn counts once it is in hand, and goes on to count when the connection is dealt with. -/
theorem turns_dealt (q : ℕ × ℕ → Bool) {s s' : ProxyIntake} {peer : SocketAddr}
    {choice : Choice} {forwarded : Bool} (hturn : s.phase.turn = choice.turn)
    (hphase : s'.phase = .idle) (hdealt : s'.dealt = s.dealt ++ [⟨peer, choice, forwarded⟩]) :
    s'.turns q = s.turns q := by
  unfold turns
  rw [hdealt, Table.countP_append_singleton, hphase, hturn]
  rfl

/-- Steps that touch neither the dealt connections nor the turn in hand. -/
theorem turns_congr (q : ℕ × ℕ → Bool) {s s' : ProxyIntake} (hdealt : s'.dealt = s.dealt)
    (hturn : s'.phase.turn = s.phase.turn) : s'.turns q = s.turns q := by
  unfold turns
  rw [hdealt, hturn]

/-- Routing gives no turn. -/
theorem routed_spec (flavor : ProxyFlavor) (backendPool : Option ℕ) (s : ProxyIntake)
    (peer : SocketAddr) :
    (s.routed flavor backendPool peer).pools = s.pools ∧
      (s.routed flavor backendPool peer).dealt = s.dealt ∧
      (s.routed flavor backendPool peer).phase.turn = none := by
  unfold routed
  split
  · split <;> exact ⟨rfl, rfl, rfl⟩
  · split <;> exact ⟨rfl, rfl, rfl⟩

/-- A selection takes a turn of the pool that makes it. -/
theorem takesTurn_selected {s : ProxyIntake} {peer : SocketAddr} {pool pool' : ℕ}
    {p p' : BackendPool} (hphase : s.phase = .selecting peer pool')
    (hpool : s.pools[pool]? = some p) (hpool' : s.pools[pool']? = some p')
    (hstrategy : p.inner.strategy = .roundRobin) :
    s.TakesTurn pool p (s.selected peer pool' p') := by
  have hnone : s.phase.turn = none := by
    rw [hphase]
    rfl
  by_cases hsame : pool' = pool
  · subst hsame
    obtain rfl := Option.some.inj (hpool.symm.trans hpool')
    have hlt := (List.getElem?_eq_some_iff.mp hpool).1
    by_cases hempty : p.inner.backends = []
    · have hselect : p.select peer = (.ok none, p) := if_pos hempty
      unfold selected
      rw [hselect]
      exact .keeps (by simp [hlt]) fun q _ => turns_congr q rfl hnone.symm
    · obtain ⟨addr, hselect⟩ := select_roundRobin hstrategy hempty peer
      unfold selected
      rw [hselect]
      refine .takes (by simp [hlt]) fun q => ?_
      unfold turns
      rw [hnone]
      simp [BackendPool.position, hstrategy, AcceptPhase.turn]
  · -- a turn of another pool is none of this one's
    have hpools : (s.pools.set pool' (p'.select peer).2)[pool]? = some p := by
      rwa [List.getElem?_set_ne hsame]
    unfold selected
    rcases (p'.select peer).1 with panic | _ | addr
    · exact .keeps hpools fun q _ => turns_congr q rfl hnone.symm
    · exact .keeps hpools fun q _ => turns_congr q rfl hnone.symm
    · refine .keeps hpools fun q hq => ?_
      unfold turns
      rw [hnone]
      have hother : ∀ i, q (pool', i) = false := by
        intro i
        rw [← Bool.not_eq_true]
        exact fun h => hsame (hq _ h)
      cases p'.position with
      | none => rfl
      | some i => simp [AcceptPhase.turn, hother]

/-- A step of a run in which nothing else uses the pool. -/
theorem takesTurn_of_next {s s' : ProxyIntake} {a : AcceptAction} {pool : ℕ} {p : BackendPool}
    (hstep : s.next B flavor backendPool a = some s') (hfixed : ∀ op, a ≠ .changePool pool op)
    (hpool : s.pools[pool]? = some p) (hstrategy : p.inner.strategy = .roundRobin) :
    s.TakesTurn pool p s' := by
  cases steps_of_next hstep with
  | changeTable | finishForward => exact .keeps hpool fun q _ => turns_congr q rfl rfl
  | @changePool pool' op p' _ =>
    have hne : pool' ≠ pool := by
      rintro rfl
      exact hfixed op rfl
    refine .keeps ?_ fun q _ => turns_congr q rfl rfl
    rwa [List.getElem?_set_ne hne]
  | newPool =>
    refine .keeps ?_ fun q _ => turns_congr q rfl rfl
    exact Table.getElem?_append_singleton.mpr (.inl hpool)
  | accept hphase | reserve hphase =>
    exact .keeps hpool fun q _ => turns_congr q rfl (by rw [hphase]; rfl)
  | @resolve peer hphase =>
    obtain ⟨hpools, hdealt, hturn⟩ := routed_spec flavor backendPool s peer
    refine .keeps (by rw [hpools]; exact hpool) fun q _ => turns_congr q hdealt ?_
    rw [hturn, hphase]
    rfl
  | select hphase hpool' => exact takesTurn_selected hphase hpool hpool' hstrategy
  | refuseReserve hphase | refuseEstablished hphase | markEstablished hphase =>
    exact .keeps hpool fun q _ => turns_dealt q (by rw [hphase]; rfl) rfl rfl

/-! ## Even turns -/

/-- The turns a round-robin pool of `n` backends has taken since its counter was `c`: the counter
has moved by their number, and each position had the turns that are its own. -/
structure Even (s : ProxyIntake) (pool : ℕ) (p q : BackendPool) : Prop where
  lookup : s.pools[pool]? = some q
  inner : q.inner = p.inner
  counter : q.rrCounter = p.rrCounter + .ofNat (s.selections pool)
  turns : p.rrCounter.toNat + s.selections pool < 2 ^ 64 → ∀ i,
    Nat.count (fun k => k % p.len = i) p.rrCounter.toNat + s.selectedAt pool i =
      Nat.count (fun k => k % p.len = i) (p.rrCounter.toNat + s.selections pool)

/-- The turns stay even. -/
theorem Even.next {s s' : ProxyIntake} {a : AcceptAction} {pool : ℕ} {p q : BackendPool}
    (h : s.Even pool p q) (hstep : s.next B flavor backendPool a = some s')
    (hfixed : ∀ op, a ≠ .changePool pool op) (hstrategy : p.inner.strategy = .roundRobin) :
    ∃ q', s'.Even pool p q' := by
  cases takesTurn_of_next hstep hfixed h.lookup (h.inner ▸ hstrategy) with
  | keeps hpool hturns =>
    have hsel : s'.selections pool = s.selections pool := hturns _ fun turn => of_decide_eq_true
    have hat : ∀ i, s'.selectedAt pool i = s.selectedAt pool i := by
      intro i
      refine hturns _ fun turn hturn => ?_
      rw [of_decide_eq_true hturn]
    refine ⟨q, hpool, h.inner, by rw [hsel]; exact h.counter, ?_⟩
    rw [hsel]
    intro hwrap i
    rw [hat]
    exact h.turns hwrap i
  | takes hpool hturns =>
    have hsel : s'.selections pool = s.selections pool + 1 := by
      refine (hturns _).trans ?_
      simp [selections]
    refine ⟨_, hpool, h.inner, ?_, ?_⟩
    · rw [hsel, UInt64.ofNat_add, ← UInt64.add_assoc, ← h.counter]
      rfl
    · rw [hsel]
      intro hwrap i
      have hlen : q.len = p.len := by
        unfold BackendPool.len
        rw [h.inner]
      have hcounter : q.rrCounter.toNat = p.rrCounter.toNat + s.selections pool := by
        rw [h.counter, UInt64.toNat_add, UInt64.toNat_ofNat']
        omega
      have hat : s'.selectedAt pool i = s.selectedAt pool i +
          if (p.rrCounter.toNat + s.selections pool) % p.len = i then 1 else 0 := by
        refine (hturns _).trans ?_
        rw [hcounter, hlen, Table.toNat_decide]
        simp [selectedAt]
      rw [hat, ← Nat.add_assoc, ← Nat.add_assoc p.rrCounter.toNat, Nat.count_succ,
        ← h.turns (by omega) i]

/-- The turns are even in every state of a run in which nothing else uses the pool. -/
theorem even_of_reach {s₀ s : ProxyIntake} {pool : ℕ} {p : BackendPool} (h₀ : s₀.Begins)
    (hpool : s₀.pools[pool]? = some p) (hstrategy : p.inner.strategy = .roundRobin)
    (h : (spreadSystem B flavor backendPool s₀ pool).Reach s) : ∃ q, s.Even pool p q := by
  refine h.invariant (I := fun s => ∃ q, s.Even pool p q) (fun s hs => ?_)
    (fun s a s' _ ih hstep => ?_)
  · obtain rfl : s = s₀ := hs
    have hturns : ∀ q : ℕ × ℕ → Bool, s.turns q = 0 := by
      intro q
      unfold turns
      rw [h₀.dealt, h₀.phase]
      rfl
    refine ⟨p, hpool, rfl, ?_, fun _ i => ?_⟩
    · rw [selections, hturns]
      exact (UInt64.add_zero _).symm
    · rw [selections, selectedAt, hturns, hturns, Nat.add_zero, Nat.add_zero]
  · obtain ⟨q, hq⟩ := ih
    exact hq.next hstep.1 hstep.2 hstrategy

/-- **The turns of a round-robin pool are spread evenly**: in every run in which nothing but the
loop uses the pool, whatever the guards answer, any two of its backends were selected equally
often up to one, as long as the counter has not wrapped. What was forwarded to them may differ by
the connections that had a turn and were not forwarded.

**Proof sketch.** The counter of the pool has moved by the number of turns (`even_of_reach`), and
the turn with number `k` belongs to position `k % n`. -/
theorem selectedAt_le {s₀ s : ProxyIntake} {pool : ℕ} {p : BackendPool} (h₀ : s₀.Begins)
    (hpool : s₀.pools[pool]? = some p) (hstrategy : p.inner.strategy = .roundRobin)
    (h : (spreadSystem B flavor backendPool s₀ pool).Reach s)
    (hwrap : p.rrCounter.toNat + s.selections pool < 2 ^ 64) {i j : ℕ} (hi : i < p.len)
    (hj : j < p.len) :
    s.forwardedTo pool i + s.refusedAt pool i + s.inHandAt pool i ≤
      s.forwardedTo pool j + s.refusedAt pool j + s.inHandAt pool j + 1 := by
  rw [← selectedAt_eq, ← selectedAt_eq]
  obtain ⟨q, hq⟩ := even_of_reach h₀ hpool hstrategy h
  have hturni := hq.turns hwrap i
  have hturnj := hq.turns hwrap j
  have hle := Residue.count_add_le hi hj p.rrCounter.toNat (p.rrCounter.toNat + s.selections pool)
  omega

/-- Two backends, and a guard that refuses every second connection. -/
def refusedActions : List AcceptAction :=
  [.accept (.v4 1 1001), .resolve, .select, .reserve (.ok ()), .markEstablished (.ok ()),
    .accept (.v4 2 1002), .resolve, .select, .reserve (.error (.bannedIp [])),
    .accept (.v4 1 1003), .resolve, .select, .reserve (.ok ()), .markEstablished (.ok ()),
    .accept (.v4 2 1004), .resolve, .select, .reserve (.error (.bannedIp []))]

/-- A proxy with these backends and no table. -/
def spreadStart : ProxyIntake :=
  start none [.roundRobin [BackendPool.localBackend 8001, BackendPool.localBackend 8002]]

/-- The state after these connections. -/
def refusedRun : ProxyIntake :=
  Transition.System.after (next BackendPool.insertionBuild .sync (some 0)) spreadStart
    refusedActions

/-- It is the state of a run in which only the loop uses the pool. -/
theorem reach_refusedRun :
    (spreadSystem BackendPool.insertionBuild .sync (some 0) spreadStart 0).Reach refusedRun := by
  refine Transition.System.reach_after (.init rfl) fun a ha s s' hstep => ⟨hstep, ?_⟩
  rintro op rfl
  simp [refusedActions] at ha

/-- Both backends had two turns, and one of them got every connection. -/
theorem selectedAt_le_refusedRun :
    refusedRun.forwardedTo 0 0 + refusedRun.refusedAt 0 0 + refusedRun.inHandAt 0 0 ≤
      refusedRun.forwardedTo 0 1 + refusedRun.refusedAt 0 1 + refusedRun.inHandAt 0 1 + 1 :=
  selectedAt_le (begins_start _ _) rfl rfl reach_refusedRun (by decide +kernel) (by decide)
    (by decide)

/-- **The forwarded connections may all go to one backend**: its numbers are not even up to one
when a guard refuses every second connection. -/
theorem not_forall_forwardedTo_le :
    ¬∀ s, (spreadSystem BackendPool.insertionBuild .sync (some 0) spreadStart 0).Reach s →
      ∀ i j, i < 2 → j < 2 → s.forwardedTo 0 i ≤ s.forwardedTo 0 j + 1 := by
  intro h
  exact absurd (h _ reach_refusedRun 0 1 (by decide) (by decide)) (by decide +kernel)

end ProxyIntake

end Synclaire
