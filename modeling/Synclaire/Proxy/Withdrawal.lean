import Synclaire.Lib.Table
import Synclaire.Proxy.AcceptLoop

set_option relaxedAutoImplicit false
set_option autoImplicit false

/-!
# Withdrawn backends and barred peers

The owner of a proxy changes its table and its pools while the accept loop runs. A change does not
reach the connection in hand, for which the table was asked before, and it reaches every later one:
a backend that no rule and no pool names any more gets at most one more connection, and a peer that
the first matching rule rejects has at most one more forwarded.

## Main definitions

* `Synclaire.ProxyIntake.Offers` — where the table, the pools and the configuration may send a
  connection.
* `Synclaire.RoutingTable.Bars` — the table rejects a peer, however its groups are defined.
* `Synclaire.ProxyIntake.HandMove` — what a step does to the connection in hand.
* `Synclaire.withdrawnSystem`, `Synclaire.barredSystem` — the runs in which nobody offers the
  backend again, or lets the peer in again.

## Main results

* `Synclaire.ProxyIntake.handMove_of_next` — these are all moves.
* `Synclaire.ProxyIntake.forwards_of_handMove` — a step forwards only the connection in hand.
* `Synclaire.ProxyIntake.sentTo_after_remove` — a removed backend gets at most the connection in
  hand.
* `Synclaire.ProxyIntake.forwardedOf_after_reject` — a rejected peer has at most the connection in
  hand forwarded.

## Implementation notes

The backend of the configuration, here `fixed`, is used only where there is neither a table nor a
pool. A pool counts as offering its backends even if no rule leads to it.
-/

namespace Synclaire

/-! ## Tables -/

namespace RoutingTable

variable {P : Type*}

/-- A rule of the table, or its default, forwards to the address. -/
def ForwardsTo (t : RoutingTable P) (addr : SocketAddr) : Prop :=
  (∃ rule ∈ t.rules, rule.action = .forward addr) ∨ t.defaultAction = .forward addr

/-- The first rule that matches the peer rejects it, however the groups are defined. -/
def Bars (t : RoutingTable P) (peer : SocketAddr) : Prop :=
  ∀ groups, ∃ rule, t.rules.find? (fun rule => rule.matchesPeer peer groups) = some rule ∧
    rule.action = .reject

/-- A peer is forwarded to an address that the table names. -/
theorem forwardsTo_of_resolve {t : RoutingTable P} {peer addr : SocketAddr}
    (h : t.resolve peer = .forward addr) : t.ForwardsTo addr := by
  unfold resolve at h
  split at h
  · rename_i rule hrule
    exact .inl ⟨rule, List.mem_of_find?_eq_some hrule, h⟩
  · exact .inr h

/-- A barred peer is rejected. -/
theorem Bars.resolve {t : RoutingTable P} {peer : SocketAddr} (h : t.Bars peer) :
    t.resolve peer = .reject := by
  obtain ⟨rule, hrule, haction⟩ := h t.groups
  unfold RoutingTable.resolve
  rw [hrule]
  exact haction

/-- A rule in front of all others bars the peers that it rejects without a group. -/
theorem bars_prependRule (t : RoutingTable P) {rule : RoutingRule P} {peer : SocketAddr}
    (haction : rule.action = .reject) (hmatches : ∀ groups, rule.matchesPeer peer groups = true) :
    (t.prependRule rule).Bars peer := by
  intro groups
  refine ⟨rule, ?_, haction⟩
  rw [prependRule, List.find?_cons_of_pos]
  exact hmatches groups

end RoutingTable

namespace RoutingOp

variable {P : Type*}

/-- The operation brings a rule or a default that forwards to the address. -/
def Offers (addr : SocketAddr) : RoutingOp P → Prop
  | .addGroup _ _ => False
  | .addRule rule => rule.action = .forward addr
  | .prependRule rule => rule.action = .forward addr
  | .setDefault action => action = .forward addr

/-- The operation puts a rule in front that may let the peer in. -/
def LetsIn (peer : SocketAddr) : RoutingOp P → Prop
  | .prependRule rule => rule.action ≠ .reject ∧ ∃ groups, rule.matchesPeer peer groups = true
  | _ => False

end RoutingOp

namespace RoutingTable

variable {P : Type*}

/-- What a table names after an operation, it named before, or the operation does. -/
theorem forwardsTo_of_apply {t : RoutingTable P} {op : RoutingOp P} {addr : SocketAddr}
    (h : (t.apply op).ForwardsTo addr) : t.ForwardsTo addr ∨ op.Offers addr := by
  cases op with
  | addGroup name group => exact .inl h
  | addRule rule =>
    rcases h with ⟨r, hr, haction⟩ | hdefault
    · rcases List.mem_append.mp hr with hr | hr
      · exact .inl (.inl ⟨r, hr, haction⟩)
      · obtain rfl := List.mem_singleton.mp hr
        exact .inr haction
    · exact .inl (.inr hdefault)
  | prependRule rule =>
    rcases h with ⟨r, hr, haction⟩ | hdefault
    · rcases List.mem_cons.mp hr with rfl | hr
      · exact .inr haction
      · exact .inl (.inl ⟨r, hr, haction⟩)
    · exact .inl (.inr hdefault)
  | setDefault action =>
    rcases h with hrule | hdefault
    · exact .inl (.inl hrule)
    · exact .inr hdefault

/-- A barred peer stays barred until a rule in front lets it in: groups, rules behind and the
default do not matter. -/
theorem Bars.apply {t : RoutingTable P} {op : RoutingOp P} {peer : SocketAddr} (h : t.Bars peer)
    (hop : ¬op.LetsIn peer) : (t.apply op).Bars peer := by
  cases op with
  | addGroup name group => exact h
  | setDefault action => exact h
  | addRule rule =>
    intro groups
    obtain ⟨r, hr, haction⟩ := h groups
    refine ⟨r, ?_, haction⟩
    simp only [RoutingTable.apply, addRule, List.find?_append, hr, Option.some_or]
  | prependRule rule =>
    intro groups
    by_cases hmatches : rule.matchesPeer peer groups = true
    · refine ⟨rule, ?_, ?_⟩
      · simp only [RoutingTable.apply, prependRule, List.find?_cons, hmatches]
      · by_contra haction
        exact hop ⟨haction, groups, hmatches⟩
    · obtain ⟨r, hr, haction⟩ := h groups
      refine ⟨r, ?_, haction⟩
      simp only [RoutingTable.apply, prependRule, List.find?_cons, hmatches, hr]

end RoutingTable

/-! ## Pools -/

namespace BackendPool

/-- An address found at a position is one of the pool's. -/
theorem mem_backends_of_addrAt {p : BackendPool} {idx : ℕ} {addr : SocketAddr}
    (h : p.addrAt idx = .ok (some addr)) : addr ∈ p.backends := by
  unfold addrAt at h
  split at h
  · rename_i backend hbackend
    obtain rfl : backend.addr = addr := by simpa using h
    exact List.mem_map.mpr ⟨backend, List.mem_of_getElem? hbackend, rfl⟩
  · cases h

/-- A pool selects one of its backends. -/
theorem mem_backends_of_select {p : BackendPool} {peer addr : SocketAddr}
    (h : (p.select peer).1 = .ok (some addr)) : addr ∈ p.backends := by
  unfold select at h
  by_cases hempty : p.inner.backends = []
  · simp [hempty] at h
  · simp only [hempty, if_false] at h
    cases hstrategy : p.inner.strategy with
    | roundRobin =>
      rw [hstrategy] at h
      exact mem_backends_of_addrAt h
    | consistentHash replicas sticky =>
      rw [hstrategy] at h
      dsimp only at h
      split_ifs at h
      · exact mem_backends_of_addrAt h
      · dsimp only at h
        unfold lookup at h
        dsimp only at h
        split at h
        · exact mem_backends_of_addrAt h
        · cases h

/-- What a pool offers after an operation, it offered before, or the operation adds it. -/
theorem mem_backends_after {B : Build} {p : BackendPool} {op : Op} {addr : SocketAddr}
    (h : addr ∈ (p.after B op).backends) :
    addr ∈ p.backends ∨ ∃ backend, op = .add backend ∧ backend.addr = addr := by
  rw [backends, List.mem_map] at h
  obtain ⟨b, hb, rfl⟩ := h
  cases op with
  | add backend =>
    rw [after, addBackend_backends] at hb
    rcases List.mem_append.mp hb with hb | hb
    · exact .inl (List.mem_map_of_mem hb)
    · obtain rfl := List.mem_singleton.mp hb
      exact .inr ⟨b, rfl, rfl⟩
  | remove addr =>
    rw [after, removeBackend_backends] at hb
    exact .inl (List.mem_map_of_mem (List.mem_filter.mp hb).1)
  | select peer =>
    rw [after, select_inner] at hb
    exact .inl (List.mem_map_of_mem hb)

end BackendPool

/-! ## The connection in hand -/

/-- The address that a connection is sent to. -/
def Choice.target (fixed : SocketAddr) (choice : Choice) : SocketAddr := choice.backend.getD fixed

/-- The connection in hand once it was routed, with its backend once that was chosen. -/
def AcceptPhase.hand : AcceptPhase → Option (SocketAddr × Option Choice)
  | .selecting peer _ => some (peer, none)
  | .reserving peer choice => some (peer, some choice)
  | .establishing peer choice => some (peer, some choice)
  | _ => none

/-- The action brings the address as a backend. -/
def AcceptAction.Offers (addr : SocketAddr) : AcceptAction → Prop
  | .changeTable op => op.Offers addr
  | .changePool _ (.add backend) => backend.addr = addr
  | .newPool pool => addr ∈ pool.backends
  | _ => False

/-- The action may let the peer in. -/
def AcceptAction.LetsIn (peer : SocketAddr) : AcceptAction → Prop
  | .changeTable op => op.LetsIn peer
  | _ => False

namespace ProxyIntake

/-- The table, a pool or the configuration may send a connection to the address. -/
def Offers (backendPool : Option ℕ) (fixed : SocketAddr) (s : ProxyIntake) (addr : SocketAddr) :
    Prop :=
  (∃ table, s.routing = some table ∧ table.ForwardsTo addr) ∨
    (∃ p ∈ s.pools, addr ∈ p.backends) ∨ (s.routing = none ∧ backendPool = none ∧ fixed = addr)

/-- There is a table, and it bars the peer. -/
def Bars (s : ProxyIntake) (peer : SocketAddr) : Prop :=
  ∃ table, s.routing = some table ∧ table.Bars peer

/-- The number of connections that were handed over to be forwarded to the address. -/
def sentTo (fixed : SocketAddr) (s : ProxyIntake) (addr : SocketAddr) : ℕ :=
  s.dealt.countP fun d => d.forwarded && decide (d.choice.target fixed = addr)

/-- The number of connections of the peer that were handed over to be forwarded, those that have
ended since included. -/
def forwardedOf (s : ProxyIntake) (peer : SocketAddr) : ℕ :=
  s.dealt.countP fun d => d.forwarded && decide (d.peer = peer)

/-- Whether the address was chosen for the connection in hand. -/
def inHandTo (fixed : SocketAddr) (s : ProxyIntake) (addr : SocketAddr) : ℕ :=
  (s.phase.hand.any fun c => c.2.any fun choice => choice.target fixed = addr).toNat

/-- Whether the connection in hand was routed and is the peer's. -/
def inHandOf (s : ProxyIntake) (peer : SocketAddr) : ℕ :=
  (s.phase.hand.any fun c => c.1 = peer).toNat

end ProxyIntake

/-- The runs from `s₀` on in which nobody offers the address. -/
def withdrawnSystem (B : Build) (flavor : ProxyFlavor) (backendPool : Option ℕ)
    (s₀ : ProxyIntake) (addr : SocketAddr) : Transition.System ProxyIntake AcceptAction where
  init s := s = s₀
  step s a s' := s.next B flavor backendPool a = some s' ∧ ¬a.Offers addr

/-- The runs from `s₀` on in which nobody lets the peer in. -/
def barredSystem (B : Build) (flavor : ProxyFlavor) (backendPool : Option ℕ)
    (s₀ : ProxyIntake) (peer : SocketAddr) : Transition.System ProxyIntake AcceptAction where
  init s := s = s₀
  step s a s' := s.next B flavor backendPool a = some s' ∧ ¬a.LetsIn peer

namespace ProxyIntake

variable {B : Build} {flavor : ProxyFlavor} {backendPool : Option ℕ} {s s' : ProxyIntake}
  {a : AcceptAction} {fixed addr peer : SocketAddr}

/-- What a step does to the connection in hand. -/
inductive HandMove (backendPool : Option ℕ) (s s' : ProxyIntake) : Prop
  | keeps (hhand : s'.phase.hand = s.phase.hand) (hdealt : s'.dealt = s.dealt)
  /-- A connection that no rule rejects is routed, and with it its backend may be chosen. -/
  | routes {peer : SocketAddr} {chosen : Option Choice} (hbefore : s.phase.hand = none)
      (hhand : s'.phase.hand = some (peer, chosen)) (hdealt : s'.dealt = s.dealt)
      (hnot : ¬s.Bars peer)
      (hoffers : ∀ choice, chosen = some choice →
        ∀ fixed, s.Offers backendPool fixed (choice.target fixed))
  /-- A pool selects its backend. -/
  | selects {peer : SocketAddr} {choice : Choice} (hbefore : s.phase.hand = some (peer, none))
      (hhand : s'.phase.hand = some (peer, some choice)) (hdealt : s'.dealt = s.dealt)
      (hoffers : ∀ fixed, s.Offers backendPool fixed (choice.target fixed))
  /-- It is lost to an empty pool or a panic. -/
  | loses (hhand : s'.phase.hand = none) (hdealt : s'.dealt = s.dealt)
  /-- A guard answers. -/
  | deals {peer : SocketAddr} {choice : Choice} {forwarded : Bool}
      (hbefore : s.phase.hand = some (peer, some choice)) (hhand : s'.phase.hand = none)
      (hdealt : s'.dealt = s.dealt ++ [⟨peer, choice, forwarded⟩])

/-- A connection that waits for the table is routed or rejected. -/
theorem handMove_routed (hphase : s.phase = .resolving peer) :
    s.HandMove backendPool (s.routed flavor backendPool peer) := by
  have hbefore : s.phase.hand = none := by
    rw [hphase]
    rfl
  unfold routed
  cases hrouting : s.routing with
  | some table =>
    have hbars : s.Bars peer → table.resolve peer = .reject := by
      rintro ⟨t, ht, hbars⟩
      obtain rfl := Option.some.inj (hrouting.symm.trans ht)
      exact hbars.resolve
    dsimp only
    cases haction : table.resolve peer with
    | forward addr =>
      refine .routes hbefore rfl rfl (fun h => ?_) ?_
      · cases haction.symm.trans (hbars h)
      · rintro _ ⟨⟩ fixed
        exact .inl ⟨table, hrouting, RoutingTable.forwardsTo_of_resolve haction⟩
    | pool pool =>
      refine .routes hbefore rfl rfl (fun h => ?_) (by simp)
      cases haction.symm.trans (hbars h)
    | reject => exact .keeps hbefore.symm rfl
  | none =>
    have hnot : ¬s.Bars peer := by
      rintro ⟨t, ht, -⟩
      cases hrouting.symm.trans ht
    dsimp only
    cases hpool : backendPool with
    | some pool => exact .routes hbefore rfl rfl hnot (by simp)
    | none =>
      refine .routes hbefore rfl rfl hnot ?_
      rintro _ ⟨⟩ fixed
      exact .inr (.inr ⟨hrouting, rfl, rfl⟩)

/-- A pool selects a backend that it offers, or the connection is lost. -/
theorem handMove_selected {pool : ℕ} {p : BackendPool} (hphase : s.phase = .selecting peer pool)
    (hpool : s.pools[pool]? = some p) : s.HandMove backendPool (s.selected peer pool p) := by
  have hbefore : s.phase.hand = some (peer, none) := by
    rw [hphase]
    rfl
  unfold selected
  dsimp only
  rcases hselect : (p.select peer).1 with panic | _ | addr
  · exact .loses rfl rfl
  · exact .loses rfl rfl
  · refine .selects hbefore rfl rfl fun fixed => .inr (.inl ?_)
    exact ⟨p, List.mem_of_getElem? hpool, BackendPool.mem_backends_of_select hselect⟩

/-- **What a step does to the connection in hand.** -/
theorem handMove_of_next (h : s.next B flavor backendPool a = some s') :
    s.HandMove backendPool s' := by
  cases steps_of_next h with
  | changeTable | changePool | newPool | finishForward => exact .keeps rfl rfl
  | accept hphase | reserve hphase => exact .keeps (by rw [hphase]; rfl) rfl
  | resolve hphase => exact handMove_routed hphase
  | select hphase hpool => exact handMove_selected hphase hpool
  | refuseReserve hphase | refuseEstablished hphase | markEstablished hphase =>
    exact .deals (by rw [hphase]; rfl) rfl rfl

/-! ## Forwards of a sort

A connection is of a sort `q` by its peer and its backend, once that was chosen. -/

/-- The number of connections of a sort that were handed over to be forwarded. -/
def forwards (q : SocketAddr × Option Choice → Bool) (s : ProxyIntake) : ℕ :=
  s.dealt.countP fun d => d.forwarded && q (d.peer, some d.choice)

/-- Whether the connection in hand is of a sort. -/
def inHand (q : SocketAddr × Option Choice → Bool) (s : ProxyIntake) : ℕ :=
  (s.phase.hand.any q).toNat

/-- **A step forwards only the connection in hand** of a sort, if no connection that is routed by
the step, and none whose backend is selected by it, becomes one of the sort. -/
theorem forwards_of_handMove {q : SocketAddr × Option Choice → Bool}
    (h : s.HandMove backendPool s')
    (hroutes : ∀ peer chosen, ¬s.Bars peer →
      (∀ choice, chosen = some choice → ∀ fixed, s.Offers backendPool fixed (choice.target fixed)) →
      q (peer, chosen) = false)
    (hselects : ∀ peer choice, (∀ fixed, s.Offers backendPool fixed (choice.target fixed)) →
      q (peer, some choice) = true → q (peer, none) = true) :
    s.forwards q ≤ s'.forwards q ∧ s'.forwards q + s'.inHand q ≤ s.forwards q + s.inHand q := by
  have hsame : s'.dealt = s.dealt → s'.forwards q = s.forwards q := by
    intro hdealt
    rw [forwards, forwards, hdealt]
  cases h with
  | keeps hhand hdealt =>
    rw [hsame hdealt, inHand, inHand, hhand]
    exact ⟨le_rfl, le_rfl⟩
  | routes _ hhand hdealt hnot hoffers =>
    rw [hsame hdealt, inHand, hhand, Option.any_some, hroutes _ _ hnot hoffers]
    exact ⟨le_rfl, Nat.le_add_right _ _⟩
  | selects hbefore hhand hdealt hoffers =>
    rw [hsame hdealt, inHand, inHand, hhand, hbefore, Option.any_some, Option.any_some]
    exact ⟨le_rfl, Nat.add_le_add_left (Bool.toNat_le_toNat (hselects _ _ hoffers)) _⟩
  | loses hhand hdealt =>
    rw [hsame hdealt, inHand, hhand]
    exact ⟨le_rfl, Nat.le_add_right _ _⟩
  | @deals peer choice forwarded hbefore hhand hdealt =>
    have hforwards : s'.forwards q =
        s.forwards q + (forwarded && q (peer, some choice)).toNat := by
      rw [forwards, hdealt, Table.countP_append_singleton]
      rfl
    rw [hforwards, inHand, inHand, hhand, hbefore, Option.any_some, Option.any_none,
      Bool.toNat_false, Nat.add_zero]
    refine ⟨Nat.le_add_right _ _, Nat.add_le_add_left ?_ _⟩
    cases forwarded
    · exact Nat.zero_le _
    · exact le_rfl

/-! ## The table and the pools -/

/-- What a step does to the table and the pools. -/
inductive ContentMove (B : Build) (s : ProxyIntake) (a : AcceptAction) (s' : ProxyIntake) : Prop
  | still (ha : ∀ op, a ≠ .changeTable op) (hrouting : s'.routing = s.routing)
      (hpools : s'.pools = s.pools)
  | table {t : RoutingTable ℕ} {op : RoutingOp ℕ} (ha : a = .changeTable op)
      (ht : s.routing = some t) (hrouting : s'.routing = some (t.apply op))
      (hpools : s'.pools = s.pools)
  | pool {i : ℕ} {p : BackendPool} {op : BackendPool.Op} (ha : ∀ op, a ≠ .changeTable op)
      (hop : a = .changePool i op ∨ ∃ peer, op = .select peer) (hp : s.pools[i]? = some p)
      (hrouting : s'.routing = s.routing) (hpools : s'.pools = s.pools.set i (p.after B op))
  | newPool {p : BackendPool} (ha : a = .newPool p) (hrouting : s'.routing = s.routing)
      (hpools : s'.pools = s.pools ++ [p])

/-- Routing leaves the table and the pools. -/
theorem routed_contents (flavor : ProxyFlavor) (backendPool : Option ℕ) (s : ProxyIntake)
    (peer : SocketAddr) : (s.routed flavor backendPool peer).routing = s.routing ∧
      (s.routed flavor backendPool peer).pools = s.pools := by
  unfold routed
  split
  · split <;> exact ⟨rfl, rfl⟩
  · split <;> exact ⟨rfl, rfl⟩

/-- A selection is an operation on its pool. -/
theorem selected_contents (B : Build) (s : ProxyIntake) (peer : SocketAddr) (pool : ℕ)
    (p : BackendPool) : (s.selected peer pool p).routing = s.routing ∧
      (s.selected peer pool p).pools = s.pools.set pool (p.after B (.select peer)) := by
  unfold selected
  dsimp only
  split <;> exact ⟨rfl, rfl⟩

/-- **What a step does to the table and the pools.** -/
theorem contentMove_of_next (h : s.next B flavor backendPool a = some s') :
    s.ContentMove B a s' := by
  cases steps_of_next h with
  | changeTable htable => exact .table rfl htable rfl rfl
  | changePool hpool => exact .pool (by simp) (.inl rfl) hpool rfl rfl
  | newPool => exact .newPool rfl rfl rfl
  | @resolve peer _ =>
    obtain ⟨hrouting, hpools⟩ := routed_contents flavor backendPool s peer
    exact .still (by simp) hrouting hpools
  | @select peer pool p _ hpool =>
    obtain ⟨hrouting, hpools⟩ := selected_contents B s peer pool p
    exact .pool (by simp) (.inr ⟨peer, rfl⟩) hpool hrouting hpools
  | finishForward | accept | reserve | refuseReserve | markEstablished | refuseEstablished =>
    exact .still (by simp) rfl rfl

/-- What is offered after a step was offered before, or the step offers it. -/
theorem offers_of_next (h : s.next B flavor backendPool a = some s')
    (hoffers : s'.Offers backendPool fixed addr) :
    s.Offers backendPool fixed addr ∨ a.Offers addr := by
  cases contentMove_of_next h with
  | still _ hrouting hpools =>
    rw [Offers, hrouting, hpools] at hoffers
    exact .inl hoffers
  | @table t op ha ht hrouting hpools =>
    rw [Offers, hrouting, hpools] at hoffers
    rcases hoffers with ⟨t', ht', hforwards⟩ | hpool | ⟨hnone, -⟩
    · obtain rfl := Option.some.inj ht'
      rcases RoutingTable.forwardsTo_of_apply hforwards with hbefore | hop
      · exact .inl (.inl ⟨t, ht, hbefore⟩)
      · rw [ha]
        exact .inr hop
    · exact .inl (.inr (.inl hpool))
    · cases hnone
  | @pool i p op _ hop hp hrouting hpools =>
    rw [Offers, hrouting, hpools] at hoffers
    rcases hoffers with htable | ⟨q, hq, haddr⟩ | hfixed
    · exact .inl (.inl htable)
    · rcases List.mem_or_eq_of_mem_set hq with hq | rfl
      · exact .inl (.inr (.inl ⟨q, hq, haddr⟩))
      · rcases BackendPool.mem_backends_after haddr with hbefore | ⟨backend, rfl, hbackend⟩
        · exact .inl (.inr (.inl ⟨p, List.mem_of_getElem? hp, hbefore⟩))
        · rcases hop with rfl | ⟨peer, hselect⟩
          · exact .inr hbackend
          · cases hselect
    · exact .inl (.inr (.inr hfixed))
  | @newPool p ha hrouting hpools =>
    rw [Offers, hrouting, hpools] at hoffers
    rcases hoffers with htable | ⟨q, hq, haddr⟩ | hfixed
    · exact .inl (.inl htable)
    · rcases List.mem_append.mp hq with hq | hq
      · exact .inl (.inr (.inl ⟨q, hq, haddr⟩))
      · obtain rfl := List.mem_singleton.mp hq
        rw [ha]
        exact .inr haddr
    · exact .inl (.inr (.inr hfixed))

/-- A barred peer stays barred until a step lets it in. -/
theorem Bars.next (h : s.Bars peer) (hstep : s.next B flavor backendPool a = some s')
    (hnot : ¬a.LetsIn peer) : s'.Bars peer := by
  obtain ⟨t, ht, hbars⟩ := h
  cases contentMove_of_next hstep with
  | still _ hrouting _ | pool _ _ _ hrouting _ | newPool _ hrouting _ =>
    exact ⟨t, hrouting.trans ht, hbars⟩
  | @table t' op ha ht' hrouting _ =>
    obtain rfl := Option.some.inj (ht.symm.trans ht')
    rw [ha] at hnot
    exact ⟨t.apply op, hrouting, hbars.apply hnot⟩

/-! ## Withdrawn backends -/

/-- **A step sends nothing to an address that is not offered**, but for the connection in hand. -/
theorem sentTo_next (h : s.next B flavor backendPool a = some s')
    (hoff : ¬s.Offers backendPool fixed addr) :
    s.sentTo fixed addr ≤ s'.sentTo fixed addr ∧
      s'.sentTo fixed addr + s'.inHandTo fixed addr ≤
        s.sentTo fixed addr + s.inHandTo fixed addr := by
  have hne : ∀ choice : Choice, (∀ fixed, s.Offers backendPool fixed (choice.target fixed)) →
      choice.target fixed ≠ addr := by
    rintro choice hoffers rfl
    exact hoff (hoffers fixed)
  refine forwards_of_handMove (q := fun c => c.2.any fun choice => choice.target fixed = addr)
    (handMove_of_next h) (fun peer chosen _ hoffers => ?_) fun peer choice hoffers hq => ?_
  · cases chosen with
    | none => rfl
    | some choice => exact decide_eq_false (hne choice (hoffers choice rfl))
  · exact absurd (of_decide_eq_true hq) (hne choice hoffers)

/-- **Withdrawn backends.** From a state in which an address is not offered on, while nobody offers
it, no connection is sent to it but for the one that is in hand. -/
theorem sentTo_of_withdrawn {s₀ : ProxyIntake} (hoff : ¬s₀.Offers backendPool fixed addr)
    (h : (withdrawnSystem B flavor backendPool s₀ addr).Reach s) :
    s₀.sentTo fixed addr ≤ s.sentTo fixed addr ∧
      s.sentTo fixed addr + s.inHandTo fixed addr ≤
        s₀.sentTo fixed addr + s₀.inHandTo fixed addr := by
  have hall := h.invariant (I := fun s => ¬s.Offers backendPool fixed addr ∧
    s₀.sentTo fixed addr ≤ s.sentTo fixed addr ∧ s.sentTo fixed addr + s.inHandTo fixed addr ≤
      s₀.sentTo fixed addr + s₀.inHandTo fixed addr) ?_ ?_
  · exact hall.2
  · rintro _ rfl
    exact ⟨hoff, le_rfl, le_rfl⟩
  · rintro s a s' - ⟨hs, hle, hbound⟩ ⟨hnext, hnot⟩
    obtain ⟨hle', hbound'⟩ := sentTo_next hnext hs
    exact ⟨fun h => (offers_of_next hnext h).elim hs hnot, hle.trans hle', hbound'.trans hbound⟩

/-- A pool that loses a backend while nothing else offers its address. -/
theorem not_offers_of_remove {pool : ℕ}
    (h : s.next B flavor backendPool (.changePool pool (.remove addr)) = some s')
    (htable : ∀ table, s.routing = some table → ¬table.ForwardsTo addr)
    (hothers : ∀ i p, s.pools[i]? = some p → i ≠ pool → addr ∉ p.backends)
    (hfixed : s.routing = none → backendPool = none → fixed ≠ addr) :
    ¬s'.Offers backendPool fixed addr := by
  obtain ⟨p, hp, rfl⟩ := Option.map_eq_some_iff.mp h
  rintro (⟨table, hrouting, hforwards⟩ | ⟨q, hq, haddr⟩ | ⟨hrouting, hnone, heq⟩)
  · exact htable table hrouting hforwards
  · obtain ⟨i, hi⟩ := List.mem_iff_getElem?.mp hq
    rcases (Table.getElem?_set_eq_some hp).mp hi with ⟨-, rfl⟩ | ⟨hne, hi⟩
    · exact BackendPool.not_mem_backends_removeBackend addr haddr
    · exact hothers i q hi hne haddr
  · exact hfixed hrouting hnone heq

/-- **A removed backend gets at most the connection in hand.** Once `remove_backend` has returned
and no rule, default or other pool names the address, the connections sent to it later are at most
the one for which it had been chosen before, for as long as nobody brings the address back,
whatever else happens to the table and the pools and whatever the guards answer.

**Proof sketch.** After the removal the address is not offered (`not_offers_of_remove`), and then a
step sends only the connection in hand to it (`sentTo_next`). -/
theorem sentTo_after_remove {s₀ s₁ : ProxyIntake} {pool : ℕ}
    (hremove : s₀.next B flavor backendPool (.changePool pool (.remove addr)) = some s₁)
    (htable : ∀ table, s₀.routing = some table → ¬table.ForwardsTo addr)
    (hothers : ∀ i p, s₀.pools[i]? = some p → i ≠ pool → addr ∉ p.backends)
    (hfixed : s₀.routing = none → backendPool = none → fixed ≠ addr)
    (h : (withdrawnSystem B flavor backendPool s₁ addr).Reach s) :
    s₀.sentTo fixed addr ≤ s.sentTo fixed addr ∧
      s.sentTo fixed addr + s.inHandTo fixed addr ≤
        s₀.sentTo fixed addr + s₀.inHandTo fixed addr ∧ s₀.inHandTo fixed addr ≤ 1 := by
  have hoff := not_offers_of_remove hremove htable hothers hfixed
  obtain ⟨hle, hbound⟩ := sentTo_of_withdrawn hoff h
  obtain ⟨p, -, rfl⟩ := Option.map_eq_some_iff.mp hremove
  exact ⟨hle, hbound, Bool.toNat_le _⟩

/-- A proxy with a pool of two backends, the first of which was chosen for a connection. -/
def chosenState : ProxyIntake :=
  Transition.System.after (next BackendPool.insertionBuild .async (some 0))
    (start none [.roundRobin [BackendPool.localBackend 8001, BackendPool.localBackend 8002]])
    [.accept (.v4 1 1001), .resolve, .select]

/-- It is removed then. -/
def removedState : ProxyIntake :=
  Transition.System.after (next BackendPool.insertionBuild .async (some 0)) chosenState
    [.changePool 0 (.remove (BackendPool.localBackend 8001).addr)]

/-- The connection in hand goes on, and another one comes. -/
def servedActions : List AcceptAction :=
  [.reserve (.ok ()), .markEstablished (.ok ()), .accept (.v4 2 1002), .resolve, .select,
    .reserve (.ok ()), .markEstablished (.ok ())]

/-- The state after these actions. -/
def servedState : ProxyIntake :=
  Transition.System.after (next BackendPool.insertionBuild .async (some 0)) removedState
    servedActions

/-- The bound is met: of the two connections, the removed backend gets the one in hand. -/
theorem sentTo_after_remove_servedState :
    let addr := (BackendPool.localBackend 8001).addr
    servedState.dealt.length = 2 ∧ servedState.sentTo (.v4 9 80) addr = 1 ∧
      servedState.sentTo (.v4 9 80) addr + servedState.inHandTo (.v4 9 80) addr ≤
        chosenState.sentTo (.v4 9 80) addr + chosenState.inHandTo (.v4 9 80) addr := by
  have hactions : ∀ a ∈ servedActions, ¬a.Offers (BackendPool.localBackend 8001).addr := by
    simp [servedActions, AcceptAction.Offers]
  have hreach : (withdrawnSystem BackendPool.insertionBuild .async (some 0) removedState
      (BackendPool.localBackend 8001).addr).Reach servedState :=
    Transition.System.reach_after (.init rfl) fun a ha _ _ hnext => ⟨hnext, hactions a ha⟩
  have hremove : chosenState.next BackendPool.insertionBuild .async (some 0)
      (.changePool 0 (.remove (BackendPool.localBackend 8001).addr)) = some removedState := rfl
  have htable : chosenState.routing = none := by decide +kernel
  have hlength : chosenState.pools.length = 1 := by decide +kernel
  refine ⟨by decide +kernel, by decide +kernel, (sentTo_after_remove hremove (fun table ht => ?_)
    (fun i p hp hi => ?_) (fun _ hnone => ?_) hreach).2.1⟩
  · cases htable.symm.trans ht
  · have hlt := (List.getElem?_eq_some_iff.mp hp).1
    omega
  · cases hnone

/-! ## Barred peers -/

/-- **A step forwards no connection of a barred peer**, but for the one in hand. -/
theorem forwardedOf_next (h : s.next B flavor backendPool a = some s') (hbars : s.Bars peer) :
    s.forwardedOf peer ≤ s'.forwardedOf peer ∧
      s'.forwardedOf peer + s'.inHandOf peer ≤ s.forwardedOf peer + s.inHandOf peer := by
  refine forwards_of_handMove (q := fun c => c.1 = peer) (handMove_of_next h)
    (fun peer' chosen hnot _ => ?_) fun _ _ _ hq => hq
  refine decide_eq_false ?_
  rintro rfl
  exact hnot hbars

/-- **Barred peers.** From a state in which a peer is barred on, while nobody puts a rule in front
that may let it in, no connection of it is forwarded but for the one that is in hand. -/
theorem forwardedOf_of_barred {s₀ : ProxyIntake} (hbars : s₀.Bars peer)
    (h : (barredSystem B flavor backendPool s₀ peer).Reach s) :
    s₀.forwardedOf peer ≤ s.forwardedOf peer ∧
      s.forwardedOf peer + s.inHandOf peer ≤ s₀.forwardedOf peer + s₀.inHandOf peer := by
  have hall := h.invariant (I := fun s => s.Bars peer ∧ s₀.forwardedOf peer ≤ s.forwardedOf peer ∧
    s.forwardedOf peer + s.inHandOf peer ≤ s₀.forwardedOf peer + s₀.inHandOf peer) ?_ ?_
  · exact hall.2
  · rintro _ rfl
    exact ⟨hbars, le_rfl, le_rfl⟩
  · rintro s a s' - ⟨hs, hle, hbound⟩ ⟨hnext, hnot⟩
    obtain ⟨hle', hbound'⟩ := forwardedOf_next hnext hs
    exact ⟨hs.next hnext hnot, hle.trans hle', hbound'.trans hbound⟩

/-- **A rejected peer has at most the connection in hand forwarded.** Once `prepend_rule` has
returned with a rule that rejects the peer, however the groups are defined, the connections of the
peer that are forwarded later, ended or not, are at most the one that had been routed before, for as
long as nobody prepends a rule that may let it in: no group, no rule added behind and no default
lifts the ban.

**Proof sketch.** The peer is barred (`bars_prependRule`) and stays so, and then a step forwards
only the connection in hand (`forwardedOf_next`). -/
theorem forwardedOf_after_reject {s₀ s₁ : ProxyIntake} {rule : RoutingRule ℕ}
    (hprepend : s₀.next B flavor backendPool (.changeTable (.prependRule rule)) = some s₁)
    (haction : rule.action = .reject) (hmatches : ∀ groups, rule.matchesPeer peer groups = true)
    (h : (barredSystem B flavor backendPool s₁ peer).Reach s) :
    s₀.forwardedOf peer ≤ s.forwardedOf peer ∧
      s.forwardedOf peer + s.inHandOf peer ≤ s₀.forwardedOf peer + s₀.inHandOf peer ∧
        s₀.inHandOf peer ≤ 1 := by
  obtain ⟨table, -, rfl⟩ := Option.map_eq_some_iff.mp hprepend
  obtain ⟨hle, hbound⟩ :=
    forwardedOf_of_barred ⟨_, rfl, table.bars_prependRule haction hmatches⟩ h
  exact ⟨hle, hbound, Bool.toNat_le _⟩

/-- A table that forwards everyone; the connection of a peer was routed by it. -/
def routedState : ProxyIntake :=
  Transition.System.after (next BackendPool.insertionBuild .sync none)
    (start (some (.new (.forward (.v4 9 80)))) []) [.accept (.v4 1 1001), .resolve]

/-- A rule against the address of the peer. -/
def rejectRule : RoutingRule ℕ := .fromIp (.new "ban".toList .reject) (.v4 1)

/-- The rule is prepended. -/
def bannedState : ProxyIntake :=
  Transition.System.after (next BackendPool.insertionBuild .sync none) routedState
    [.changeTable (.prependRule rejectRule)]

/-- The connection in hand goes on and ends, the default changes, and the peer comes again. -/
def bannedActions : List AcceptAction :=
  [.reserve (.ok ()), .markEstablished (.ok ()), .changeTable (.setDefault (.forward (.v4 8 80))),
    .finishForward (.v4 1 1001), .accept (.v4 1 1001), .resolve]

/-- The state after these actions. -/
def rejectedState : ProxyIntake :=
  Transition.System.after (next BackendPool.insertionBuild .sync none) bannedState bannedActions

/-- The bound is met: of the two connections, the one in hand is forwarded, and it counts though it
has ended. -/
theorem forwardedOf_after_reject_rejectedState :
    rejectedState.accepted = 2 ∧ rejectedState.forwarding = [] ∧
      rejectedState.forwardedOf (.v4 1 1001) = 1 ∧
      rejectedState.forwardedOf (.v4 1 1001) + rejectedState.inHandOf (.v4 1 1001) ≤
        routedState.forwardedOf (.v4 1 1001) + routedState.inHandOf (.v4 1 1001) := by
  have hactions : ∀ a ∈ bannedActions, ¬a.LetsIn (.v4 1 1001) := by
    simp [bannedActions, AcceptAction.LetsIn, RoutingOp.LetsIn]
  have hreach : (barredSystem BackendPool.insertionBuild .sync none bannedState
      (.v4 1 1001)).Reach rejectedState :=
    Transition.System.reach_after (.init rfl) fun a ha _ _ hnext => ⟨hnext, hactions a ha⟩
  have hprepend : routedState.next BackendPool.insertionBuild .sync none
      (.changeTable (.prependRule rejectRule)) = some bannedState := rfl
  have hmatches : ∀ groups, rejectRule.matchesPeer (.v4 1 1001) groups = true := by
    intro groups
    refine (rejectRule.matchesPeer_iff _ _).mpr ⟨fun _ _ hrange => ?_, .inr (.inl (by decide))⟩
    cases hrange
  exact ⟨by decide +kernel, by decide +kernel, by decide +kernel,
    (forwardedOf_after_reject hprepend rfl hmatches hreach).2.1⟩

end ProxyIntake

end Synclaire
