import Synclaire.LoadBalancer.Basic
import Synclaire.Lib.Transition

set_option relaxedAutoImplicit false
set_option autoImplicit false

/-!
# The ring is the one its backends call for

The ring of a consistent-hash pool is rebuilt from the list of backends by every operation that
changes this list. So in every reachable pool it is the sorted list of the virtual nodes of the
present backends, and the positions in it are positions of the list.

## Main definitions

* `Synclaire.expectedNodes` — the virtual nodes that a list of backends calls for.
* `Synclaire.BackendPool.NoOverflow` — no product `replicas * weight` overflows.
* `Synclaire.BackendPool.pools` — the pools of either strategy that sequences of operations
  reach.
* `Synclaire.BackendPool.RingExact` — the ring is sorted and has the expected nodes.

## Main results

* `Synclaire.BackendPool.ringExact_of_reach` — reachable pools without overflow have the
  expected ring.
* `Synclaire.BackendPool.ring_representation` — with it, `select` returns what the ring stands
  for.
-/

namespace Synclaire

variable {B : Build} {replicas : UInt32} {sticky : StickyKey}

/-! ## Collecting the nodes -/

/-- The number of virtual nodes a backend calls for. -/
def Backend.nodeCount (replicas : UInt32) (b : Backend) : ℕ := replicas.toNat * b.weight.toNat

/-- The virtual nodes that a list of backends calls for, the first backend at position `idx`. -/
def expectedNodes (replicas : UInt32) (idx : ℕ) (backends : List Backend) : List RingNode :=
  (backends.zipIdx idx).flatMap fun x =>
    (List.range (x.1.nodeCount replicas)).map fun i => ⟨nodeHash x.1.addr i, x.2⟩

/-- A node is expected if it is one of the virtual nodes of the backend at its position. -/
theorem mem_expectedNodes_iff {backends : List Backend} {node : RingNode} :
    node ∈ expectedNodes replicas 0 backends ↔ ∃ j b, backends[j]? = some b ∧
      ∃ i < b.nodeCount replicas, node = ⟨nodeHash b.addr i, j⟩ := by
  unfold expectedNodes
  constructor
  · intro h
    obtain ⟨⟨b, j⟩, hb, hnode⟩ := List.mem_flatMap.mp h
    obtain ⟨i, hi, rfl⟩ := List.mem_map.mp hnode
    exact ⟨j, b, List.mk_mem_zipIdx_iff_getElem?.mp hb, i, List.mem_range.mp hi, rfl⟩
  · rintro ⟨j, b, hb, i, hi, rfl⟩
    exact List.mem_flatMap.mpr ⟨(b, j), List.mk_mem_zipIdx_iff_getElem?.mpr hb,
      List.mem_map.mpr ⟨i, List.mem_range.mpr hi, rfl⟩⟩

/-- Without overflow the product is exact, checked or not. -/
theorem virtualNodes_ok {weight : UInt32} (h : replicas.toNat * weight.toNat < 2 ^ 32) :
    virtualNodes B replicas weight = .ok (replicas * weight) := by
  have hle : ¬2 ^ 32 ≤ replicas.toNat * weight.toNat := by omega
  simp only [virtualNodes, hle, and_false, if_false]

/-- The virtual nodes of a backend whose product does not overflow. -/
theorem backendNodes_ok {b : Backend} (h : b.nodeCount replicas < 2 ^ 32) (idx : ℕ) :
    backendNodes B replicas idx b =
      .ok ((List.range (b.nodeCount replicas)).map fun i => ⟨nodeHash b.addr i, idx⟩) := by
  have hmul : (replicas * b.weight).toNat = b.nodeCount replicas := by
    rw [UInt32.toNat_mul, ← Backend.nodeCount, Nat.mod_eq_of_lt h]
  rw [backendNodes, virtualNodes_ok h]
  show Except.ok _ = _
  rw [hmul]

/-- **What is collected** when no product overflows: the expected nodes.

**Proof sketch.** Induction on the backends; the head gives the nodes at `idx`, and the tail
starts one position later. -/
theorem collectNodes_eq {backends : List Backend} (idx : ℕ)
    (h : ∀ b ∈ backends, b.nodeCount replicas < 2 ^ 32) :
    collectNodes B replicas idx backends = .ok (expectedNodes replicas idx backends) := by
  induction backends generalizing idx with
  | nil => rfl
  | cons b rest ih =>
    have hb := backendNodes_ok (B := B) (h b List.mem_cons_self) idx
    have hrest := ih (idx + 1) fun c hc => h c (List.mem_cons_of_mem _ hc)
    rw [collectNodes, hb, hrest]
    rfl

namespace BackendPool

variable {p : BackendPool}

/-! ## The invariant -/

/-- No product `replicas * weight` overflows. -/
def NoOverflow (p : BackendPool) : Prop :=
  ∀ replicas sticky, p.inner.strategy = .consistentHash replicas sticky →
    ∀ b ∈ p.inner.backends, b.nodeCount replicas < 2 ^ 32

/-- The pool hashes with these parameters, and its ring is the sorted list of the virtual
nodes of its backends, no stale and no missing one among them. -/
structure RingExact (replicas : UInt32) (sticky : StickyKey) (p : BackendPool) : Prop where
  strategy : p.inner.strategy = .consistentHash replicas sticky
  sorted : p.inner.ring.Pairwise fun a b => a.hash.toNat ≤ b.hash.toNat
  perm : p.inner.ring.Perm (expectedNodes replicas 0 p.inner.backends)

/-- The nodes of an exact ring. -/
theorem RingExact.mem_iff (h : RingExact replicas sticky p) (node : RingNode) :
    node ∈ p.inner.ring ↔ ∃ j b, p.inner.backends[j]? = some b ∧
      ∃ i < b.nodeCount replicas, node = ⟨nodeHash b.addr i, j⟩ :=
  h.perm.mem_iff.trans mem_expectedNodes_iff

/-- A pool that has just been rebuilt without overflow has the expected ring. -/
theorem ringExact_of_rebuildRing {inner inner' : PoolInner} {counter : UInt64}
    (hs : inner.strategy = .consistentHash replicas sticky)
    (hb : ∀ b ∈ inner.backends, b.nodeCount replicas < 2 ^ 32)
    (h : inner.rebuildRing B = .ok inner') : RingExact replicas sticky ⟨inner', counter⟩ := by
  rw [PoolInner.rebuildRing, hs] at h
  simp only [collectNodes_eq 0 hb] at h
  obtain rfl := Except.ok.inj h
  exact ⟨rfl, B.sort_sorted _, B.sort_perm _⟩

/-- Rebuilding changes neither the backends nor the strategy. -/
theorem rebuildRing_frame {inner inner' : PoolInner} (h : inner.rebuildRing B = .ok inner') :
    inner'.backends = inner.backends ∧ inner'.strategy = inner.strategy := by
  rw [PoolInner.rebuildRing] at h
  split at h
  · obtain rfl := Except.ok.inj h
    exact ⟨rfl, rfl⟩
  · rename_i hs
    cases hc : collectNodes B _ 0 inner.backends with
    | error e => rw [hc] at h; exact absurd h (by intro h; cases h)
    | ok nodes =>
      rw [hc] at h
      obtain rfl := Except.ok.inj h
      exact ⟨rfl, rfl⟩

section Rebuilt

variable {α : Type} {inner : PoolInner} {result : α}

/-- A rebuild keeps the backends. -/
@[simp] theorem rebuilt_backends :
    (rebuilt B p inner result).2.inner.backends = inner.backends := by
  rw [rebuilt]
  split
  · next h => exact (rebuildRing_frame h).1
  · rfl

/-- A rebuild keeps the strategy. -/
@[simp] theorem rebuilt_strategy :
    (rebuilt B p inner result).2.inner.strategy = inner.strategy := by
  rw [rebuilt]
  split
  · next h => exact (rebuildRing_frame h).2
  · rfl

/-- If nothing overflows, the rebuild succeeds and leaves the expected ring. -/
theorem ringExact_rebuilt (hs : inner.strategy = .consistentHash replicas sticky)
    (hb : ∀ b ∈ inner.backends, b.nodeCount replicas < 2 ^ 32) :
    RingExact replicas sticky (rebuilt B p inner result).2 := by
  rw [rebuilt]
  split
  · next h => exact ringExact_of_rebuildRing hs hb h
  · next h =>
    rw [PoolInner.rebuildRing, hs] at h
    simp only [collectNodes_eq 0 hb] at h
    cases h

end Rebuilt

/-! ## The operations on the backends -/

/-- A backend is added behind the others, even when the rebuild panics. -/
@[simp] theorem addBackend_backends (b : Backend) :
    (p.addBackend B b).2.inner.backends = p.inner.backends ++ [b] := rebuilt_backends

/-- Adding a backend keeps the strategy. -/
@[simp] theorem addBackend_strategy (b : Backend) :
    (p.addBackend B b).2.inner.strategy = p.inner.strategy := rebuilt_strategy

/-- Every backend of the address is removed, even when the rebuild panics. -/
@[simp] theorem removeBackend_backends (a : SocketAddr) :
    (p.removeBackend B a).2.inner.backends =
      p.inner.backends.filter fun b => b.addr ≠ a := by
  unfold removeBackend
  dsimp only
  split_ifs
  · exact rebuilt_backends
  · rfl

/-- Removing a backend keeps the strategy. -/
@[simp] theorem removeBackend_strategy (a : SocketAddr) :
    (p.removeBackend B a).2.inner.strategy = p.inner.strategy := by
  unfold removeBackend
  dsimp only
  split_ifs
  · exact rebuilt_strategy
  · rfl

/-- A removed address is gone, even when it was added more than once and even when the rebuild
panicked. -/
theorem not_mem_backends_removeBackend (a : SocketAddr) :
    a ∉ (p.removeBackend B a).2.backends := by
  rw [backends, removeBackend_backends, List.mem_map]
  rintro ⟨b, hb, hba⟩
  exact absurd hba (by simpa using (List.mem_filter.mp hb).2)

/-- When no backend has the address, `removeBackend` keeps the pool. -/
theorem removeBackend_of_not_mem {a : SocketAddr}
    (h : ¬(p.inner.backends.filter fun b => b.addr ≠ a).length < p.inner.backends.length) :
    (p.removeBackend B a).2 = p := by
  have hfilter : (p.inner.backends.filter fun b => b.addr ≠ a) = p.inner.backends :=
    List.filter_sublist.eq_of_length_le (not_lt.mp h)
  unfold removeBackend
  dsimp only
  rw [if_neg h, hfilter]

/-- Looking up changes at most the round-robin counter. -/
theorem select_inner (peer : SocketAddr) : (p.select peer).2.inner = p.inner := by
  rw [select]
  split
  · rfl
  · split
    · rfl
    · split <;> rfl

/-! ## Reachable pools -/

/-- The pools of either strategy, from any list of backends. -/
def pools (B : Build) : Transition.System BackendPool Op where
  init p := (∃ backends, p = roundRobin backends) ∨
    ∃ backends replicas sticky, consistentHash B backends replicas sticky = .ok p
  step p op p' := p' = p.after B op

/-- As long as nothing in a hashing pool overflows, its ring is exact. An overflowing backend
may have panicked a rebuild or wrapped its product, but the ring is rebuilt when it goes. -/
def Exact (p : BackendPool) : Prop :=
  ∀ replicas sticky, p.inner.strategy = .consistentHash replicas sticky → p.NoOverflow →
    RingExact replicas sticky p

/-- A new pool is exact. -/
theorem exact_of_init (h : (pools B).init p) : p.Exact := by
  intro replicas sticky hs hno
  rcases h with ⟨backends, rfl⟩ | ⟨backends, replicas', sticky', h⟩
  · cases hs
  · cases hr : PoolInner.rebuildRing B ⟨backends, .consistentHash replicas' sticky', []⟩ with
    | error e => rw [consistentHash, hr] at h; cases h
    | ok inner =>
      rw [consistentHash, hr] at h
      obtain rfl := Except.ok.inj h
      obtain ⟨hbackends, hs'⟩ := rebuildRing_frame hr
      obtain ⟨rfl, rfl⟩ := LoadBalancerStrategy.consistentHash.inj (hs'.symm.trans hs)
      exact ringExact_of_rebuildRing rfl (fun b hb => hno _ _ hs b (hbackends ▸ hb)) hr

/-- An operation keeps a pool exact: it rebuilds the ring or leaves it and the backends. -/
theorem exact_of_step (h : p.Exact) (op : Op) : (p.after B op).Exact := by
  intro replicas sticky hs hno
  cases op with
  | add b =>
    have hs' : p.inner.strategy = .consistentHash replicas sticky := by
      rwa [after, addBackend_strategy] at hs
    refine ringExact_rebuilt hs' fun c hc => hno _ _ hs c ?_
    rwa [after, addBackend_backends]
  | remove a =>
    have hs' : p.inner.strategy = .consistentHash replicas sticky := by
      rwa [after, removeBackend_strategy] at hs
    by_cases hlt : (p.inner.backends.filter fun b => b.addr ≠ a).length <
        p.inner.backends.length
    · have hafter : p.after B (.remove a) = (rebuilt B p { p.inner with
          backends := p.inner.backends.filter fun b => b.addr ≠ a } true).2 := by
        simp only [after, removeBackend, if_pos hlt]
      rw [hafter]
      refine ringExact_rebuilt hs' fun c hc => hno _ _ hs c ?_
      rwa [after, removeBackend_backends]
    · have hafter : p.after B (.remove a) = p := removeBackend_of_not_mem hlt
      rw [hafter] at hno ⊢
      exact h _ _ hs' hno
  | select peer =>
    have hinner : (p.after B (.select peer)).inner = p.inner := select_inner peer
    rw [hinner] at hs
    have hexact := h _ _ hs fun r s hr => by simpa only [hinner] using hno r s (by rwa [hinner])
    exact ⟨by rw [hinner]; exact hs, by rw [hinner]; exact hexact.sorted,
      by rw [hinner]; exact hexact.perm⟩

/-- **Reachable pools without overflow have the expected ring.** -/
theorem ringExact_of_reach (h : (pools B).Reach p) : p.Exact := by
  refine Transition.System.Reach.invariant (I := Exact) (fun _ => exact_of_init) ?_ h
  rintro p op _ _ hp rfl
  exact exact_of_step hp op

/-! ## What `select` returns -/

/-- The lookup in a ring with nodes, if it is sorted and its positions are those of backends:
the address of the backend of the node that serves the key. -/
theorem lookup_cases (hsorted : p.inner.ring.Pairwise fun a b => a.hash.toNat ≤ b.hash.toNat)
    (hidx : ∀ node ∈ p.inner.ring, ∃ b, p.inner.backends[node.backendIdx]? = some b)
    (hne : p.inner.ring ≠ []) (key : UInt64) :
    ∃ node ∈ p.inner.ring, ∃ b, p.inner.backends[node.backendIdx]? = some b ∧
      p.lookup key = .ok (some b.addr) ∧
      Circle.IsSucc { h | ∃ node ∈ p.inner.ring, node.hash.toNat = h } key.toNat
        node.hash.toNat := by
  have hpos : 0 < p.inner.ring.length := List.length_pos_iff.mpr hne
  obtain ⟨node, hnode⟩ : ∃ node, p.inner.ring[Circle.partitionPoint
      (fun node => node.hash.toNat < key.toNat) p.inner.ring % p.inner.ring.length]? =
        some node := ⟨_, List.getElem?_eq_getElem (Nat.mod_lt _ hpos)⟩
  have hmem := List.mem_of_getElem? hnode
  obtain ⟨b, hb⟩ := hidx node hmem
  refine ⟨node, hmem, b, hb, ?_, Circle.isSucc_getElem_partitionPoint hsorted hnode⟩
  simp only [lookup, hnode, addrAt, hb]

/-- The position of a node in an exact ring is one of a backend. -/
theorem RingExact.exists_backend (h : RingExact replicas sticky p) {node : RingNode}
    (hnode : node ∈ p.inner.ring) : ∃ b, p.inner.backends[node.backendIdx]? = some b := by
  obtain ⟨j, b, hb, i, -, rfl⟩ := (h.mem_iff node).mp hnode
  exact ⟨b, hb⟩

/-- The address of a backend that is there. -/
theorem addrAt_of_lt {idx : ℕ} (h : idx < p.inner.backends.length) :
    ∃ b, p.inner.backends[idx]? = some b ∧ p.addrAt idx = .ok (some b.addr) := by
  have hget : p.inner.backends[idx]? = some p.inner.backends[idx] := List.getElem?_eq_getElem h
  exact ⟨_, hget, by rw [addrAt, hget]⟩

/-- A pool with backends selects one of them. -/
theorem exists_select_of_ne_nil (h : p.Exact) (hno : p.NoOverflow) (hne : p.inner.backends ≠ [])
    (peer : SocketAddr) : ∃ a, (p.select peer).1 = .ok (some a) := by
  have hpos : 0 < p.inner.backends.length := List.length_pos_iff.mpr hne
  rw [select, if_neg hne]
  cases hs : p.inner.strategy with
  | roundRobin =>
    obtain ⟨b, -, hb⟩ := addrAt_of_lt (p := p) (Nat.mod_lt p.rrCounter.toNat hpos)
    exact ⟨b.addr, hb⟩
  | consistentHash replicas sticky =>
    dsimp only
    by_cases hring : p.inner.ring = []
    · obtain ⟨b, -, hb⟩ := addrAt_of_lt (p := p) hpos
      rw [if_pos hring]
      exact ⟨b.addr, hb⟩
    · have hexact := h _ _ hs hno
      obtain ⟨node, -, b, -, hlookup, -⟩ := lookup_cases hexact.sorted
        (fun _ => hexact.exists_backend) hring (keyHash sticky peer)
      rw [if_neg hring]
      exact ⟨b.addr, hlookup⟩

/-- **The ring stands for its backends.** In every reachable pool of either strategy, as long as
no product overflows, the ring of a hashing pool is sorted, points to backends, and is the
multiset of their virtual nodes. So `select` never panics, returns nothing exactly when there is
no backend, and with a ring returns the backend of a node with the least hash at or above the
key, or with the least hash of all when there is none.

**Proof sketch.** The ring is exact in every reachable pool (`ringExact_of_reach`), and in a
sorted ring the partition point, modulo the length, is the node that serves the key
(`lookup_cases`). -/
theorem ring_representation (hr : (pools B).Reach p) (hno : p.NoOverflow) :
    (∀ replicas sticky, p.inner.strategy = .consistentHash replicas sticky →
      (p.inner.ring.Pairwise fun a b => a.hash.toNat ≤ b.hash.toNat) ∧
      (∀ node ∈ p.inner.ring, node.backendIdx < p.inner.backends.length) ∧
      p.inner.ring.Perm (expectedNodes replicas 0 p.inner.backends)) ∧
    ∀ peer, ∃ answer, (p.select peer).1 = .ok answer ∧
      (answer = none ↔ p.inner.backends = []) ∧
      ∀ replicas sticky, p.inner.strategy = .consistentHash replicas sticky →
        p.inner.ring ≠ [] → ∃ node ∈ p.inner.ring, ∃ b,
          p.inner.backends[node.backendIdx]? = some b ∧ answer = some b.addr ∧
          (((keyHash sticky peer).toNat ≤ node.hash.toNat ∧ ∀ n ∈ p.inner.ring,
              (keyHash sticky peer).toNat ≤ n.hash.toNat → node.hash.toNat ≤ n.hash.toNat) ∨
            (∀ n ∈ p.inner.ring, n.hash.toNat < (keyHash sticky peer).toNat) ∧
              ∀ n ∈ p.inner.ring, node.hash.toNat ≤ n.hash.toNat) := by
  have hexact := ringExact_of_reach hr
  refine ⟨fun replicas sticky hs => ?_, fun peer => ?_⟩
  · have hring := hexact _ _ hs hno
    refine ⟨hring.sorted, fun node hnode => ?_, hring.perm⟩
    obtain ⟨b, hb⟩ := hring.exists_backend hnode
    exact (List.getElem?_eq_some_iff.mp hb).1
  · by_cases hne : p.inner.backends = []
    · refine ⟨none, by rw [select, if_pos hne], iff_of_true rfl hne,
        fun replicas sticky hs hring => ?_⟩
      -- a ring without backends has no nodes
      obtain ⟨node, hnode⟩ := List.exists_mem_of_ne_nil _ hring
      obtain ⟨b, hb⟩ := (hexact _ _ hs hno).exists_backend hnode
      rw [hne] at hb
      cases hb
    · obtain ⟨a, ha⟩ := exists_select_of_ne_nil hexact hno hne peer
      refine ⟨some a, ha, iff_of_false (Option.some_ne_none a) hne,
        fun replicas sticky hs hring => ?_⟩
      have hnodes := hexact _ _ hs hno
      obtain ⟨node, hnode, b, hb, hlookup, -, hsucc⟩ := lookup_cases hnodes.sorted
        (fun _ => hnodes.exists_backend) hring (keyHash sticky peer)
      rw [select, if_neg hne, hs] at ha
      dsimp only at ha
      rw [if_neg hring, hlookup] at ha
      obtain rfl := Option.some.inj (Except.ok.inj ha)
      refine ⟨node, hnode, b, hb, rfl, ?_⟩
      rcases hsucc with ⟨hle, hmin⟩ | ⟨hbelow, hmin⟩
      · exact .inl ⟨hle, fun n hn => hmin _ ⟨n, hn, rfl⟩⟩
      · exact .inr ⟨fun n hn => hbelow _ ⟨n, hn, rfl⟩, fun n hn => hmin _ ⟨n, hn, rfl⟩⟩

/-- A checked build that sorts by insertion. -/
def insertionBuild : Build where
  overflowChecks := true
  sortUnstable := List.insertionSort fun a b => a.hash.toNat ≤ b.hash.toNat
  sort_perm := List.perm_insertionSort _
  sort_sorted ring := by
    have : Std.Total fun a b : RingNode => a.hash.toNat ≤ b.hash.toNat :=
      ⟨fun a b => Nat.le_total a.hash.toNat b.hash.toNat⟩
    have : IsTrans RingNode fun a b => a.hash.toNat ≤ b.hash.toNat :=
      ⟨fun a b c => Nat.le_trans⟩
    exact List.pairwise_insertionSort _ ring

/-- The backend `10.0.0.1:port`. -/
def localBackend (port : UInt16) : Backend := .new (.v4 (ipv4 10 0 0 1) port)

/-- Two backends with one virtual node each; the second has the lower hash. -/
def twoBackends : BackendPool where
  inner := ⟨[localBackend 8001, localBackend 8002], .consistentHash 1 .ip,
    [⟨nodeHash (localBackend 8002).addr 0, 1⟩, ⟨nodeHash (localBackend 8001).addr 0, 0⟩]⟩
  rrCounter := 0

/-- The pool is reachable. -/
theorem twoBackends_reach : (pools insertionBuild).Reach twoBackends :=
  .init (.inr ⟨[localBackend 8001, localBackend 8002], 1, .ip, by decide +kernel⟩)

/-- Nothing in it overflows. -/
theorem twoBackends_noOverflow : twoBackends.NoOverflow := by
  intro replicas sticky h
  obtain ⟨rfl, rfl⟩ := LoadBalancerStrategy.consistentHash.inj h
  decide +kernel

/-- Its ring is the one its backends call for, and a peer is sent to one of them. -/
theorem ring_representation_two_backends :
    twoBackends.inner.ring.Perm (expectedNodes 1 0 twoBackends.inner.backends) ∧
      ∃ answer, (twoBackends.select (.v4 (ipv4 1 2 3 4) 1000)).1 = .ok answer ∧
        answer ≠ none := by
  obtain ⟨hring, hselect⟩ := ring_representation twoBackends_reach twoBackends_noOverflow
  obtain ⟨answer, hanswer, hnone, -⟩ := hselect (.v4 (ipv4 1 2 3 4) 1000)
  exact ⟨(hring 1 .ip rfl).2.2, answer, hanswer, mt hnone.mp (List.cons_ne_nil _ _)⟩

end BackendPool

end Synclaire
