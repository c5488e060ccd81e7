import Synclaire.LoadBalancer.Representation

set_option relaxedAutoImplicit false
set_option autoImplicit false

/-!
# Weights whose product overflows

A backend is to own `replicas * weight` virtual nodes. The product of the two `u32` values is
computed during the rebuild of the ring, when the list of backends has been changed already. Where
it does not fit it wraps, and the backend owns too few nodes; or the build checks for overflow, and
the rebuild panics and leaves the old ring beside the new list.

## Main definitions

* `Synclaire.BackendPool.owned` — the number of nodes that the backend at a position owns.
* `Synclaire.BackendPool.Fresh` — rebuilding the ring from the list of backends changes nothing.
* `Synclaire.BackendPool.Weighted` — every backend owns as many nodes as its weight calls for.

## Main results

* `Synclaire.count_collectNodes` — the nodes that are collected for each backend, in every build.
* `Synclaire.BackendPool.weights_honoured_iff` — when the weights are honoured.
-/

namespace Synclaire

variable {B : Build} {replicas : UInt32} {sticky : StickyKey}

/-! ## Collecting the nodes -/

/-- The product as the machine has it. -/
theorem toNat_mul_weight (b : Backend) :
    (replicas * b.weight).toNat = b.nodeCount replicas % 2 ^ 32 := UInt32.toNat_mul _ _

/-- The nodes of one backend: the product wraps, or the build panics. -/
theorem backendNodes_eq (idx : ℕ) (b : Backend) :
    backendNodes B replicas idx b =
      if B.overflowChecks = true ∧ 2 ^ 32 ≤ b.nodeCount replicas then .error .arithmeticOverflow
      else .ok ((List.range (b.nodeCount replicas % 2 ^ 32)).map fun i =>
        ⟨nodeHash b.addr i, idx⟩) := by
  rw [backendNodes, virtualNodes, ← Backend.nodeCount]
  split_ifs
  · rfl
  · rw [← toNat_mul_weight]
    rfl

/-- The nodes are collected unless the build checks for overflow and one of the products does not
fit. -/
theorem exists_collectNodes_iff {backends : List Backend} (idx : ℕ) :
    (∃ nodes, collectNodes B replicas idx backends = .ok nodes) ↔
      (B.overflowChecks = true → ∀ b ∈ backends, b.nodeCount replicas < 2 ^ 32) := by
  induction backends generalizing idx with
  | nil => exact iff_of_true ⟨[], rfl⟩ fun _ b hb => nomatch hb
  | cons b rest ih =>
    rw [collectNodes, backendNodes_eq]
    by_cases hover : B.overflowChecks = true ∧ 2 ^ 32 ≤ b.nodeCount replicas
    · rw [if_pos hover]
      refine iff_of_false ?_ fun h => ?_
      · rintro ⟨nodes, h⟩
        cases h
      · have hlt := h hover.1 b List.mem_cons_self
        omega
    · rw [if_neg hover]
      have hfits : B.overflowChecks = true → b.nodeCount replicas < 2 ^ 32 := fun hchecks =>
        Nat.lt_of_not_le fun hle => hover ⟨hchecks, hle⟩
      have hrest := ih (idx + 1)
      simp only [List.forall_mem_cons]
      cases hcollect : collectNodes B replicas (idx + 1) rest with
      | error e =>
        rw [hcollect] at hrest
        have hnone : ¬∃ nodes, (Except.error e : Except Panic (List RingNode)) = .ok nodes := by
          rintro ⟨nodes, h⟩
          cases h
        exact iff_of_false hnone fun h => hnone (hrest.mpr fun hchecks => (h hchecks).2)
      | ok others =>
        rw [hcollect] at hrest
        exact iff_of_true ⟨_, rfl⟩ fun hchecks =>
          ⟨hfits hchecks, hrest.mp ⟨others, rfl⟩ hchecks⟩

/-- **The nodes that are collected for each backend**: its product, as far as it fits.

**Proof sketch.** Induction on the backends: the first has the nodes at `idx`, the others have
theirs above. -/
theorem count_collectNodes {backends : List Backend} {idx : ℕ} {nodes : List RingNode}
    (h : collectNodes B replicas idx backends = .ok nodes) (k : ℕ) :
    nodes.countP (fun node => node.backendIdx = k) =
      if idx ≤ k then (backends[k - idx]?.map fun b => b.nodeCount replicas % 2 ^ 32).getD 0
      else 0 := by
  induction backends generalizing idx nodes with
  | nil =>
    obtain rfl := Except.ok.inj h
    simp
  | cons b rest ih =>
    rw [collectNodes, backendNodes_eq] at h
    split_ifs at h with hover
    · cases h
    · cases hcollect : collectNodes B replicas (idx + 1) rest with
      | error e =>
        rw [hcollect] at h
        cases h
      | ok others =>
        rw [hcollect] at h
        obtain rfl := Except.ok.inj h
        have hhead : ∀ n, (((List.range n).map fun i =>
            (⟨nodeHash b.addr i, idx⟩ : RingNode)).countP fun node => node.backendIdx = k) =
              if idx = k then n else 0 := by
          intro n
          rw [List.countP_map]
          split_ifs with hk
          · simp [Function.comp_def, hk]
          · simp [Function.comp_def, hk]
        rw [List.countP_append, hhead, ih hcollect]
        rcases Nat.lt_trichotomy idx k with hlt | rfl | hgt
        · obtain ⟨d, rfl⟩ := Nat.exists_eq_add_of_lt hlt
          rw [if_neg (by omega), if_pos (by omega), if_pos (by omega), Nat.zero_add,
            show idx + d + 1 - idx = d + 1 by omega, show idx + d + 1 - (idx + 1) = d by omega,
            List.getElem?_cons_succ]
        · rw [if_pos rfl, if_neg (by omega), if_pos le_rfl, Nat.sub_self, List.getElem?_cons_zero]
          rfl
        · rw [if_neg (by omega), if_neg (by omega), if_neg (by omega)]

namespace BackendPool

variable {p : BackendPool}

/-! ## The ring of a pool -/

/-- The number of virtual nodes that the backend at position `j` owns. -/
def owned (p : BackendPool) (j : ℕ) : ℕ := p.inner.ring.countP fun node => node.backendIdx = j

/-- The ring is the one that rebuilding it from the list of backends gives. -/
def Fresh (B : Build) (p : BackendPool) : Prop := p.inner.rebuildRing B = .ok p.inner

/-- Every backend owns `replicas * weight` nodes. -/
def Weighted (replicas : UInt32) (p : BackendPool) : Prop :=
  ∀ j b, p.inner.backends[j]? = some b → p.owned j = b.nodeCount replicas

/-- What a rebuild makes of a consistent-hash pool. -/
theorem rebuildRing_eq {inner : PoolInner} (hs : inner.strategy = .consistentHash replicas sticky) :
    inner.rebuildRing B = (collectNodes B replicas 0 inner.backends).map fun nodes =>
      { inner with ring := B.sortUnstable nodes } := by
  rw [PoolInner.rebuildRing, hs]
  dsimp only
  cases collectNodes B replicas 0 inner.backends <;> rfl

/-- A rebuild succeeds unless the build checks for overflow and a product does not fit. -/
theorem exists_rebuildRing_iff {inner : PoolInner}
    (hs : inner.strategy = .consistentHash replicas sticky) :
    (∃ inner', inner.rebuildRing B = .ok inner') ↔
      (B.overflowChecks = true → ∀ b ∈ inner.backends, b.nodeCount replicas < 2 ^ 32) := by
  rw [rebuildRing_eq hs, ← exists_collectNodes_iff 0]
  cases collectNodes B replicas 0 inner.backends with
  | error e => exact iff_of_false nofun nofun
  | ok nodes => exact iff_of_true ⟨_, rfl⟩ ⟨_, rfl⟩

/-- A rebuild that succeeds has collected the nodes and sorted them. -/
theorem exists_nodes_of_rebuildRing {inner inner' : PoolInner}
    (hs : inner.strategy = .consistentHash replicas sticky)
    (h : inner.rebuildRing B = .ok inner') :
    ∃ nodes, collectNodes B replicas 0 inner.backends = .ok nodes ∧
      inner' = { inner with ring := B.sortUnstable nodes } := by
  rw [rebuildRing_eq hs] at h
  cases hcollect : collectNodes B replicas 0 inner.backends with
  | error e =>
    rw [hcollect] at h
    cases h
  | ok nodes =>
    rw [hcollect] at h
    exact ⟨nodes, rfl, (Except.ok.inj h).symm⟩

/-- After a rebuild another one changes nothing. -/
theorem rebuildRing_idem {inner inner' : PoolInner} (h : inner.rebuildRing B = .ok inner') :
    inner'.rebuildRing B = .ok inner' := by
  obtain ⟨hbackends, hstrategy⟩ := rebuildRing_frame h
  cases hs : inner.strategy with
  | roundRobin => rw [PoolInner.rebuildRing, hstrategy, hs]
  | consistentHash replicas sticky =>
    have hs' : inner'.strategy = .consistentHash replicas sticky := hstrategy.trans hs
    obtain ⟨nodes, hcollect, rfl⟩ := exists_nodes_of_rebuildRing hs h
    rw [rebuildRing_eq hs', hbackends, hcollect]
    rfl

/-- The nodes that a backend owns after a rebuild. -/
theorem owned_of_rebuildRing {inner inner' : PoolInner} {counter : UInt64}
    (hs : inner.strategy = .consistentHash replicas sticky) (h : inner.rebuildRing B = .ok inner')
    {j : ℕ} {b : Backend} (hb : inner.backends[j]? = some b) :
    owned ⟨inner', counter⟩ j = b.nodeCount replicas % 2 ^ 32 := by
  obtain ⟨nodes, hcollect, rfl⟩ := exists_nodes_of_rebuildRing hs h
  have hcount := count_collectNodes hcollect j
  rw [if_pos (Nat.zero_le j), Nat.sub_zero, hb] at hcount
  exact ((B.sort_perm nodes).countP_eq _).trans hcount

/-- The pool that is left is fresh exactly if the rebuild succeeded. -/
theorem fresh_rebuilt_iff {α : Type} {inner : PoolInner} {result : α} :
    Fresh B (rebuilt B p inner result).2 ↔ ∃ inner', inner.rebuildRing B = .ok inner' := by
  unfold Fresh
  rw [rebuilt]
  cases h : inner.rebuildRing B with
  | error e =>
    refine iff_of_false (fun hfresh => ?_) (fun hok => ?_)
    · cases h.symm.trans hfresh
    · obtain ⟨inner', hinner⟩ := hok
      cases hinner
  | ok inner' => exact iff_of_true (rebuildRing_idem h) ⟨inner', rfl⟩

/-! ## When the weights are honoured -/

/-- A new pool honours the weights if its products fit. -/
theorem consistentHash_weighted_iff (backends : List Backend) :
    (∃ p, consistentHash B backends replicas sticky = .ok p ∧ p.Weighted replicas) ↔
      ∀ b ∈ backends, b.nodeCount replicas < 2 ^ 32 := by
  have hs : PoolInner.strategy ⟨backends, .consistentHash replicas sticky, []⟩ =
      .consistentHash replicas sticky := rfl
  have hiff := exists_rebuildRing_iff (B := B) hs
  unfold consistentHash
  constructor
  · rintro ⟨p, hp, hweighted⟩ b hb
    cases hring : PoolInner.rebuildRing B ⟨backends, .consistentHash replicas sticky, []⟩ with
    | error e =>
      rw [hring] at hp
      cases hp
    | ok inner =>
      rw [hring] at hp
      obtain rfl := Except.ok.inj hp
      obtain ⟨j, hj⟩ := List.mem_iff_getElem?.mp hb
      have hsame := (rebuildRing_frame hring).1
      have hcount := hweighted j b (by rw [← hj]; exact congrArg (·[j]?) hsame)
      rw [owned_of_rebuildRing hs hring hj] at hcount
      rw [← hcount]
      exact Nat.mod_lt _ (by decide)
  · intro hfits
    obtain ⟨inner, hring⟩ := hiff.mpr fun _ => hfits
    refine ⟨⟨inner, 0⟩, by rw [hring]; rfl, fun j b hj => ?_⟩
    rw [(rebuildRing_frame hring).1] at hj
    rw [owned_of_rebuildRing hs hring hj, Nat.mod_eq_of_lt (hfits b (List.mem_of_getElem? hj))]

/-- A backend that is added gets its nodes if its product fits and the ring can be rebuilt. -/
theorem addBackend_honoured_iff (hs : p.inner.strategy = .consistentHash replicas sticky)
    (b : Backend) :
    Fresh B (p.addBackend B b).2 ∧ (p.addBackend B b).2.owned p.len = b.nodeCount replicas ↔
      b.nodeCount replicas < 2 ^ 32 ∧
        (B.overflowChecks = true → ∀ c ∈ p.inner.backends, c.nodeCount replicas < 2 ^ 32) := by
  have hs' : PoolInner.strategy { p.inner with backends := p.inner.backends ++ [b] } =
      .consistentHash replicas sticky := hs
  have hlast : (p.inner.backends ++ [b])[p.len]? = some b := List.getElem?_concat_length
  unfold addBackend
  rw [fresh_rebuilt_iff]
  constructor
  · rintro ⟨⟨inner, hring⟩, howned⟩
    have hfits := (exists_rebuildRing_iff hs').mp ⟨inner, hring⟩
    rw [rebuilt, hring] at howned
    have hmod := (owned_of_rebuildRing hs' hring hlast).symm.trans howned
    refine ⟨?_, fun hchecks c hc => hfits hchecks c (List.mem_append_left _ hc)⟩
    rw [← hmod]
    exact Nat.mod_lt _ (by decide)
  · rintro ⟨hb, hothers⟩
    have hall : B.overflowChecks = true → ∀ c ∈ p.inner.backends ++ [b],
        c.nodeCount replicas < 2 ^ 32 := fun hchecks =>
      List.forall_mem_append.mpr ⟨hothers hchecks, List.forall_mem_singleton.mpr hb⟩
    obtain ⟨inner, hring⟩ := (exists_rebuildRing_iff hs').mpr hall
    refine ⟨⟨inner, hring⟩, ?_⟩
    rw [rebuilt, hring]
    exact (owned_of_rebuildRing hs' hring hlast).trans (Nat.mod_eq_of_lt hb)

/-- The list that a removal leaves is another one if the address was in it. -/
theorem filter_ne_iff (backends : List Backend) (addr : SocketAddr) :
    (backends.filter fun b => b.addr ≠ addr).length < backends.length ↔
      addr ∈ backends.map Backend.addr := by
  rw [← not_iff_not, Nat.not_lt, List.mem_map]
  constructor
  · rintro hle ⟨b, hb, rfl⟩
    have hself := List.filter_sublist.eq_of_length_le hle
    rw [← hself] at hb
    simpa using (List.mem_filter.mp hb).2
  · intro hno
    rw [List.filter_eq_self.mpr fun b hb => by simpa using fun heq => hno ⟨b, hb, heq⟩]

/-- A removal that changes the list leaves the ring of the new list if it can be rebuilt. -/
theorem removeBackend_fresh_iff (hs : p.inner.strategy = .consistentHash replicas sticky)
    (addr : SocketAddr) :
    ((p.removeBackend B addr).2.inner.backends ≠ p.inner.backends →
        Fresh B (p.removeBackend B addr).2) ↔
      (addr ∈ p.backends → B.overflowChecks = true →
        ∀ c ∈ p.inner.backends, c.addr ≠ addr → c.nodeCount replicas < 2 ^ 32) := by
  have hlt := filter_ne_iff p.inner.backends addr
  by_cases hmem : addr ∈ p.backends
  · have hchanged : (p.removeBackend B addr).2.inner.backends ≠ p.inner.backends := by
      intro heq
      rw [removeBackend_backends] at heq
      exact absurd (hlt.mpr hmem) (by rw [heq]; exact lt_irrefl _)
    have hrebuilt : (p.removeBackend B addr).2 = (rebuilt B p { p.inner with
        backends := p.inner.backends.filter fun b => b.addr ≠ addr } true).2 := by
      unfold removeBackend
      dsimp only
      rw [if_pos (hlt.mpr hmem)]
    have hs' : PoolInner.strategy { p.inner with
        backends := p.inner.backends.filter fun b => b.addr ≠ addr } =
          .consistentHash replicas sticky := hs
    rw [imp_iff_right hchanged, imp_iff_right hmem, hrebuilt, fresh_rebuilt_iff,
      exists_rebuildRing_iff hs']
    simp only [List.mem_filter, decide_eq_true_eq, and_imp]
  · refine iff_of_true (fun hchanged => ?_) fun h => absurd h hmem
    rw [removeBackend_of_not_mem (mt hlt.mp hmem)] at hchanged
    exact absurd rfl hchanged

/-- **When the weights are honoured.** A new consistent-hash pool can be built, with as many nodes
for each backend as its weight calls for, exactly if all its products fit in a `u32`. A backend
that is added gets its nodes, in a ring that was rebuilt, exactly if its product fits and, where
the build checks for overflow, those of the others do. A removal that changes the list leaves a
rebuilt ring exactly if, where the build checks for overflow, the products of the backends that
stay fit. Where the weights are honoured, a higher weight means no fewer nodes.

**Proof sketch.** A rebuild collects the products as far as they fit (`count_collectNodes`), unless
the build checks for overflow and one of them does not (`exists_rebuildRing_iff`). -/
theorem weights_honoured_iff (B : Build) (replicas : UInt32) (sticky : StickyKey) :
    (∀ backends : List Backend,
      (∃ p, consistentHash B backends replicas sticky = .ok p ∧ p.Weighted replicas) ↔
        ∀ b ∈ backends, b.nodeCount replicas < 2 ^ 32) ∧
    (∀ (p : BackendPool) (b : Backend), p.inner.strategy = .consistentHash replicas sticky →
      (Fresh B (p.addBackend B b).2 ∧ (p.addBackend B b).2.owned p.len = b.nodeCount replicas ↔
        b.nodeCount replicas < 2 ^ 32 ∧
          (B.overflowChecks = true → ∀ c ∈ p.inner.backends, c.nodeCount replicas < 2 ^ 32))) ∧
    (∀ (p : BackendPool) (addr : SocketAddr),
      p.inner.strategy = .consistentHash replicas sticky →
      (((p.removeBackend B addr).2.inner.backends ≠ p.inner.backends →
          Fresh B (p.removeBackend B addr).2) ↔
        (addr ∈ p.backends → B.overflowChecks = true →
          ∀ c ∈ p.inner.backends, c.addr ≠ addr → c.nodeCount replicas < 2 ^ 32))) ∧
    ∀ (p p' : BackendPool) (j j' : ℕ) (b b' : Backend), p.Weighted replicas →
      p'.Weighted replicas → p.inner.backends[j]? = some b → p'.inner.backends[j']? = some b' →
        b.weight ≤ b'.weight → p.owned j ≤ p'.owned j' := by
  refine ⟨consistentHash_weighted_iff, fun p b hs => addBackend_honoured_iff hs b,
    fun p addr hs => removeBackend_fresh_iff hs addr, ?_⟩
  intro p p' j j' b b' hp hp' hb hb' hle
  rw [hp j b hb, hp' j' b' hb']
  exact Nat.mul_le_mul_left _ hle

/-- A third backend of weight two gets its nodes. -/
theorem weights_honoured_iff_twoBackends :
    (twoBackends.addBackend insertionBuild ((localBackend 8003).withWeight 2)).2.owned 2 = 2 :=
  (((weights_honoured_iff insertionBuild 1 .ip).2.1 twoBackends
    ((localBackend 8003).withWeight 2) rfl).mpr (by decide)).2

/-- A build that does not check for overflow. -/
def wrappingBuild : Build := { insertionBuild with overflowChecks := false }

/-- The weights are not always honoured: a product that wraps may leave no node at all. -/
theorem not_forall_weighted :
    ¬∀ (B : Build) (replicas : UInt32) (sticky : StickyKey) (backends : List Backend),
      (∀ b ∈ backends, 1 ≤ b.weight) →
        ∃ p, consistentHash B backends replicas sticky = .ok p ∧ p.Weighted replicas := by
  intro h
  obtain ⟨p, hp, hweighted⟩ :=
    h wrappingBuild 65536 .ip [(localBackend 8001).withWeight 65536] (by decide)
  have hfits := (consistentHash_weighted_iff _).mp ⟨p, hp, hweighted⟩ _ List.mem_cons_self
  exact absurd hfits (by decide)

end BackendPool

end Synclaire
