import Synclaire.LoadBalancer.Representation

set_option relaxedAutoImplicit false
set_option autoImplicit false

/-!
# Consistent hashing disturbs as little as possible

The ring is a sorted list of nodes that point into the list of backends. Seen from outside it
is a set of labelled points, a hash and the address it belongs to, and `select` returns the
label that serves the key of the peer. Adding a backend adds points, removing an address takes
its points away, and neither touches the rest.

## Main definitions

* `Synclaire.BackendPool.NoCollision` — no hash is shared by two addresses.
* `Synclaire.BackendPool.RingOk` — the nodes of the ring are those its backends call for.
* `Synclaire.points` — the labelled points of a list of backends.

## Main results

* `Synclaire.BackendPool.ringOk_of_reach` — reachable pools without overflow have the right
  ring.
* `Synclaire.BackendPool.select_spec` — what `select` returns, by the labelled points.
* `Synclaire.BackendPool.minimal_disruption` — adding moves peers only to the new backend,
  removing moves only the peers of the removed one.
-/

namespace Synclaire

variable {B : Build} {replicas : UInt32} {sticky : StickyKey}

/-! ## Points of the circle -/

/-- The labelled points of a list of backends. -/
def points (replicas : UInt32) (backends : List Backend) : Set (ℕ × SocketAddr) :=
  { x | ∃ b ∈ backends, ∃ i < b.nodeCount replicas, x = ((nodeHash b.addr i).toNat, b.addr) }

/-- The points of two lists are those of either. -/
theorem points_append (bs cs : List Backend) :
    points replicas (bs ++ cs) = points replicas bs ∪ points replicas cs := by
  ext x
  simp only [points, List.mem_append, or_and_right, exists_or, Set.mem_ofPred_eq, Set.mem_union]

/-- More backends have more points. -/
theorem points_mono {bs cs : List Backend} (h : bs ⊆ cs) :
    points replicas bs ⊆ points replicas cs := by
  rintro x ⟨b, hb, i, hi, rfl⟩
  exact ⟨b, h hb, i, hi, rfl⟩

/-- A label is the address of one of the backends. -/
theorem exists_of_mem_points {bs : List Backend} {x : ℕ} {a : SocketAddr}
    (h : (x, a) ∈ points replicas bs) : ∃ b ∈ bs, b.addr = a := by
  obtain ⟨b, hb, i, _, heq⟩ := h
  exact ⟨b, hb, (congrArg Prod.snd heq).symm⟩

/-- Removing an address keeps the points of every other one. -/
theorem mem_points_filter {bs : List Backend} {x : ℕ} {a removed : SocketAddr}
    (h : (x, a) ∈ points replicas bs) (ha : a ≠ removed) :
    (x, a) ∈ points replicas (bs.filter fun b => b.addr ≠ removed) := by
  obtain ⟨b, hb, i, hi, heq⟩ := h
  obtain ⟨rfl, rfl⟩ := Prod.mk.inj heq
  exact ⟨b, List.mem_filter.mpr ⟨hb, by simpa using ha⟩, i, hi, rfl⟩

namespace BackendPool

variable {p : BackendPool}

/-! ## The invariant -/

/-- No two virtual nodes of different backend addresses have the same hash. -/
def NoCollision (p : BackendPool) : Prop :=
  ∀ replicas sticky, p.inner.strategy = .consistentHash replicas sticky →
    ∀ b ∈ p.inner.backends, ∀ c ∈ p.inner.backends, b.addr ≠ c.addr →
      ∀ i < b.nodeCount replicas, ∀ j < c.nodeCount replicas,
        nodeHash b.addr i ≠ nodeHash c.addr j

/-- The pool hashes with these parameters, and its ring is the sorted list of the virtual
nodes of its backends. -/
structure RingOk (replicas : UInt32) (sticky : StickyKey) (p : BackendPool) : Prop where
  strategy : p.inner.strategy = .consistentHash replicas sticky
  sorted : p.inner.ring.Pairwise fun a b => a.hash.toNat ≤ b.hash.toNat
  mem_iff : ∀ node, node ∈ p.inner.ring ↔
    ∃ j b, p.inner.backends[j]? = some b ∧ ∃ i < b.nodeCount replicas,
      node = ⟨nodeHash b.addr i, j⟩

/-- An exact ring has the right nodes. -/
theorem RingExact.ringOk (h : RingExact replicas sticky p) : RingOk replicas sticky p :=
  ⟨h.strategy, h.sorted, h.mem_iff⟩

/-- Without collisions no point of the circle carries two addresses. -/
theorem NoCollision.noTie (h : p.NoCollision)
    (hs : p.inner.strategy = .consistentHash replicas sticky) :
    Circle.NoTie (points replicas p.inner.backends) := by
  rintro x a a' ⟨b, hb, i, hi, heq⟩ ⟨c, hc, j, hj, heq'⟩
  obtain ⟨rfl, rfl⟩ := Prod.mk.inj heq
  obtain ⟨hx, rfl⟩ := Prod.mk.inj heq'
  by_contra hne
  exact h replicas sticky hs b hb c hc hne i hi j hj (UInt64.toNat_inj.mp hx)

/-! ## Reachable pools -/

/-- The consistent-hash pools, from any list of backends. -/
def system (B : Build) : Transition.System BackendPool Op where
  init p := ∃ backends replicas sticky, consistentHash B backends replicas sticky = .ok p
  step p op p' := p' = p.after B op

/-- What every reachable pool satisfies: it hashes, and as long as nothing in it overflows its
ring is right. An overflowing backend may have panicked a rebuild or wrapped its product, but
the ring is rebuilt when it goes. -/
def Inv (p : BackendPool) : Prop :=
  ∃ replicas sticky, p.inner.strategy = .consistentHash replicas sticky ∧
    (p.NoOverflow → RingOk replicas sticky p)

/-- The consistent-hash pools are among those of either strategy. -/
theorem reach_pools (h : (system B).Reach p) : (pools B).Reach p := by
  refine Transition.System.Reach.invariant (I := (pools B).Reach) ?_ ?_ h
  · exact fun _ hinit => .init (.inr hinit)
  · exact fun _ _ _ _ hI hstep => .step hI hstep

/-- A consistent-hash pool stays one. -/
theorem exists_strategy_of_reach (h : (system B).Reach p) :
    ∃ replicas sticky, p.inner.strategy = .consistentHash replicas sticky := by
  refine Transition.System.Reach.invariant (I := fun p : BackendPool =>
    ∃ replicas sticky, p.inner.strategy = .consistentHash replicas sticky) ?_ ?_ h
  · rintro p ⟨backends, replicas, sticky, h⟩
    cases hr : PoolInner.rebuildRing B ⟨backends, .consistentHash replicas sticky, []⟩ with
    | error e => rw [consistentHash, hr] at h; cases h
    | ok inner =>
      rw [consistentHash, hr] at h
      obtain rfl := Except.ok.inj h
      exact ⟨replicas, sticky, (rebuildRing_frame hr).2⟩
  · rintro p op _ - ⟨replicas, sticky, hs⟩ rfl
    refine ⟨replicas, sticky, ?_⟩
    cases op <;> simp [after, hs, select_inner]

/-- **Reachable pools without overflow have the right ring.** -/
theorem ringOk_of_reach (h : (system B).Reach p) : Inv p := by
  obtain ⟨replicas, sticky, hs⟩ := exists_strategy_of_reach h
  have hexact := ringExact_of_reach (reach_pools h)
  exact ⟨replicas, sticky, hs, fun hno => (hexact _ _ hs hno).ringOk⟩

/-! ## What `select` returns -/

/-- The hashes on the ring are the points of the circle. -/
theorem RingOk.fst_image_points (h : RingOk replicas sticky p) :
    Prod.fst '' points replicas p.inner.backends =
      { x | ∃ node ∈ p.inner.ring, node.hash.toNat = x } := by
  ext x
  constructor
  · rintro ⟨_, ⟨b, hb, i, hi, rfl⟩, rfl⟩
    obtain ⟨j, hj⟩ := List.mem_iff_getElem?.mp hb
    exact ⟨⟨nodeHash b.addr i, j⟩, (h.mem_iff _).mpr ⟨j, b, hj, i, hi, rfl⟩, rfl⟩
  · rintro ⟨node, hnode, rfl⟩
    obtain ⟨j, b, hj, i, hi, rfl⟩ := (h.mem_iff node).mp hnode
    exact ⟨_, ⟨b, List.mem_of_getElem? hj, i, hi, rfl⟩, rfl⟩

/-- The ring is empty exactly when there are no points. -/
theorem RingOk.ring_eq_nil_iff (h : RingOk replicas sticky p) :
    p.inner.ring = [] ↔ points replicas p.inner.backends = ∅ := by
  have himage := h.fst_image_points
  constructor
  · intro hnil
    rw [hnil] at himage
    simpa using himage
  · intro hempty
    rw [hempty, Set.image_empty] at himage
    rw [List.eq_nil_iff_forall_not_mem]
    intro node hnode
    have hmem : node.hash.toNat ∈ (∅ : Set ℕ) := himage ▸ ⟨node, hnode, rfl⟩
    exact hmem

/-- The lookup in a ring with nodes returns the address that serves the key. -/
theorem RingOk.lookup_spec (h : RingOk replicas sticky p) (hne : p.inner.ring ≠ [])
    (key : UInt64) : ∃ a, p.lookup key = .ok (some a) ∧
      Circle.Serves (points replicas p.inner.backends) key.toNat a := by
  have hidx : ∀ node ∈ p.inner.ring, ∃ b, p.inner.backends[node.backendIdx]? = some b := by
    intro node hnode
    obtain ⟨j, b, hj, i, -, rfl⟩ := (h.mem_iff node).mp hnode
    exact ⟨b, hj⟩
  obtain ⟨node, hnode, b, hb, hlookup, hsucc⟩ := lookup_cases h.sorted hidx hne key
  refine ⟨b.addr, hlookup, node.hash.toNat, by rwa [h.fst_image_points], ?_⟩
  obtain ⟨j, c, hj, i, hi, rfl⟩ := (h.mem_iff node).mp hnode
  obtain rfl := Option.some.inj (hj.symm.trans hb)
  exact ⟨c, List.mem_of_getElem? hj, i, hi, rfl⟩

/-- **What `select` returns**: nothing without backends, the first backend without points, and
otherwise the address that serves the key of the peer. -/
theorem select_spec (h : RingOk replicas sticky p) (peer : SocketAddr) :
    (p.inner.backends = [] → (p.select peer).1 = .ok none) ∧
    (∀ b rest, p.inner.backends = b :: rest → points replicas p.inner.backends = ∅ →
      (p.select peer).1 = .ok (some b.addr)) ∧
    (points replicas p.inner.backends ≠ ∅ → ∃ a, (p.select peer).1 = .ok (some a) ∧
      Circle.Serves (points replicas p.inner.backends) (keyHash sticky peer).toNat a) := by
  refine ⟨?_, ?_, ?_⟩
  · intro hnil
    rw [select, if_pos hnil]
  · intro b rest hcons hempty
    have hne : p.inner.backends ≠ [] := by simp [hcons]
    rw [select, if_neg hne, h.strategy]
    dsimp only
    rw [if_pos (h.ring_eq_nil_iff.mpr hempty), addrAt, hcons]
    rfl
  · intro hpoints
    have hring : p.inner.ring ≠ [] := fun hnil => hpoints (h.ring_eq_nil_iff.mp hnil)
    have hne : p.inner.backends ≠ [] := by
      intro hnil
      exact hpoints (by simp [points, hnil])
    rw [select, if_neg hne, h.strategy]
    dsimp only
    rw [if_neg hring]
    exact h.lookup_spec hring _

/-! ## Minimal disruption -/

/-- Between right rings, adding a backend moves a peer only to that backend.

**Proof sketch.** If the circle with the new points is empty, the first backend is returned
before and after. Otherwise the new answer serves the key on the union of the old points and
those of the new backend; an answer among the old points already served there, and serving
labels are unique. -/
theorem select_add {p' : BackendPool} (h : RingOk replicas sticky p)
    (h' : RingOk replicas sticky p') (hc : p.NoCollision) {b : Backend}
    (hbackends : p'.inner.backends = p.inner.backends ++ [b]) (peer : SocketAddr) :
    (p'.select peer).1 = (p.select peer).1 ∨ (p'.select peer).1 = .ok (some b.addr) := by
  obtain ⟨-, hfirst, hserve⟩ := select_spec h peer
  obtain ⟨-, hfirst', hserve'⟩ := select_spec h' peer
  have hpoints : points replicas p'.inner.backends =
      points replicas p.inner.backends ∪ points replicas [b] := by
    rw [hbackends, points_append]
  by_cases hempty' : points replicas p'.inner.backends = ∅
  · have hempty : points replicas p.inner.backends = ∅ := by
      rw [hpoints] at hempty'
      exact (Set.union_empty_iff.mp hempty').1
    cases hbs : p.inner.backends with
    | nil =>
      rw [hbs] at hbackends
      exact .inr (hfirst' b [] hbackends hempty')
    | cons c rest =>
      rw [hbs] at hbackends
      refine .inl ?_
      rw [hfirst c rest hbs hempty, hfirst' c (rest ++ [b]) hbackends hempty']
  · obtain ⟨a', ha', hserves'⟩ := hserve' hempty'
    rw [hpoints] at hserves'
    rcases hserves'.of_union with hold | ⟨x, hx⟩
    · have hne : points replicas p.inner.backends ≠ ∅ := by
        obtain ⟨x, _, hx⟩ := hold
        exact Set.Nonempty.ne_empty ⟨_, hx⟩
      obtain ⟨a, ha, hserves⟩ := hserve hne
      obtain rfl := hold.unique (hc.noTie h.strategy) hserves
      exact .inl (ha'.trans ha.symm)
    · obtain ⟨c, hcb, rfl⟩ := exists_of_mem_points hx
      obtain rfl := List.mem_singleton.mp hcb
      exact .inr ha'

/-- Between right rings, removing an address moves only the peers it served.

**Proof sketch.** On an empty circle the first backend is returned, and it stays first unless
its address is removed. Otherwise the address that serves the key keeps all its points, so it
serves on what is left, and serving labels are unique. -/
theorem select_remove {p' : BackendPool} (h : RingOk replicas sticky p)
    (h' : RingOk replicas sticky p') (hc : p.NoCollision) {a : SocketAddr}
    (hbackends : p'.inner.backends = p.inner.backends.filter fun b => b.addr ≠ a)
    {peer : SocketAddr} (hne : (p.select peer).1 ≠ .ok (some a)) :
    (p'.select peer).1 = (p.select peer).1 := by
  obtain ⟨hnone, hfirst, hserve⟩ := select_spec h peer
  obtain ⟨hnone', hfirst', hserve'⟩ := select_spec h' peer
  have hsub : points replicas p'.inner.backends ⊆ points replicas p.inner.backends := by
    rw [hbackends]
    exact points_mono (List.filter_subset_self _)
  by_cases hempty : points replicas p.inner.backends = ∅
  · have hempty' : points replicas p'.inner.backends = ∅ :=
      Set.subset_empty_iff.mp (hempty ▸ hsub)
    cases hbs : p.inner.backends with
    | nil =>
      rw [hbs] at hbackends
      rw [hnone hbs, hnone' hbackends]
    | cons c rest =>
      have hc : c.addr ≠ a := by
        rintro rfl
        exact hne (hfirst c rest hbs hempty)
      rw [hbs, List.filter_cons_of_pos (by simpa using hc)] at hbackends
      rw [hfirst c rest hbs hempty, hfirst' c _ hbackends hempty']
  · obtain ⟨s, hs, hserves⟩ := hserve hempty
    have hsa : s ≠ a := by
      rintro rfl
      exact hne hs
    have hserves' : Circle.Serves (points replicas p'.inner.backends)
        (keyHash sticky peer).toNat s := by
      refine hserves.subset hsub fun x hx => ?_
      rw [hbackends]
      exact mem_points_filter hx hsa
    have hne' : points replicas p'.inner.backends ≠ ∅ := by
      obtain ⟨x, _, hx⟩ := hserves'
      exact Set.Nonempty.ne_empty ⟨_, hx⟩
    obtain ⟨s', hs', hserves''⟩ := hserve' hne'
    obtain rfl := hserves''.unique ((hc.noTie h.strategy).mono hsub) hserves'
    exact hs'.trans hs.symm

/-- **Minimal disruption.** In a reachable consistent-hash pool without collisions, adding a
backend leaves every peer where it was or moves it to the new backend, and removing an address
leaves every peer where it was that was not served by that address. The sort may order equal
hashes as it likes, and checked and wrapping builds agree as long as nothing overflows. -/
theorem minimal_disruption (B : Build) {p : BackendPool} (hr : (system B).Reach p)
    (hc : p.NoCollision) (peer : SocketAddr) :
    (∀ b, (p.addBackend B b).2.NoOverflow →
      ((p.addBackend B b).2.select peer).1 = (p.select peer).1 ∨
      ((p.addBackend B b).2.select peer).1 = .ok (some b.addr)) ∧
    (∀ a, p.NoOverflow → (p.select peer).1 ≠ .ok (some a) →
      ((p.removeBackend B a).2.select peer).1 = (p.select peer).1) := by
  obtain ⟨replicas, sticky, hs, hok⟩ := ringOk_of_reach hr
  constructor
  · intro b hno
    have hbackends := addBackend_backends (B := B) (p := p) b
    have hs' := addBackend_strategy (B := B) (p := p) b
    have hno' : p.NoOverflow := fun r s h c hcb =>
      hno r s (hs'.trans h) c (by rw [hbackends]; exact List.mem_append_left _ hcb)
    have h' : RingOk replicas sticky (p.addBackend B b).2 :=
      RingExact.ringOk <| ringExact_rebuilt hs fun c hcb =>
        hno replicas sticky (hs'.trans hs) c (by rw [hbackends]; exact hcb)
    exact select_add (hok hno') h' hc hbackends peer
  · intro a hno hne
    have h : RingOk replicas sticky (p.removeBackend B a).2 := by
      obtain ⟨_, _, hs', hok'⟩ := ringOk_of_reach (.step (l := .remove a) hr rfl)
      obtain ⟨rfl, rfl⟩ : replicas = _ ∧ sticky = _ := by
        simpa using hs.symm.trans ((removeBackend_strategy (B := B) (p := p) a).symm.trans hs')
      refine hok' fun r s hrs c hcb => ?_
      have hcb : c ∈ p.inner.backends.filter fun b => b.addr ≠ a := by
        rwa [after, removeBackend_backends] at hcb
      exact hno r s ((removeBackend_strategy a).symm.trans hrs) c (List.mem_of_mem_filter hcb)
    exact select_remove (hok hno) h hc (removeBackend_backends a) hne

/-- No two virtual nodes of the pool collide. -/
theorem twoBackends_noCollision : twoBackends.NoCollision := by
  intro replicas sticky h
  obtain ⟨rfl, rfl⟩ := LoadBalancerStrategy.consistentHash.inj h
  decide +kernel

/-- A peer whose key is above all nodes moves from the second backend to a third one with a
still lower hash, and stays at the second when the first is removed. -/
theorem minimal_disruption_two_backends :
    (((twoBackends.addBackend insertionBuild (localBackend 8003)).2.select
        (.v4 (ipv4 1 2 3 4) 1000)).1 = (twoBackends.select (.v4 (ipv4 1 2 3 4) 1000)).1 ∨
      ((twoBackends.addBackend insertionBuild (localBackend 8003)).2.select
        (.v4 (ipv4 1 2 3 4) 1000)).1 = .ok (some (localBackend 8003).addr)) ∧
    ((twoBackends.removeBackend insertionBuild (localBackend 8001).addr).2.select
      (.v4 (ipv4 1 2 3 4) 1000)).1 = (twoBackends.select (.v4 (ipv4 1 2 3 4) 1000)).1 := by
  have hreach : (system insertionBuild).Reach twoBackends :=
    .init ⟨[localBackend 8001, localBackend 8002], 1, .ip, by decide +kernel⟩
  have hdisruption := minimal_disruption insertionBuild hreach twoBackends_noCollision
    (.v4 (ipv4 1 2 3 4) 1000)
  refine ⟨hdisruption.1 (localBackend 8003) ?_, hdisruption.2 (localBackend 8001).addr ?_ ?_⟩
  · intro replicas sticky h
    rw [addBackend_strategy] at h
    obtain ⟨rfl, rfl⟩ := LoadBalancerStrategy.consistentHash.inj h
    rw [addBackend_backends]
    decide +kernel
  · exact twoBackends_noOverflow
  · decide +kernel

end BackendPool

end Synclaire
