import Synclaire.LoadBalancer.Ring

set_option relaxedAutoImplicit false
set_option autoImplicit false

/-!
# Consistent hashing does not depend on history

The ring of a pool holds positions in a list whose order tells how the pool came about, and the
sort may order equal hashes as it likes. The labelled points of the ring tell neither, so two
pools with the same backends send every peer to the same one.

## Main results

* `Synclaire.points_eq_of_perm` — the labelled points do not depend on the order of the
  backends.
* `Synclaire.BackendPool.select_of_perm` — pools with the same backends select alike, and with
  sticky addresses peers with one IP address are sent to one backend.
-/

namespace Synclaire

variable {replicas : UInt32} {sticky : StickyKey}

/-- The labelled points do not depend on the order of the backends. -/
theorem points_eq_of_perm {bs cs : List Backend} (h : bs.Perm cs) :
    points replicas bs = points replicas cs :=
  Set.Subset.antisymm (points_mono h.subset) (points_mono h.symm.subset)

/-- Backends with positive weights have points. -/
theorem points_ne_empty {bs : List Backend} (hreplicas : 1 ≤ replicas.toNat)
    (hweight : ∀ b ∈ bs, 1 ≤ b.weight.toNat) (hne : bs ≠ []) : points replicas bs ≠ ∅ := by
  obtain ⟨b, hb⟩ := List.exists_mem_of_ne_nil bs hne
  have hcount : 0 < b.nodeCount replicas :=
    Nat.mul_pos hreplicas (hweight b hb)
  exact Set.Nonempty.ne_empty ⟨_, b, hb, 0, hcount, rfl⟩

namespace BackendPool

variable {p p' : BackendPool}

/-- Overflow does not depend on the order of the backends. -/
theorem NoOverflow.of_perm (h : p.NoOverflow) (hs : p'.inner.strategy = p.inner.strategy)
    (hperm : p.inner.backends.Perm p'.inner.backends) : p'.NoOverflow :=
  fun replicas sticky hs' b hb => h replicas sticky (hs.symm.trans hs') b (hperm.mem_iff.mpr hb)

/-- Between right rings of the same backends, peers with one key are sent to one backend.

**Proof sketch.** Without backends both pools return nothing. Otherwise their labelled points
are the same and not empty, so both answers serve the key on the same circle, and serving labels
are unique. -/
theorem select_eq_of_perm (h : RingOk replicas sticky p) (h' : RingOk replicas sticky p')
    (hc : p.NoCollision) (hperm : p.inner.backends.Perm p'.inner.backends)
    (hreplicas : 1 ≤ replicas.toNat) (hweight : ∀ b ∈ p.inner.backends, 1 ≤ b.weight.toNat)
    {peer peer' : SocketAddr} (hkey : keyHash sticky peer = keyHash sticky peer') :
    (p.select peer).1 = (p'.select peer').1 := by
  obtain ⟨hnone, -, hserve⟩ := select_spec h peer
  obtain ⟨hnone', -, hserve'⟩ := select_spec h' peer'
  have hpoints : points replicas p.inner.backends = points replicas p'.inner.backends :=
    points_eq_of_perm hperm
  by_cases hne : p.inner.backends = []
  · have hne' : p'.inner.backends = [] := by
      rw [hne] at hperm
      exact List.nil_perm.mp hperm
    rw [hnone hne, hnone' hne']
  · have hpos := points_ne_empty hreplicas hweight hne
    obtain ⟨a, ha, hserves⟩ := hserve hpos
    obtain ⟨a', ha', hserves'⟩ := hserve' (hpoints ▸ hpos)
    rw [← hpoints, ← hkey] at hserves'
    obtain rfl := hserves.unique (hc.noTie h.strategy) hserves'
    exact ha.trans ha'.symm

/-- **Selection does not depend on history.** Two reachable consistent-hash pools, of any
builds, with the same parameters and the same backends, counted with their weights, send every
peer to the same backend if nothing overflows and no two addresses share a hash; with sticky IP
addresses so do they with any two peers of one address. -/
theorem select_of_perm {B B' : Build} (hr : (system B).Reach p) (hr' : (system B').Reach p')
    (hs : p.inner.strategy = .consistentHash replicas sticky)
    (hs' : p'.inner.strategy = .consistentHash replicas sticky) (hreplicas : 1 ≤ replicas.toNat)
    (hperm : p.inner.backends.Perm p'.inner.backends)
    (hweight : ∀ b ∈ p.inner.backends, 1 ≤ b.weight.toNat) (hno : p.NoOverflow)
    (hc : p.NoCollision) :
    (∀ peer, (p.select peer).1 = (p'.select peer).1) ∧
    (sticky = .ip → ∀ peer peer' : SocketAddr, peer.ip = peer'.ip →
      (p.select peer).1 = (p'.select peer').1) := by
  have h : RingOk replicas sticky p :=
    (ringExact_of_reach (reach_pools hr) replicas sticky hs hno).ringOk
  have hno' : p'.NoOverflow := hno.of_perm (hs'.trans hs.symm) hperm
  have h' : RingOk replicas sticky p' :=
    (ringExact_of_reach (reach_pools hr') replicas sticky hs' hno').ringOk
  refine ⟨fun peer => select_eq_of_perm h h' hc hperm hreplicas hweight rfl, ?_⟩
  rintro rfl peer peer' hip
  refine select_eq_of_perm h h' hc hperm hreplicas hweight ?_
  rw [keyHash, keyHash, hashAddrIp, hashAddrIp, hip]

/-- The two backends in the other order. -/
def twoBackendsReversed : BackendPool where
  inner := ⟨[localBackend 8002, localBackend 8001], .consistentHash 1 .ip,
    [⟨nodeHash (localBackend 8002).addr 0, 0⟩, ⟨nodeHash (localBackend 8001).addr 0, 1⟩]⟩
  rrCounter := 0

/-- Both send the peers of `1.2.3.4` to the same backend, from any port. -/
theorem select_of_perm_two_backends :
    (twoBackends.select (.v4 (ipv4 1 2 3 4) 1000)).1 =
      (twoBackendsReversed.select (.v4 (ipv4 1 2 3 4) 2000)).1 := by
  have hreach : (system insertionBuild).Reach twoBackends :=
    .init ⟨[localBackend 8001, localBackend 8002], 1, .ip, by decide +kernel⟩
  have hreach' : (system insertionBuild).Reach twoBackendsReversed :=
    .init ⟨[localBackend 8002, localBackend 8001], 1, .ip, by decide +kernel⟩
  exact (select_of_perm hreach hreach' rfl rfl (by decide) (.swap _ _ _) (by decide)
    twoBackends_noOverflow twoBackends_noCollision).2 rfl (.v4 (ipv4 1 2 3 4) 1000)
    (.v4 (ipv4 1 2 3 4) 2000) rfl

end BackendPool

end Synclaire
