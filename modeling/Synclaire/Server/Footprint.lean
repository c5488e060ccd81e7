import Synclaire.Guard.SlowLorisRun
import Synclaire.Guard.StackLive
import Synclaire.Guard.SynGuardBounds
import Synclaire.Server.Drain

set_option relaxedAutoImplicit false
set_option autoImplicit false

/-!
# What the guards of a server remember

Three guards keep entries about single connections: the throttle its slots, the half-open guard its
half-open connections and the addresses that are established, the guard against slow clients the
times of the last activity. In a server every one of these entries belongs to a reservation that
the guard accepted and that was not closed yet, so the entries are gone when the connections are.

A session that shows a payload after its close would leave an entry behind, and so would one that
is closed while it is marked established. A server does neither: whoever gives up a `Connection`
has no way to its session any more.

## Main definitions

* `Synclaire.BuiltinGuard.Remembers` — how the entries of a guard belong to its live reservations.
* `Synclaire.BuiltinGuard.footprint` — how many entries a guard has for an address.
* `Synclaire.BuiltinGuard.Cleared` — a guard without entries.
* `Synclaire.ServerState.servedSystem` — the stack of a server, as it runs in a server.

## Main results

* `Synclaire.liveKept_remembers` — callbacks keep the relation.
* `Synclaire.ServerState.guards_forget` — the entries of a server's guards belong to the
  connections it has.

## Implementation notes

The buckets of the rate limiter outlive their connections on purpose, and are not counted here.
-/

namespace Synclaire

/-! ## Entries and live reservations -/

/-- The peer address of a context has its IP address. -/
def GuardContext.SameIp (ctx : GuardContext) : Prop := ctx.peerIp = ctx.peerAddr.ip

/-- Addresses of live reservations are no more than the reservations, for each IP address. -/
theorem card_filter_ip_le {addrs : Finset SocketAddr} {L : Multiset GuardContext}
    (hL : ∀ ctx ∈ L, ctx.SameIp) (haddrs : ∀ a ∈ addrs, ∃ ctx ∈ L, ctx.peerAddr = a)
    (ip : IpAddr) :
    (addrs.filter fun a => a.ip = ip).card ≤ L.countP (fun ctx => ofIp ip ctx = true) := by
  have hsub : addrs.filter (fun a => a.ip = ip) ⊆
      ((L.filter fun ctx => ofIp ip ctx = true).map GuardContext.peerAddr).toFinset := by
    intro a ha
    obtain ⟨hmem, hip⟩ := Finset.mem_filter.mp ha
    obtain ⟨ctx, hctx, rfl⟩ := haddrs a hmem
    have hsame : ofIp ip ctx = true := decide_eq_true ((hL ctx hctx).trans hip)
    exact Multiset.mem_toFinset.mpr (Multiset.mem_map_of_mem _ (Multiset.mem_filter.mpr
      ⟨hctx, hsame⟩))
  calc (addrs.filter fun a => a.ip = ip).card
      ≤ ((L.filter fun ctx => ofIp ip ctx = true).map GuardContext.peerAddr).toFinset.card :=
        Finset.card_le_card hsub
    _ ≤ ((L.filter fun ctx => ofIp ip ctx = true).map GuardContext.peerAddr).card :=
        Multiset.toFinset_card_le _
    _ = L.countP (fun ctx => ofIp ip ctx = true) := by
        rw [Multiset.card_map, ← Multiset.countP_eq_card_filter]

/-- A close takes one reservation of its address. -/
theorem countP_erase_ofIp {L : Multiset GuardContext} {ctx : GuardContext} (hctx : ctx ∈ L)
    (ip : IpAddr) :
    (L.erase ctx).countP (fun c => ofIp ip c = true) + (if ctx.peerIp = ip then 1 else 0) =
      L.countP (fun c => ofIp ip c = true) := by
  obtain ⟨rest, rfl⟩ := Multiset.exists_cons_of_mem hctx
  rw [Multiset.erase_cons_head, Multiset.countP_cons]
  simp [ofIp]

/-- The addresses other than that of the closed reservation are still live. -/
theorem exists_mem_erase {L : Multiset GuardContext} {ctx : GuardContext} {a : SocketAddr}
    (hne : a ≠ ctx.peerAddr) (h : ∃ c ∈ L, c.peerAddr = a) :
    ∃ c ∈ L.erase ctx, c.peerAddr = a := by
  obtain ⟨c, hc, rfl⟩ := h
  have hctx : c ≠ ctx := fun heq => hne (congrArg GuardContext.peerAddr heq)
  exact ⟨c, (Multiset.mem_erase_of_ne hctx).mpr hc, rfl⟩

/-! ## The half-open guard -/

namespace SynGuard

variable {config : SynGuardConfig} {state : HalfOpenState} {L : Multiset GuardContext}

/-- The half-open guard counts a live reservation for each connection that it takes for half-open
or remembers as established. -/
structure Remembers (config : SynGuardConfig) (state : HalfOpenState)
    (L : Multiset GuardContext) : Prop where
  bounds : Bounds config state
  known : ∀ ctx ∈ L, ctx.SameIp
  established : ∀ a ∈ state.established, ∃ ctx ∈ L, ctx.peerAddr = a
  counted : ∀ ip, countOf state ip + (state.established.filter fun a => a.ip = ip).card ≤
    L.countP (fun ctx => ofIp ip ctx = true)

/-- An eviction counts no more for any address. -/
theorem countOf_evict_le (state : HalfOpenState) (a : IpAddr) :
    countOf (evictOldestTrackedIp state) a ≤ countOf state a := by
  rcases evictLoop_cases state.ipOrder state with ⟨rest, he⟩ | ⟨ip, count, rest, hl, he⟩
  · rw [evictOldestTrackedIp, he]
    exact le_rfl
  · rw [evictOldestTrackedIp, he]
    unfold countOf
    rw [FMap.lookup_erase_eq_ite]
    split_ifs <;> simp

/-- A granted reservation counts at most one more for its address. -/
theorem countOf_reserve_le {ip : IpAddr} {now : Instant}
    (h : (reserve config state ip now).1 = .ok ()) (a : IpAddr) :
    countOf (reserve config state ip now).2 a ≤
      countOf state a + if ip = a then 1 else 0 := by
  obtain ⟨evicted, hev, heq⟩ := reserve_ok h
  have hle : countOf evicted a ≤ countOf state a := by
    rcases hev with rfl | ⟨-, -, rfl⟩
    · exact le_rfl
    · exact countOf_evict_le state a
  rw [heq]
  unfold countOf at hle ⊢
  rw [track_perIp, FMap.lookup_insert_eq_ite]
  by_cases ha : a = ip
  · subst ha
    simp
  · rw [if_neg ha]
    exact hle.trans (Nat.le_add_right _ _)

/-- The decrement takes one from the count of its address. -/
theorem countOf_settleOne (config : SynGuardConfig) (state : HalfOpenState) (ip a : IpAddr) :
    countOf (settleOne config state ip) a = countOf state a - if ip = a then 1 else 0 := by
  unfold countOf
  rw [settleOne_lookup]
  unfold countOf
  by_cases ha : a = ip
  · subst ha
    simp only [true_and, if_true]
    split_ifs with hle
    · rw [Option.getD_none]
      omega
    · rw [Option.getD_some]
  · simp [ha, Ne.symm ha]

/-- **A granted reservation is live.** -/
theorem Remembers.reserve (hmax : config.maxTrackedIps ≤ usizeMax) (h : Remembers config state L)
    {ctx : GuardContext} {now : Instant} (hctx : ctx.SameIp)
    (hr : (SynGuard.reserve config state ctx.peerIp now).1 = .ok ()) :
    Remembers config (SynGuard.reserve config state ctx.peerIp now).2 (ctx ::ₘ L) where
  bounds := h.bounds.reserve hmax _ _
  known c hc := (Multiset.mem_cons.mp hc).elim (fun heq => heq ▸ hctx) (h.known c)
  established a ha := by
    rw [reserve_established] at ha
    obtain ⟨c, hc, rfl⟩ := h.established a ha
    exact ⟨c, Multiset.mem_cons_of_mem hc, rfl⟩
  counted ip := by
    have hcount := countOf_reserve_le hr ip
    have hold := h.counted ip
    rw [reserve_established, Multiset.countP_cons]
    simp only [ofIp, decide_eq_true_eq] at hold ⊢
    omega

/-- **A live connection that is established** is not half-open any more, or it was not counted.

**Proof sketch.** The count of its address goes down by one and the address joins the established
ones. If nothing was counted, the established addresses alone are live ones. -/
theorem Remembers.establish (hmax : config.maxTrackedIps ≤ usizeMax) (h : Remembers config state L)
    {ctx : GuardContext} (hctx : ctx ∈ L) :
    Remembers config (SynGuard.establish config state ctx.peerAddr) L := by
  have hest : ∀ a ∈ insert ctx.peerAddr state.established, ∃ c ∈ L, c.peerAddr = a := by
    intro a ha
    rcases Finset.mem_insert.mp ha with rfl | ha
    · exact ⟨ctx, hctx, rfl⟩
    · exact h.established a ha
  have hestablished : (SynGuard.establish config state ctx.peerAddr).established =
      insert ctx.peerAddr state.established := by
    simp [SynGuard.establish]
  refine ⟨(h.bounds.settleOne hmax _).of_established _, h.known, ?_, fun ip => ?_⟩
  · rw [hestablished]
    exact hest
  · have hold := h.counted ip
    have hcard := card_filter_ip_le h.known hest ip
    have hcount : countOf (SynGuard.establish config state ctx.peerAddr) ip =
        countOf state ip - if ctx.peerAddr.ip = ip then 1 else 0 :=
      countOf_settleOne config state ctx.peerAddr.ip ip
    have hinsert : ((insert ctx.peerAddr state.established).filter fun a => a.ip = ip).card ≤
        (state.established.filter fun a => a.ip = ip).card +
          if ctx.peerAddr.ip = ip then 1 else 0 := by
      rw [Finset.filter_insert]
      split_ifs
      · exact Finset.card_insert_le _ _
      · exact le_rfl
    rw [hestablished, hcount]
    omega

/-- **A live reservation that is closed** is forgotten, as established or as half-open.

**Proof sketch.** Either an established address leaves, or the count of the address goes down by
one. If nothing was counted, the established addresses are those of the reservations that are still
live. -/
theorem Remembers.close (hmax : config.maxTrackedIps ≤ usizeMax) (h : Remembers config state L)
    {ctx : GuardContext} (hctx : ctx ∈ L) :
    Remembers config (SynGuard.close config state ctx.peerAddr) (L.erase ctx) := by
  have hsame : ctx.peerIp = ctx.peerAddr.ip := h.known ctx hctx
  have hknown : ∀ c ∈ L.erase ctx, c.SameIp := fun c hc => h.known c (Multiset.mem_of_mem_erase hc)
  unfold SynGuard.close
  split_ifs with hmem
  · refine ⟨h.bounds.of_established _, hknown, fun a ha => ?_, fun ip => ?_⟩
    · obtain ⟨hne, ha⟩ := Finset.mem_erase.mp ha
      exact exists_mem_erase hne (h.established a ha)
    · have hold := h.counted ip
      have herase := countP_erase_ofIp hctx ip
      have hfilter : ((state.established.erase ctx.peerAddr).filter fun a => a.ip = ip).card +
          (if ctx.peerIp = ip then 1 else 0) =
          (state.established.filter fun a => a.ip = ip).card := by
        rw [Finset.filter_erase]
        split_ifs with hip
        · exact Finset.card_erase_add_one (Finset.mem_filter.mpr ⟨hmem, hsame ▸ hip⟩)
        · rw [Finset.erase_eq_of_notMem, Nat.add_zero]
          exact fun hin => hip (hsame.trans (Finset.mem_filter.mp hin).2)
      have hcount : countOf { state with established := state.established.erase ctx.peerAddr } ip =
          countOf state ip := rfl
      rw [hcount]
      show countOf state ip +
        ((state.established.erase ctx.peerAddr).filter fun a => a.ip = ip).card ≤ _
      omega
  · have hest : ∀ a ∈ state.established, ∃ c ∈ L.erase ctx, c.peerAddr = a := fun a ha =>
      exists_mem_erase (fun heq => hmem (heq ▸ ha)) (h.established a ha)
    refine ⟨h.bounds.settleOne hmax _, hknown, ?_, fun ip => ?_⟩
    · rw [settleOne_established]
      exact hest
    · have hold := h.counted ip
      have herase := countP_erase_ofIp hctx ip
      have hcard := card_filter_ip_le hknown hest ip
      rw [settleOne_established, countOf_settleOne, ← hsame]
      omega

/-- With no live reservation nothing is counted and nothing is remembered. -/
theorem Remembers.cleared (h : Remembers config state 0) :
    state.total = 0 ∧ state.perIp = ∅ ∧ state.startedAt = ∅ ∧ state.established = ∅ := by
  have hperIp : state.perIp = ∅ := by
    refine Finmap.ext_lookup fun ip => ?_
    have hcounted := h.counted ip
    rw [Multiset.countP_zero] at hcounted
    cases hl : state.perIp.lookup ip with
    | none => rfl
    | some count =>
      have hpos := (h.bounds.counts ip count hl).1
      rw [countOf, hl, Option.getD_some] at hcounted
      omega
  have hkeys : state.startedAt.keys = ∅ := by
    rw [h.bounds.sameKeys, hperIp]
    rfl
  refine ⟨?_, hperIp, ?_, ?_⟩
  · have hsum := h.bounds.total_le_sum
    rw [hperIp, FMap.sum_eq_total, FMap.total_empty] at hsum
    omega
  · refine Finmap.ext_lookup fun ip => ?_
    rw [Finmap.lookup_empty]
    exact Finmap.lookup_eq_none.mpr fun hip => by simp [← Finmap.mem_keys, hkeys] at hip
  · refine Finset.eq_empty_of_forall_notMem fun a ha => ?_
    obtain ⟨ctx, hctx, -⟩ := h.established a ha
    exact Multiset.notMem_zero ctx hctx

end SynGuard

/-! ## The guards of a stack -/

namespace BuiltinGuard

/-- The entries of a guard belong to the live reservations `L`. Nobody bans an address in a
server. -/
def Remembers : BuiltinGuard → Multiset GuardContext → Prop
  | .ipBan g, _ => g.banned = ∅
  | .throttle g, L => g.NoZeroEntry ∧ g.global = L.card ∧
      ∀ ip, g.heldBy ip = L.countP (fun ctx => ofIp ip ctx = true)
  | .synGuard g, L => g.config.maxTrackedIps ≤ usizeMax ∧ SynGuard.Remembers g.config g.state L
  | .slowLoris g, L => (∀ ctx ∈ L, ctx.SameIp) ∧
      ∀ a ∈ g.lastActivity.map.keys, ∃ ctx ∈ L, ctx.peerAddr = a
  | _, _ => True

/-- The entries a guard has for an address. -/
def footprint (ip : IpAddr) : BuiltinGuard → ℕ
  | .throttle g => g.heldBy ip
  | .synGuard g =>
    SynGuard.countOf g.state ip + (g.state.established.filter fun a => a.ip = ip).card
  | .slowLoris g => (g.lastActivity.map.keys.filter fun a => a.ip = ip).card
  | _ => 0

/-- A guard has no entry. A throttle with a cap of zero keeps the addresses it refused. -/
def Cleared : BuiltinGuard → Prop
  | .ipBan g => g.banned = ∅
  | .throttle g => g.global = 0 ∧ (∀ ip, g.heldBy ip = 0) ∧
      (0 < g.config.maxConnectionsPerIp → g.perIp = ∅)
  | .synGuard g => g.state.total = 0 ∧ g.state.perIp = ∅ ∧ g.state.startedAt = ∅ ∧
      g.state.established = ∅
  | .slowLoris g => g.lastActivity.map = ∅
  | _ => True

/-- The entries of a guard are no more than its live reservations, for each address. -/
theorem Remembers.footprint_le {g : BuiltinGuard} {L : Multiset GuardContext}
    (h : g.Remembers L) (ip : IpAddr) :
    g.footprint ip ≤ L.countP (fun ctx => ofIp ip ctx = true) := by
  cases g with
  | throttle g => exact (h.2.2 ip).le
  | synGuard g => exact h.2.counted ip
  | slowLoris g => exact card_filter_ip_le h.1 h.2 ip
  | _ => exact Nat.zero_le _

/-- A guard without live reservations has no entry. -/
theorem Remembers.cleared {g : BuiltinGuard} (h : g.Remembers 0) : g.Cleared := by
  cases g with
  | ipBan g => exact h
  | throttle g =>
    obtain ⟨hzero, hglobal, hheld⟩ := h
    refine ⟨hglobal, hheld, fun hcap => Finmap.ext_lookup fun ip => ?_⟩
    have hnone := hheld ip
    have hne := hzero.resolve_left (by omega) ip
    rw [Throttle.heldBy, Multiset.countP_zero] at hnone
    cases hl : g.perIp.lookup ip with
    | none => rfl
    | some count =>
      rw [hl, Option.getD_some] at hnone
      rw [hl, hnone] at hne
      exact absurd rfl hne
  | synGuard g => exact h.2.cleared
  | slowLoris g =>
    refine Finmap.ext_lookup fun a => ?_
    rw [Finmap.lookup_empty]
    refine Finmap.lookup_eq_none.mpr fun ha => ?_
    obtain ⟨ctx, hctx, -⟩ := h.2 a (Finmap.mem_keys.mpr ha)
    exact Multiset.notMem_zero ctx hctx
  | _ => trivial

end BuiltinGuard

/-- A note about a connection adds no other. -/
theorem mem_keys_note {m : BoundedActivityMap} {addr a : SocketAddr} {now : Instant}
    (h : a ∈ (m.note addr now).map.keys) : a = addr ∨ a ∈ m.map.keys := by
  obtain ⟨e, he⟩ := Finmap.mem_iff.mp (Finmap.mem_keys.mp h)
  have hold := (BoundedActivityMap.note_shape m addr now).2.2.2 a e he
  rw [FMap.lookup_insert_eq_ite] at hold
  split_ifs at hold with ha
  · exact .inl ha
  · exact .inr (Finmap.mem_keys.mpr (Finmap.mem_iff.mpr ⟨e, hold⟩))

/-- A note about a live connection keeps the entries live. -/
theorem exists_of_mem_keys_note {m : BoundedActivityMap} {L : Multiset GuardContext}
    (h : ∀ a ∈ m.map.keys, ∃ c ∈ L, c.peerAddr = a) {ctx : GuardContext} (hctx : ctx ∈ L)
    (now : Instant) : ∀ a ∈ (m.note ctx.peerAddr now).map.keys, ∃ c ∈ L, c.peerAddr = a := by
  intro a ha
  rcases mem_keys_note ha with rfl | ha
  · exact ⟨ctx, hctx, rfl⟩
  · exact h a ha

/-- **Callbacks keep what a guard remembers among its live reservations.** -/
theorem liveKept_remembers :
    StackState.LiveKept GuardContext.SameIp BuiltinGuard.Remembers where
  onReserveOk g L ctx now h hctx hr := by
    cases g with
    | throttle g =>
      obtain ⟨hzero, hglobal, hheld⟩ := h
      have hok : (g.acquire ctx.peerIp).1 = .ok () := hr
      refine ⟨hzero.acquire ctx.peerIp, ?_, fun ip => ?_⟩
      · show (g.acquire ctx.peerIp).2.global = _
        rw [Throttle.acquire_ok hok, Multiset.card_cons, ← hglobal]
      · show (g.acquire ctx.peerIp).2.heldBy ip = _
        rw [Throttle.acquire_ok_heldBy hok, Multiset.countP_cons, hheld]
        simp [ofIp, eq_comm]
    | synGuard g => exact ⟨h.1, h.2.reserve h.1 hctx hr⟩
    | slowLoris g =>
      refine ⟨fun c hc => (Multiset.mem_cons.mp hc).elim (fun heq => heq ▸ hctx) (h.1 c), ?_⟩
      exact exists_of_mem_keys_note
        (fun a ha => (h.2 a ha).imp fun c hc => ⟨Multiset.mem_cons_of_mem hc.1, hc.2⟩)
        (Multiset.mem_cons_self ctx L) now
    | _ => exact h
  onReserveError g L ctx now err h hr := by
    cases g with
    | throttle g =>
      have herr : (g.acquire ctx.peerIp).1 = .error err := hr
      obtain ⟨hglobal, hheld⟩ := Throttle.acquire_error_counts herr
      exact ⟨h.1.acquire ctx.peerIp, hglobal.trans h.2.1, fun ip => (hheld ip).trans (h.2.2 ip)⟩
    | synGuard g =>
      have herr : (SynGuard.reserve g.config g.state ctx.peerIp now).1 = .error err := hr
      show _ ∧ SynGuard.Remembers g.config (SynGuard.reserve g.config g.state ctx.peerIp now).2 L
      rw [SynGuard.reserve_error herr]
      exact h
    | slowLoris g => cases hr
    | _ => exact h
  onEstablished g L ctx now h hctx := by
    cases g with
    | synGuard g => exact ⟨h.1, h.2.establish h.1 hctx⟩
    | _ => exact h
  onPayload g L ctx bytes now h hctx := by
    cases g with
    | slowLoris g => exact ⟨h.1, exists_of_mem_keys_note h.2 hctx now⟩
    | _ => exact h
  onActivity g L ctx now h hctx := by
    cases g with
    | slowLoris g =>
      show BuiltinGuard.Remembers (.slowLoris (g.onActivity ctx now).2) L
      unfold SlowLoris.onActivity
      split
      · exact ⟨h.1, exists_of_mem_keys_note h.2 hctx now⟩
      · exact h
      · exact h
    | _ => exact h
  onClose g L ctx now h hctx := by
    cases g with
    | throttle g =>
      obtain ⟨hzero, hglobal, hheld⟩ := h
      refine ⟨hzero.release ctx.peerIp, ?_, fun ip => ?_⟩
      · show (g.release ctx.peerIp).global = _
        rw [Throttle.release_global, hglobal, Multiset.card_erase_of_mem hctx]
        rfl
      · have herase := countP_erase_ofIp hctx ip
        show (g.release ctx.peerIp).heldBy ip = _
        rw [Throttle.release_heldBy, hheld]
        simp only [eq_comm (a := ip)]
        omega
    | synGuard g => exact ⟨h.1, h.2.close h.1 hctx⟩
    | slowLoris g =>
      refine ⟨fun c hc => h.1 c (Multiset.mem_of_mem_erase hc), fun a ha => ?_⟩
      have hmem : a ∈ (g.lastActivity.map.erase ctx.peerAddr).keys := by
        rw [← (BoundedActivityMap.remove_shape g.lastActivity ctx.peerAddr).2.2.2]
        exact ha
      rw [Finmap.keys_erase] at hmem
      obtain ⟨hne, hold⟩ := Finset.mem_erase.mp hmem
      exact exists_mem_erase hne (h.2 a hold)
    | _ => exact h

namespace ServerState

variable {flavor : ServerFlavor} {config : GuardStackConfig} {start : Instant}
  {s s' : ServerState} {a : ServerAction}

/-- The stack of a server, as it runs in a server. -/
def servedSystem (config : GuardStackConfig) (start : Instant) :
    Transition.System (StackState BuiltinGuard) (StackAction BuiltinGuard) :=
  (StackState.system (buildGuardStack config start) fun _ _ => False).restrict
    fun _ action _ => action.Serves GuardContext.SameIp

/-- The step of the stack that belongs to a step of a server. -/
theorem stack_serves (h : s.next flavor a = some s') :
    s'.stack = s.stack ∨ ∃ action, s.stack.next action = some s'.stack ∧
      (∀ i g, action ≠ .env i g) ∧ action.Serves GuardContext.SameIp := by
  by_cases haccept : ∃ peer localAddr tls now, a = .accept peer localAddr tls now
  · obtain ⟨peer, localAddr, tls, now, rfl⟩ := haccept
    rw [next] at h
    split_ifs at h
    obtain ⟨stack, hstack, rfl⟩ := Option.map_eq_some_iff.mp h
    refine .inr ⟨_, hstack, by simp, by simp, fun ctx hctx => ?_⟩
    cases hctx
    rfl
  by_cases hadvance : ∃ c now, a = .advance c now
  · obtain ⟨c, now, rfl⟩ := hadvance
    obtain ⟨stack, hstack, rfl⟩ := Option.map_eq_some_iff.mp h
    exact .inr ⟨_, hstack, by simp, by simp, by simp⟩
  obtain ⟨k, old, action, new, hold, hover, hdone⟩ := exists_handover h
    (fun peer localAddr tls now heq => haccept ⟨peer, localAddr, tls, now, heq⟩)
    fun c now heq => hadvance ⟨c, now, heq⟩
  cases action with
  | none =>
    obtain rfl := hdone
    exact .inl rfl
  | some action =>
    obtain ⟨stack, hstack, rfl⟩ := hdone
    obtain ⟨call, hbegins, hclose, -⟩ := hover.begins
    refine .inr ⟨action, hstack, hover.action_ne.2.2.1, fun k' hk' => ?_, fun ctx hctx => ?_⟩
    · subst hk'
      cases hbegins
      exact hclose rfl
    · exact absurd ⟨ctx, hctx⟩ hover.action_ne.1

/-- The stack of a server runs so. -/
theorem reach_served (h : (serverSystem flavor config start).Reach s) :
    (servedSystem config start).Reach s.stack := by
  refine Transition.System.Reach.invariant
    (I := fun s : ServerState => (servedSystem config start).Reach s.stack) ?_ ?_ h
  · rintro _ rfl
    exact .init rfl
  · intro s a s' _ hI hstep
    rcases stack_serves hstep with heq | ⟨action, hstack, henv, hserves⟩
    · rw [heq]
      exact hI
    · exact .step hI ⟨⟨hstack, fun i g hi => absurd hi (henv i g)⟩, hserves⟩

/-- A new guard remembers nothing. -/
theorem remembers_of_mem_build
    (hsyn : ∀ c, config.synGuard = some c → c.maxTrackedIps ≤ usizeMax) {g : BuiltinGuard}
    (hg : g ∈ (buildGuardStack config start).guards) : g.Remembers 0 := by
  have hnew : (∃ c, g = .rateLimiter (.new c start)) ∨ (∃ c, g = .ipBan (.new c)) ∨
      (∃ c, g = .throttle (.new c)) ∨
      (∃ c, config.synGuard = some c ∧ g = .synGuard (.new c)) ∨
      (∃ c, g = .slowLoris (.new c)) ∨ ∃ c, g = .udpAmplification ⟨c⟩ := by
    simp only [buildGuardStack, List.mem_append, List.mem_map, Option.mem_toList] at hg
    rcases hg with ((((⟨c, -, rfl⟩ | ⟨c, -, rfl⟩) | ⟨c, -, rfl⟩) | ⟨c, hc, rfl⟩) | ⟨c, -, rfl⟩) |
      ⟨c, -, rfl⟩
    · exact .inl ⟨c, rfl⟩
    · exact .inr (.inl ⟨c, rfl⟩)
    · exact .inr (.inr (.inl ⟨c, rfl⟩))
    · exact .inr (.inr (.inr (.inl ⟨c, hc, rfl⟩)))
    · exact .inr (.inr (.inr (.inr (.inl ⟨c, rfl⟩))))
    · exact .inr (.inr (.inr (.inr (.inr ⟨c, rfl⟩))))
  rcases hnew with ⟨c, rfl⟩ | ⟨c, rfl⟩ | ⟨c, rfl⟩ | ⟨c, hc, rfl⟩ | ⟨c, rfl⟩ | ⟨c, rfl⟩
  · trivial
  · rfl
  · exact ⟨.inr fun ip => by simp [Throttle.new], rfl, fun ip => by
      simp [Throttle.heldBy, Throttle.new]⟩
  · refine ⟨hsyn c hc, SynGuard.bounds_empty c, by simp, by simp [SynGuard.new],
      fun ip => ?_⟩
    simp [SynGuard.countOf, SynGuard.new]
  · exact ⟨by simp, by simp [SlowLoris.new, BoundedActivityMap.new]⟩
  · trivial

/-- **The entries of the guards of a server belong to its connections.** In every reachable state a
guard has no more entries for an address than it has accepted reservations of the address and not
been closed for. Whenever no call of the stack is in progress these are the connections that are
kept, and when the server is drained no guard has an entry.

**Proof sketch.** Callbacks keep the entries of a guard among its live reservations
(`liveKept_remembers`), as the stack of a server closes sessions by their drops alone. The live
reservations are those accepted and not closed, next to an idle stack those of the open sessions,
and these are kept. -/
theorem guards_forget (hsyn : ∀ c, config.synGuard = some c → c.maxTrackedIps ≤ usizeMax)
    (h : (serverSystem flavor config start).Reach s) {j : ℕ} {g : BuiltinGuard}
    (hg : s.stack.guards[j]? = some g) :
    (∀ ip, s.stack.closes (ofIp ip) j + g.footprint ip ≤ s.stack.accepted (ofIp ip) j) ∧
      (s.stack.Idle → ∀ ip, g.footprint ip ≤ s.kept (ofIp ip)) ∧ (s.Drained → g.Cleared) := by
  have hstack := reach_served h
  have hbal := StackState.ledger hstack.of_restrict
  have hj := (List.getElem?_eq_some_iff.mp hg).1
  have hlen := StackState.length_guards_of_reach hstack.of_restrict
  obtain ⟨g₀, h0⟩ : ∃ g₀, (buildGuardStack config start).guards[j]? = some g₀ :=
    ⟨_, List.getElem?_eq_getElem (hlen ▸ hj)⟩
  have hremembers := liveKept_remembers.of_reach (fun _ _ _ hfalse _ => hfalse.elim) h0
    (remembers_of_mem_build hsyn (List.mem_of_getElem? h0)) hstack g hg
  have hlive := StackState.countP_live hbal hj
  have hkept : s.stack.Idle → ∀ P : GuardContext → Bool,
      (s.stack.live j).countP (fun ctx => P ctx = true) = s.kept P := by
    intro hidle P
    rw [hlive, hidle.owing_eq_zero, (housed_of_reach h).openSessions_eq_kept, Nat.add_zero]
  refine ⟨fun ip => ?_, fun hidle ip => ?_, fun hdrained => ?_⟩
  · have hfootprint := hremembers.footprint_le ip
    have hbooks := hbal (ofIp ip) j hj
    rw [hlive] at hfootprint
    omega
  · exact (hremembers.footprint_le ip).trans_eq (hkept hidle (ofIp ip))
  · have hzero : s.stack.live j = 0 := by
      refine Multiset.card_eq_zero.mp ?_
      have hcount := hkept hdrained.2 fun _ => true
      rw [hdrained.kept_eq_zero] at hcount
      simpa using hcount
    rw [hzero] at hremembers
    exact hremembers.cleared

/-- Three guards that keep entries. -/
def entriesConfig : GuardStackConfig where
  throttle := some {}
  synGuard := some {}
  slowLoris := some {}

/-- A connection of `10.0.0.1` is handled next to three guards, with the calls `c` and `c + 1` of
the stack, as session `k`. -/
def handledRun (port : UInt16) (c k : ℕ) : List ServerAction :=
  [.accept (.v4 (ipv4 10 0 0 1) port) none false 0] ++ List.replicate 4 (.advance c 0) ++
    [.opened k] ++ List.replicate 4 (.advance (c + 1) 0) ++ [.established k]

/-- Of two connections the first one gives up its `Connection`, and the second one writes. -/
def entriesState : ServerState :=
  Transition.System.after (next .async) (ServerState.start entriesConfig 0)
    (handledRun 1001 0 0 ++ [.intoStream 0] ++ List.replicate 4 (.advance 2 0) ++
      handledRun 1002 3 1 ++ [.write 1] ++ List.replicate 4 (.advance 5 0))

/-- The half-open guard remembers the second connection, and no other. -/
theorem guards_forget_entriesState :
    ∃ g, entriesState.stack.guards[1]? = some g ∧
      g.footprint (.v4 (ipv4 10 0 0 1)) = 1 ∧
      ∀ ip, g.footprint ip ≤ entriesState.kept (ofIp ip) := by
  have hreach : (serverSystem .async entriesConfig 0).Reach entriesState :=
    Transition.System.reach_after (.init rfl) fun _ _ _ _ hnext => hnext
  have hsyn : ∀ c, entriesConfig.synGuard = some c → c.maxTrackedIps ≤ usizeMax := by
    intro c hc
    obtain rfl := Option.some.inj hc
    decide
  have hg : entriesState.stack.guards[1]? =
      some (entriesState.stack.guards.get ⟨1, by decide +kernel⟩) :=
    List.getElem?_eq_getElem (by decide +kernel)
  exact ⟨_, hg, by decide +kernel,
    (guards_forget hsyn hreach hg).2.1 (by unfold StackState.Idle; decide +kernel)⟩

end ServerState

end Synclaire
