import Synclaire.Guard.RateLimiterRun
import Synclaire.Lib.Fifo
import Synclaire.Lib.Transition

set_option relaxedAutoImplicit false
set_option autoImplicit false

/-!
# The entries of the rate limiter's map

The rate limiter keeps the buckets of a bounded number of addresses in two collections: the map,
and the queue that tells which address was inserted first. A call of `get_or_insert` that finds its
address changes neither; another one inserts it into both, after an eviction if there is no room.

## Main definitions

* `Synclaire.BoundedIpMap.getOrInsert?` — a call with its last lookup, which may fail.
* `Synclaire.TrackedIps` — the map beside the log of the insertions.
* `Synclaire.TrackedIps.next` — a call, and what the caller makes of the bucket it is given.
* `Synclaire.TrackedIps.Kept` — the invariant of the sequences of calls.
* `Synclaire.TrackedIps.InsertionOrder` — the queue lists the keys of the map in the order of their
  insertions, and there are not too many.
* `Synclaire.TrackedIps.EvictsEarliest` — what a call gives and changes.

## Main results

* `Synclaire.BoundedIpMap.getOrInsert?_eq` — the last lookup does not fail.
* `Synclaire.TrackedIps.Kept.order_of_gets` — the queue is a bounded first-in first-out cache.
* `Synclaire.TrackedIps.insertionOrder_calls` — the map after any sequence of calls, and one more.
* `Synclaire.RateLimiter.exists_calls_after` — the map of the limiter is such a map.
* `Synclaire.RateLimiter.card_keys_after_le` — the limiter tracks a bounded number of addresses.

## Implementation notes

The bucket is given to the caller as a mutable reference, through which any value may be written
before the next call.
-/

namespace Synclaire

open Transition

namespace BoundedIpMap

/-! ## One call -/

/-- `get_or_insert` with its last lookup. The lookup is `none` where the source has
`unreachable!`. -/
def getOrInsert? (m : BoundedIpMap) (ip : IpAddr) (capacity refill : UInt32) (now : Instant) :
    Option (TokenBucket × BoundedIpMap) :=
  let m :=
    if ip ∉ m.map then
      let m := if m.max ≤ m.map.keys.card then m.evict else m
      { m with map := m.map.insert ip (.new capacity refill now), order := m.order ++ [ip] }
    else m
  (m.map.lookup ip).map fun bucket => (bucket, m)

/-- **The last lookup does not fail**: it finds the address where the first one did, or where it was
inserted in between. -/
theorem getOrInsert?_eq (m : BoundedIpMap) (ip : IpAddr) (capacity refill : UInt32)
    (now : Instant) :
    m.getOrInsert? ip capacity refill now = some (m.getOrInsert ip capacity refill now) := by
  unfold getOrInsert? getOrInsert
  cases hlookup : m.map.lookup ip with
  | some bucket =>
    have hold : ip ∈ m.map := Finmap.mem_of_lookup_eq_some hlookup
    simp only [hold, not_true_eq_false, if_false, hlookup, Option.map_some]
  | none =>
    have hnew : ip ∉ m.map := Finmap.lookup_eq_none.mp hlookup
    simp only [hnew, not_false_eq_true, if_true, Finmap.lookup_insert, Option.map_some]

end BoundedIpMap

/-! ## Sequences of calls -/

/-- A call of `get_or_insert`, and what the caller makes of the bucket it is given. -/
structure IpMapCall where
  ip : IpAddr
  capacity : UInt32
  refill : UInt32
  now : Instant
  use : TokenBucket → TokenBucket

/-- The map beside the log of the insertions, the earliest first. -/
structure TrackedIps where
  perIp : BoundedIpMap
  log : List IpAddr
  deriving DecidableEq

namespace TrackedIps

variable {bound : ℕ} {s : TrackedIps} {ip : IpAddr} {capacity refill : UInt32} {now : Instant}
  {bucket : TokenBucket} {m : BoundedIpMap}

/-- A new map. -/
def new (bound : ℕ) : TrackedIps := ⟨.new bound, []⟩

/-- A call has returned with the map `perIp`. It was an insertion if its address was not there. -/
def returned (s : TrackedIps) (ip : IpAddr) (perIp : BoundedIpMap) : TrackedIps :=
  ⟨perIp, if ip ∈ s.perIp.map then s.log else s.log ++ [ip]⟩

/-- The caller writes to the bucket of the address. -/
def write (s : TrackedIps) (ip : IpAddr) (bucket : TokenBucket) : TrackedIps :=
  { s with perIp := { s.perIp with map := s.perIp.map.insert ip bucket } }

/-- A call, and a write to the bucket it gives. -/
def next (s : TrackedIps) (c : IpMapCall) : Option TrackedIps :=
  (s.perIp.getOrInsert? c.ip c.capacity c.refill c.now).map fun (bucket, perIp) =>
    (s.returned c.ip perIp).write c.ip (c.use bucket)

/-- The queue has the keys of the map, and is the end of the log. -/
structure Kept (bound : ℕ) (s : TrackedIps) : Prop where
  max_eq : s.perIp.max = Max.max 1 bound
  mem_iff : ∀ a, a ∈ s.perIp.order ↔ a ∈ s.perIp.map
  recent : Fifo.Recent (Max.max 1 bound) s.log s.perIp.order

/-- A new map has no keys. -/
theorem kept_new (bound : ℕ) : (new bound).Kept bound where
  max_eq := max_comm bound 1
  mem_iff a := by simp only [new, BoundedIpMap.new, List.not_mem_nil, Finmap.notMem_empty]
  recent := Fifo.recent_nil _

namespace Kept

/-- There are as many keys as entries of the queue. -/
theorem card_keys (h : s.Kept bound) : s.perIp.map.keys.card = s.perIp.order.length := by
  have hkeys : s.perIp.map.keys = s.perIp.order.toFinset := by
    ext a
    rw [Finmap.mem_keys, List.mem_toFinset, h.mem_iff]
  rw [hkeys, List.toFinset_card_of_nodup h.recent.nodup]

/-- There is room for one address. -/
theorem max_pos (h : s.Kept bound) : 0 < s.perIp.max := by
  rw [h.max_eq]
  exact Nat.lt_of_lt_of_le Nat.one_pos (Nat.le_max_left 1 bound)

/-- A full map has an earliest entry. -/
theorem exists_order_eq_cons (h : s.Kept bound)
    (hfull : s.perIp.max ≤ s.perIp.map.keys.card) : ∃ old rest, s.perIp.order = old :: rest := by
  apply List.exists_cons_of_length_pos
  rw [← h.card_keys]
  exact h.max_pos.trans_le hfull

/-- A call does what it can do. -/
theorem gets (h : s.Kept bound) (ip : IpAddr) (capacity refill : UInt32) (now : Instant) :
    s.perIp.Gets ip capacity refill now (s.perIp.getOrInsert ip capacity refill now).1
      (s.perIp.getOrInsert ip capacity refill now).2 :=
  BoundedIpMap.gets_getOrInsert fun _ => h.exists_order_eq_cons

/-- **The queue is a bounded first-in first-out cache**, and a call is a request in it. -/
theorem order_of_gets (h : s.Kept bound) (hgets : s.perIp.Gets ip capacity refill now bucket m) :
    m.order = Fifo.request (Max.max 1 bound) s.perIp.order ip := by
  cases hgets with
  | known hbucket =>
    have hold : ip ∈ s.perIp.order := (h.mem_iff ip).mpr (Finmap.mem_of_lookup_eq_some hbucket)
    rw [Fifo.request_of_mem hold]
  | room hnew hroom =>
    rw [h.card_keys, h.max_eq] at hroom
    rw [Fifo.request_of_room (mt (h.mem_iff ip).mp hnew) hroom]
  | full hnew hfull horder =>
    rw [h.card_keys, h.max_eq] at hfull
    rw [Fifo.request_of_full (mt (h.mem_iff ip).mp hnew) hfull, horder, List.tail_cons]

/-- The queue and the map lose and gain the same addresses. -/
theorem mem_iff_of_gets (h : s.Kept bound)
    (hgets : s.perIp.Gets ip capacity refill now bucket m) (a : IpAddr) :
    a ∈ m.order ↔ a ∈ m.map := by
  cases hgets with
  | known hbucket => exact h.mem_iff a
  | room hnew hroom =>
    rw [List.mem_append, List.mem_singleton, Finmap.mem_insert, h.mem_iff]
    exact or_comm
  | @full old rest hnew hfull horder =>
    have hnodup := h.recent.nodup
    rw [horder, List.nodup_cons] at hnodup
    have hrest : a ∈ rest ↔ a ≠ old ∧ a ∈ s.perIp.map := by
      rw [← h.mem_iff, horder, List.mem_cons]
      constructor
      · intro ha
        exact ⟨fun heq => hnodup.1 (heq ▸ ha), .inr ha⟩
      · intro ⟨hne, ha⟩
        exact ha.resolve_left hne
    rw [List.mem_append, List.mem_singleton, Finmap.mem_insert, Finmap.mem_erase, hrest]
    exact or_comm

/-- **A call keeps the correspondence** of the queue with the map and the log. -/
theorem returned (h : s.Kept bound) (hgets : s.perIp.Gets ip capacity refill now bucket m) :
    (s.returned ip m).Kept bound where
  max_eq := hgets.max_eq.trans h.max_eq
  mem_iff := h.mem_iff_of_gets hgets
  recent := by
    have horder : (s.returned ip m).perIp.order = _ := h.order_of_gets hgets
    rw [horder]
    unfold TrackedIps.returned
    by_cases hold : ip ∈ s.perIp.map
    · rw [if_pos hold, Fifo.request_of_mem ((h.mem_iff ip).mpr hold)]
      exact h.recent
    · rw [if_neg hold]
      exact h.recent.request (h.max_eq ▸ h.max_pos) (mt (h.mem_iff ip).mp hold)

/-- The caller's write keeps the keys. -/
theorem write (h : s.Kept bound) (hip : ip ∈ s.perIp.map) (bucket : TokenBucket) :
    (s.write ip bucket).Kept bound where
  max_eq := h.max_eq
  mem_iff a := by
    show a ∈ s.perIp.order ↔ a ∈ s.perIp.map.insert ip bucket
    rw [← Finmap.mem_keys, FMap.keys_insert_of_mem hip, Finmap.mem_keys]
    exact h.mem_iff a
  recent := h.recent

/-- A call is possible, and it and the caller's write keep the correspondence. -/
theorem exists_next (h : s.Kept bound) (c : IpMapCall) :
    ∃ s', s.next c = some s' ∧ s'.Kept bound := by
  have hgets := h.gets c.ip c.capacity c.refill c.now
  have hpresent := hgets.lookup_ip
  unfold next
  rw [BoundedIpMap.getOrInsert?_eq, Option.map_some]
  exact ⟨_, rfl, (h.returned hgets).write (Finmap.mem_of_lookup_eq_some hpresent) _⟩

/-- The correspondence holds after any sequence of calls. -/
theorem exists_calls (bound : ℕ) (calls : List IpMapCall) :
    ∃ s, calls.foldlM next (new bound) = some s ∧ s.Kept bound :=
  System.exists_foldlM_of_invariant (fun _ c h => h.exists_next c) calls (kept_new bound)

end Kept

/-! ## The order of insertion -/

/-- The queue lists the keys of the map, each once, in the order of their insertions: it is the end
of the log of insertions. There are at most as many as the bound allows. -/
structure InsertionOrder (bound : ℕ) (s : TrackedIps) : Prop where
  mem_iff : ∀ a, a ∈ s.perIp.order ↔ a ∈ s.perIp.map
  nodup : s.perIp.order.Nodup
  eq_rtake : s.perIp.order = s.log.rtake (Max.max 1 bound)
  sorted : s.perIp.order.Pairwise fun a b => Fifo.number s.log a < Fifo.number s.log b
  card : s.perIp.map.keys.card ≤ Max.max 1 bound

/-- A call gives the bucket of its address. It changes nothing if the address is tracked, and
otherwise inserts it; if there is no room, it removes the address that was inserted earliest. No
other entry changes. -/
structure EvictsEarliest (bound : ℕ) (s : TrackedIps) (c : IpMapCall) (bucket : TokenBucket)
    (m : BoundedIpMap) : Prop where
  present : m.map.lookup c.ip = some bucket
  known : c.ip ∈ s.perIp.map → m = s.perIp
  room : c.ip ∉ s.perIp.map → s.perIp.map.keys.card < Max.max 1 bound →
    m.map = s.perIp.map.insert c.ip (.new c.capacity c.refill c.now)
  full : c.ip ∉ s.perIp.map → Max.max 1 bound ≤ s.perIp.map.keys.card →
    ∃ old ∈ s.perIp.map,
      m.map = (s.perIp.map.erase old).insert c.ip (.new c.capacity c.refill c.now) ∧
      ∀ a ∈ s.perIp.map, a ≠ old → Fifo.number s.log old < Fifo.number s.log a

/-- The correspondence of queue, map and log is the order of insertion. -/
theorem Kept.insertionOrder (h : s.Kept bound) : s.InsertionOrder bound where
  mem_iff := h.mem_iff
  nodup := h.recent.nodup
  eq_rtake := h.recent.eq_rtake
  sorted := h.recent.sorted
  card := h.card_keys ▸ h.recent.length_le

/-- The front of the queue is the earliest insertion, so an eviction removes that. -/
theorem Kept.evictsEarliest (h : s.Kept bound) {c : IpMapCall}
    (hgets : s.perIp.Gets c.ip c.capacity c.refill c.now bucket m) :
    s.EvictsEarliest bound c bucket m where
  present := hgets.lookup_ip
  known hold := by
    cases hgets with
    | known hbucket => rfl
    | room hnew hroom => exact absurd hold hnew
    | full hnew hfull horder => exact absurd hold hnew
  room hnew hroom := by
    cases hgets with
    | known hbucket => exact absurd (Finmap.mem_of_lookup_eq_some hbucket) hnew
    | room _ _ => rfl
    | full _ hfull horder =>
      rw [h.max_eq] at hfull
      exact absurd hfull (Nat.not_le.mpr hroom)
  full hnew hfull := by
    cases hgets with
    | known hbucket => exact absurd (Finmap.mem_of_lookup_eq_some hbucket) hnew
    | room _ hroom =>
      rw [h.max_eq] at hroom
      exact absurd hfull (Nat.not_le.mpr hroom)
    | @full old rest _ _ horder =>
      have hrecent := h.recent
      rw [horder] at hrecent
      refine ⟨old, (h.mem_iff old).mp (horder ▸ List.mem_cons_self), rfl, fun a ha hne => ?_⟩
      have hmem := (h.mem_iff a).mpr ha
      rw [horder] at hmem
      exact hrecent.number_head_lt ((List.mem_cons.mp hmem).resolve_left hne)

/-- **The bounded map after any sequence of calls**, for every bound and whatever the callers make
of their buckets: no call of the sequence fails, and the queue lists the keys of the map in the
order of insertion. So it does after one more call, which finds its address, and removes no other
entry than the earliest insertion. -/
theorem insertionOrder_calls (bound : ℕ) (calls : List IpMapCall) :
    ∃ s, calls.foldlM next (new bound) = some s ∧ s.InsertionOrder bound ∧
      ∀ c, ∃ bucket m, s.perIp.getOrInsert? c.ip c.capacity c.refill c.now = some (bucket, m) ∧
        (s.returned c.ip m).InsertionOrder bound ∧ s.EvictsEarliest bound c bucket m := by
  obtain ⟨s, hcalls, h⟩ := Kept.exists_calls bound calls
  refine ⟨s, hcalls, h.insertionOrder, fun c => ?_⟩
  have hgets := h.gets c.ip c.capacity c.refill c.now
  exact ⟨_, _, BoundedIpMap.getOrInsert?_eq _ _ _ _ _, (h.returned hgets).insertionOrder,
    h.evictsEarliest hgets⟩

-- with a bound of zero there is room for one address, which the next one replaces
example :
    let calls := [1, 2, 2, 1].map fun n => IpMapCall.mk (.v4 (ipv4 10 0 0 n)) 5 1 0 id
    (calls.foldlM next (new 0)).map (fun s => (s.perIp.order, s.log)) =
      some ([.v4 (ipv4 10 0 0 1)],
        [.v4 (ipv4 10 0 0 1), .v4 (ipv4 10 0 0 2), .v4 (ipv4 10 0 0 1)]) := by
  decide +kernel

end TrackedIps

/-! ## The limiter -/

namespace RateLimiter

/-- The limiter after a sequence of calls of `allow`. -/
def after (g : RateLimiter) (calls : List AllowCall) : RateLimiter :=
  calls.foldl (fun g c => (g.allow c.ip c.now).2) g

/-- `allow` calls `get_or_insert` once at most, and uses the bucket. -/
theorem perIp_allow (g : RateLimiter) (ip : IpAddr) (now : Instant) {s : TrackedIps}
    (hs : s.perIp = g.perIp) : (g.allow ip now).2.perIp = g.perIp ∨
      ∃ c s', s.next c = some s' ∧ s'.perIp = (g.allow ip now).2.perIp := by
  have huse : ∀ use : TokenBucket → TokenBucket, ∃ c s', s.next c = some s' ∧
      s'.perIp = g.stored ip now (use (g.bucketOf ip now).1) := by
    intro use
    refine ⟨⟨ip, g.config.perIpCapacity, g.config.perIpRefillPerSecond, now, use⟩,
      (s.returned ip (g.bucketOf ip now).2).write ip (use (g.bucketOf ip now).1), ?_, rfl⟩
    unfold TrackedIps.next
    rw [BoundedIpMap.getOrInsert?_eq, Option.map_some, hs]
    rfl
  rcases (g.allows_allow ip now).perIp_cases with ⟨-, heq⟩ | ⟨-, heq⟩ | ⟨-, heq⟩
  · exact .inl heq
  · rw [heq]
    exact .inr (huse fun b => b.refill now)
  · rw [heq]
    exact .inr (huse fun b => (b.refill now).spend)

/-- **What the limiter tracks comes from a sequence of calls of `get_or_insert`**, whatever it is
asked. -/
theorem exists_calls_after (g : RateLimiter) (calls : List AllowCall) {s : TrackedIps}
    (hs : s.perIp = g.perIp) :
    ∃ (ipCalls : List IpMapCall) (s' : TrackedIps),
      ipCalls.foldlM TrackedIps.next s = some s' ∧ s'.perIp = (g.after calls).perIp := by
  induction calls generalizing g s with
  | nil => exact ⟨[], s, rfl, hs⟩
  | cons c calls ih =>
    rcases g.perIp_allow c.ip c.now hs with heq | ⟨call, t, hnext, ht⟩
    · exact ih (g.allow c.ip c.now).2 (hs.trans heq.symm)
    · obtain ⟨ipCalls, s', hcalls, hs'⟩ := ih (g.allow c.ip c.now).2 ht
      refine ⟨call :: ipCalls, s', ?_, hs'⟩
      rw [List.foldlM_cons, hnext]
      exact hcalls

/-- **The memory bound of the limiter**: however many addresses call, it tracks no more than
configured, or one. -/
theorem card_keys_after_le (config : RateLimiterConfig) (start : Instant)
    (calls : List AllowCall) :
    ((new config start).after calls).perIp.map.keys.card ≤ Max.max 1 config.maxTrackedIps := by
  obtain ⟨ipCalls, s, hcalls, hs⟩ := exists_calls_after (new config start) calls
    (s := .new config.maxTrackedIps) rfl
  obtain ⟨t, ht, hkept⟩ := TrackedIps.Kept.exists_calls config.maxTrackedIps ipCalls
  obtain rfl := Option.some.inj (hcalls.symm.trans ht)
  rw [← hs]
  exact hkept.insertionOrder.card

end RateLimiter

end Synclaire
