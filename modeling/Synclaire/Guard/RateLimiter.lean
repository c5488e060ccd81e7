import Mathlib.Algebra.Order.Ring.Rat
import Synclaire.Lib.FMap
import Synclaire.Guard.Basic

set_option relaxedAutoImplicit false
set_option autoImplicit false

/-!
# The rate limiter

A connection passes three gates: a sliding window over all accepted attempts, a token bucket
for all addresses together, and a token bucket for its own address. The buckets of a bounded
number of addresses are kept, the earliest inserted one is evicted first.

## Main definitions

* `Synclaire.TokenBucket` — a bucket that refills with time.
* `Synclaire.BoundedIpMap` — the buckets of the tracked addresses.
* `Synclaire.BoundedIpMap.Gets` — what a call of `get_or_insert` can do.
* `Synclaire.RateLimiter` — the guard, with `allowGlobalWindow` and `allow`.
* `Synclaire.RateLimiter.Admits` — the three gates as a predicate.
* `Synclaire.RateLimiter.Aged` — a later state of an untouched limiter.

## Main results

* `Synclaire.BoundedIpMap.gets_getOrInsert` — `get_or_insert` does what it can do.
* `Synclaire.RateLimiter.allow_isOk_iff` — `allow` succeeds when all gates are open.
* `Synclaire.RateLimiter.not_aged_allow` — a successful `allow` is not the passing of time.

## Implementation notes

Tokens are exact rationals where the source has `f64`. The readings of the clock within one
`allow` are taken to be the same.
-/

namespace Synclaire

/-- `RateLimiterConfig`. -/
structure RateLimiterConfig where
  perIpCapacity : UInt32 := 100
  perIpRefillPerSecond : UInt32 := 20
  globalCapacity : UInt32 := 1000
  globalRefillPerSecond : UInt32 := 200
  globalWindow : Duration := .fromSecs 10
  globalWindowLimit : ℕ := 5000
  maxTrackedIps : ℕ := 100000
  deriving DecidableEq

/-! ## Token buckets -/

/-- `TokenBucket`. -/
structure TokenBucket where
  capacity : UInt32
  refillPerSecond : UInt32
  tokens : ℚ
  lastRefill : Instant
  deriving DecidableEq

namespace TokenBucket

/-- `TokenBucket::new`: a full bucket. -/
def new (capacity refillPerSecond : UInt32) (now : Instant) : TokenBucket :=
  ⟨capacity, refillPerSecond, capacity.toNat, now⟩

/-- The refill with which `TokenBucket::allow` begins. -/
def refill (b : TokenBucket) (now : Instant) : TokenBucket :=
  let elapsed : ℚ := (now.durationSince b.lastRefill : ℚ) / 10 ^ 9
  { b with
    lastRefill := now
    tokens := min (b.tokens + elapsed * b.refillPerSecond.toNat) b.capacity.toNat }

/-- `TokenBucket::allow`. -/
def allow (b : TokenBucket) (now : Instant) : Bool × TokenBucket :=
  let b := b.refill now
  if 1 ≤ b.tokens then (true, { b with tokens := b.tokens - 1 }) else (false, b)

end TokenBucket

/-! ## The tracked addresses -/

/-- `BoundedIpMap`. -/
structure BoundedIpMap where
  map : FMap IpAddr TokenBucket
  order : List IpAddr
  max : ℕ
  deriving DecidableEq

namespace BoundedIpMap

/-- `BoundedIpMap::new`. -/
def new (bound : ℕ) : BoundedIpMap := ⟨∅, [], Max.max bound 1⟩

/-- The eviction of `get_or_insert`: the front of the order goes. -/
def evict (m : BoundedIpMap) : BoundedIpMap :=
  match m.order with
  | [] => m
  | old :: rest => { m with map := m.map.erase old, order := rest }

/-- `BoundedIpMap::get_or_insert`: the bucket of the address and the map that holds it. -/
def getOrInsert (m : BoundedIpMap) (ip : IpAddr) (capacity refill : UInt32) (now : Instant) :
    TokenBucket × BoundedIpMap :=
  match m.map.lookup ip with
  | some bucket => (bucket, m)
  | none =>
    let m := if m.max ≤ m.map.keys.card then m.evict else m
    let bucket := TokenBucket.new capacity refill now
    (bucket, { m with map := m.map.insert ip bucket, order := m.order ++ [ip] })

/-- What a call can do: the bucket it gives, and the map after it. -/
inductive Gets (m : BoundedIpMap) (ip : IpAddr) (capacity refill : UInt32) (now : Instant) :
    TokenBucket → BoundedIpMap → Prop
  /-- The address is tracked. -/
  | known {bucket : TokenBucket} (hbucket : m.map.lookup ip = some bucket) :
      Gets m ip capacity refill now bucket m
  /-- A new address finds room. -/
  | room (hnew : ip ∉ m.map) (hroom : m.map.keys.card < m.max) :
      Gets m ip capacity refill now (.new capacity refill now)
        { m with
          map := m.map.insert ip (.new capacity refill now)
          order := m.order ++ [ip] }
  /-- The front of the order leaves for a new address. -/
  | full {old : IpAddr} {rest : List IpAddr} (hnew : ip ∉ m.map)
      (hfull : m.max ≤ m.map.keys.card) (horder : m.order = old :: rest) :
      Gets m ip capacity refill now (.new capacity refill now)
        { m with
          map := (m.map.erase old).insert ip (.new capacity refill now)
          order := rest ++ [ip] }

section Gets

variable {m m' : BoundedIpMap} {ip : IpAddr} {capacity refill : UInt32} {now : Instant}
  {bucket : TokenBucket}

/-- `get_or_insert` does one of these things, if there is somebody to evict where it has to. -/
theorem gets_getOrInsert
    (hfront : ip ∉ m.map → m.max ≤ m.map.keys.card → ∃ old rest, m.order = old :: rest) :
    m.Gets ip capacity refill now (m.getOrInsert ip capacity refill now).1
      (m.getOrInsert ip capacity refill now).2 := by
  unfold getOrInsert
  cases hlookup : m.map.lookup ip with
  | some bucket => exact .known hlookup
  | none =>
    have hnew : ip ∉ m.map := Finmap.lookup_eq_none.mp hlookup
    by_cases hfull : m.max ≤ m.map.keys.card
    · obtain ⟨old, rest, horder⟩ := hfront hnew hfull
      have h : m.Gets ip capacity refill now _ _ := .full hnew hfull horder
      simpa only [hfull, if_true, evict, horder] using h
    · have h : m.Gets ip capacity refill now _ _ := .room hnew (Nat.not_le.mp hfull)
      simpa only [hfull, if_false] using h

/-- A call gives the bucket that is now the entry of its address. -/
theorem Gets.lookup_ip (h : m.Gets ip capacity refill now bucket m') :
    m'.map.lookup ip = some bucket := by
  cases h with
  | known hbucket => exact hbucket
  | room hnew hroom => exact Finmap.lookup_insert _
  | full hnew hfull horder => exact Finmap.lookup_insert _

/-- A call keeps the bound. -/
theorem Gets.max_eq (h : m.Gets ip capacity refill now bucket m') : m'.max = m.max := by
  cases h <;> rfl

/-- With room, storing another bucket after a call overwrites or adds one entry. -/
theorem Gets.map_insert (h : m.Gets ip capacity refill now bucket m')
    (hroom : ip ∉ m.map → m.map.keys.card < m.max) (entry : TokenBucket) :
    m'.map.insert ip entry = m.map.insert ip entry := by
  cases h with
  | known hbucket => rfl
  | room hnew _ => exact Finmap.insert_insert m.map
  | full hnew hfull horder => exact absurd hfull (Nat.not_le.mpr (hroom hnew))

end Gets

end BoundedIpMap

/-! ## The guard -/

/-- `RateLimiter`. -/
structure RateLimiter where
  config : RateLimiterConfig
  perIp : BoundedIpMap
  globalBucket : TokenBucket
  globalWindow : List Instant
  deriving DecidableEq

namespace RateLimiter

/-- `RateLimiter::new`. -/
def new (config : RateLimiterConfig) (now : Instant) : RateLimiter where
  config := config
  perIp := .new config.maxTrackedIps
  globalBucket := .new config.globalCapacity config.globalRefillPerSecond now
  globalWindow := []

/-- The pruning of `allow_global_window`: entries older than the window leave at the front. -/
def prune (g : RateLimiter) (now : Instant) : List Instant :=
  g.globalWindow.dropWhile fun front => g.config.globalWindow.nanos < now.durationSince front

/-- `RateLimiter::allow_global_window`. -/
def allowGlobalWindow (g : RateLimiter) (now : Instant) : Bool × RateLimiter :=
  let window := g.prune now
  if g.config.globalWindowLimit ≤ window.length then (false, { g with globalWindow := window })
  else (true, { g with globalWindow := window ++ [now] })

/-- `get_or_insert` as `allow` calls it. -/
def bucketOf (g : RateLimiter) (ip : IpAddr) (now : Instant) : TokenBucket × BoundedIpMap :=
  g.perIp.getOrInsert ip g.config.perIpCapacity g.config.perIpRefillPerSecond now

/-- `RateLimiter::allow`. -/
def allow (g : RateLimiter) (ip : IpAddr) (now : Instant) : Except SynError Unit × RateLimiter :=
  let (admitted, g) := g.allowGlobalWindow now
  if !admitted then (.error (.rateLimited "global sliding window".toList ip.toStr), g)
  else
    let (admitted, globalBucket) := g.globalBucket.allow now
    let g := { g with globalBucket }
    if !admitted then (.error (.rateLimited "global token bucket".toList ip.toStr), g)
    else
      let (entry, perIp) := g.bucketOf ip now
      let (admitted, entry) := entry.allow now
      let g := { g with perIp := { perIp with map := perIp.map.insert ip entry } }
      if admitted then (.ok (), g)
      else (.error (.rateLimited "per-ip token bucket".toList ip.toStr), g)

/-! ## The gates -/

/-- All three gates are open: the window has room, and both buckets hold a token. -/
def Admits (g : RateLimiter) (ip : IpAddr) (now : Instant) : Prop :=
  (g.prune now).length < g.config.globalWindowLimit ∧ 1 ≤ (g.globalBucket.refill now).tokens ∧
    1 ≤ ((g.bucketOf ip now).1.refill now).tokens

instance (g : RateLimiter) (ip : IpAddr) (now : Instant) : Decidable (g.Admits ip now) :=
  inferInstanceAs (Decidable (_ ∧ _))

/-- `allow` succeeds exactly when all gates are open. -/
theorem allow_isOk_iff (g : RateLimiter) (ip : IpAddr) (now : Instant) :
    (g.allow ip now).1 = .ok () ↔ g.Admits ip now := by
  unfold Admits
  by_cases hwindow : g.config.globalWindowLimit ≤ (g.prune now).length
  · simp only [allow, allowGlobalWindow, hwindow, if_true, Bool.not_false, reduceCtorEq,
      false_iff, not_and]
    omega
  · have hlt : (g.prune now).length < g.config.globalWindowLimit := by omega
    by_cases hglobal : 1 ≤ (g.globalBucket.refill now).tokens
    · by_cases hip : 1 ≤ ((g.bucketOf ip now).1.refill now).tokens
      · have hip' := hip
        unfold bucketOf at hip'
        simp [allow, allowGlobalWindow, TokenBucket.allow, bucketOf, hwindow, hglobal, hip', hlt]
      · have hip' := hip
        unfold bucketOf at hip'
        simp [allow, allowGlobalWindow, TokenBucket.allow, bucketOf, hwindow, hglobal, hip', hlt]
    · simp [allow, allowGlobalWindow, TokenBucket.allow, hwindow, hglobal]

/-- A successful `allow` has entered the window. -/
theorem allow_globalWindow {g : RateLimiter} {ip : IpAddr} {now : Instant}
    (h : (g.allow ip now).1 = .ok ()) :
    (g.allow ip now).2.globalWindow = g.prune now ++ [now] := by
  obtain ⟨hwindow, hglobal, hip⟩ := (allow_isOk_iff g ip now).mp h
  have hwindow := not_le_of_gt hwindow
  unfold bucketOf at hip
  simp [allow, allowGlobalWindow, TokenBucket.allow, bucketOf, hwindow, hglobal, hip]

/-! ## The passing of time -/

/-- `g'` differs from `g` by the passing of time only: old entries have left the window and
buckets were refilled, at any times. -/
structure Aged (g g' : RateLimiter) : Prop where
  config : g'.config = g.config
  window : ∃ t, g'.globalWindow = g.prune t
  global : g'.globalBucket = g.globalBucket ∨ ∃ t, g'.globalBucket = g.globalBucket.refill t
  order : g'.perIp.order = g.perIp.order
  perIp : ∀ ip, g'.perIp.map.lookup ip = g.perIp.map.lookup ip ∨
    ∃ t, g'.perIp.map.lookup ip = (g.perIp.map.lookup ip).map fun b => b.refill t

/-- The pruning takes away expired entries. -/
theorem exists_append_prune (g : RateLimiter) (now : Instant) :
    ∃ old, g.globalWindow = old ++ g.prune now ∧
      ∀ x ∈ old, g.config.globalWindow.nanos < now.durationSince x := by
  refine ⟨g.globalWindow.takeWhile fun front =>
    g.config.globalWindow.nanos < now.durationSince front, ?_, ?_⟩
  · exact List.takeWhile_append_dropWhile.symm
  · exact fun x hx => of_decide_eq_true (List.all_eq_true.mp List.all_takeWhile x hx)

/-- The front of a pruned window is not expired. -/
theorem not_expired_head_prune {g : RateLimiter} {now front : Instant}
    (h : (g.prune now).head? = some front) :
    ¬g.config.globalWindow.nanos < now.durationSince front := by
  have := List.head?_dropWhile_not
    (fun front => decide (g.config.globalWindow.nanos < now.durationSince front)) g.globalWindow
  unfold prune at h
  rw [h] at this
  simpa using this

/-- **A successful `allow` is not the passing of time**: its own entry stays in the window.

**Proof sketch.** The window after it is the pruned window and the entry. Were it what is left
of the old window at some time, it would begin with the last entry that the pruning removed.
That entry is expired, but neither the front of the pruned window nor the new entry is. -/
theorem not_aged_allow {g : RateLimiter} {ip : IpAddr} {now : Instant}
    (h : (g.allow ip now).1 = .ok ()) : ¬g.Aged (g.allow ip now).2 := by
  intro haged
  obtain ⟨t, ht⟩ := haged.window
  rw [allow_globalWindow h] at ht
  obtain ⟨old, hold, hexpired⟩ := exists_append_prune g now
  obtain ⟨pre, hpre, -⟩ := exists_append_prune g t
  rw [← ht] at hpre
  have hlen : old.length = pre.length + 1 := by
    have := congrArg List.length (hold.symm.trans hpre)
    simp only [List.length_append, List.length_singleton] at this
    omega
  obtain ⟨front, hfront⟩ : ∃ front, (g.prune now ++ [now]).head? = some front := by
    cases g.prune now <;> simp
  -- the front of the new window is the last entry that the pruning removed
  have hmem : front ∈ old := by
    have hget : g.globalWindow[pre.length]? = some front := by
      rw [hpre, List.getElem?_append_right le_rfl, Nat.sub_self, ← List.head?_eq_getElem?, hfront]
    rw [hold, List.getElem?_append_left (by omega)] at hget
    exact List.mem_of_getElem? hget
  have hlate := hexpired front hmem
  cases hprune : g.prune now with
  | nil =>
    rw [hprune] at hfront
    obtain rfl : now = front := by simpa using hfront
    simp [Instant.durationSince] at hlate
  | cons e rest =>
    rw [hprune] at hfront
    obtain rfl : e = front := by simpa using hfront
    exact not_expired_head_prune (by rw [hprune]; rfl) hlate

end RateLimiter

instance : Guard RateLimiter where
  name _ := "rate_limiter".toList
  onReserve g ctx now := g.allow ctx.peerIp now

end Synclaire
