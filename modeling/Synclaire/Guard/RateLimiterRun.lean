import Mathlib.Algebra.Order.Ring.Rat
import Mathlib.Tactic.Linarith
import Mathlib.Tactic.NormNum
import Synclaire.Guard.RateLimiter
import Synclaire.Lib.Bucket

set_option relaxedAutoImplicit false
set_option autoImplicit false

/-!
# Runs of the rate limiter

The rate limiter is asked by one address after another, at times that do not decrease. Its token
buckets are token buckets in the sense of `Bucket`, and as long as no more addresses occur than
it can track, no bucket is ever replaced.

## Main definitions

* `Synclaire.AllowCall`, `Synclaire.AllowOutcome` — a call of `allow`, and its result.
* `Synclaire.RateLimiter.outcomes` — the calls of a run with their results.
* `Synclaire.RateLimiter.Allows` — what one call of `allow` can do.
* `Synclaire.RateLimiter.Tracks` — the buckets of a limiter that evicts nothing.

## Main results

* `Synclaire.RateLimiter.allows_allow` — `allow` does one of these things.
* `Synclaire.RateLimiter.Tracks.lookup_stored` — no bucket but the caller's changes.
-/

namespace Synclaire

/-- The reading in seconds, as `as_secs_f64` converts spans. -/
def Instant.secs (t : Instant) : ℚ := (t : ℚ) / 10 ^ 9

/-- Later readings are later in seconds. -/
theorem Instant.secs_le {t t' : Instant} (h : t ≤ t') : t.secs ≤ t'.secs := by
  unfold Instant.secs
  have : (t : ℚ) ≤ t' := mod_cast h
  linarith

/-! ## Buckets -/

namespace TokenBucket

/-- What the bucket holds, and since when. -/
def fill (b : TokenBucket) : Bucket.Fill ℚ := ⟨b.tokens, b.lastRefill.secs⟩

/-- A token is taken, as in `TokenBucket::allow`. -/
def spend (b : TokenBucket) : TokenBucket := { b with tokens := b.tokens - 1 }

/-- The refill is the refill of a token bucket. -/
theorem levelAt_fill {b : TokenBucket} {now : Instant} (h : b.lastRefill ≤ now) :
    Bucket.Fill.levelAt (b.capacity.toNat : ℚ) b.refillPerSecond.toNat now.secs (some b.fill) =
      (b.refill now).tokens := by
  have hsub : ((now - b.lastRefill : ℕ) : ℚ) = now - b.lastRefill := Nat.cast_sub h
  simp only [Bucket.Fill.levelAt, Bucket.refill, fill, refill, Instant.durationSince, Instant.secs,
    hsub, sub_div]

/-- A new bucket is full. -/
theorem new_refill_tokens (capacity rate : UInt32) (now : Instant) :
    ((new capacity rate now).refill now).tokens = capacity.toNat := by
  simp [new, refill, Instant.durationSince]

/-- The bucket after a refill, as a fill. -/
theorem refill_fill {b : TokenBucket} {now : Instant} :
    (b.refill now).fill = ⟨(b.refill now).tokens, now.secs⟩ := rfl

/-- The bucket after a token was taken, as a fill. -/
theorem refill_spend_fill {b : TokenBucket} {now : Instant} :
    (b.refill now).spend.fill = ⟨(b.refill now).tokens - 1, now.secs⟩ := rfl

/-- The level does not depend on when the bucket was refilled before. -/
theorem refill_refill_tokens {b : TokenBucket} {t t' : Instant} (h : b.lastRefill ≤ t)
    (h' : t ≤ t') : ((b.refill t).refill t').tokens = (b.refill t').tokens := by
  have hlook : Bucket.Fill.levelAt (b.capacity.toNat : ℚ) _ t'.secs _ = _ :=
    Bucket.Fill.levelAt_look (Nat.cast_nonneg b.refillPerSecond.toNat) (Instant.secs_le h')
      (some b.fill)
  rw [levelAt_fill h, levelAt_fill (h.trans h')] at hlook
  rw [← hlook]
  exact (levelAt_fill (b := b.refill t) h').symm

/-- A bucket that spent a token is not the fuller one. -/
theorem spend_refill_le (b : TokenBucket) (t : Instant) :
    (b.spend.refill t).tokens ≤ (b.refill t).tokens := by
  simp only [refill, spend]
  exact min_le_min_right _ (by linarith)

/-- Of two buckets that each spend a token, the fuller one stays the fuller one. -/
theorem refill_spend_refill_le {b b' : TokenBucket} {t : Instant} (t' : Instant)
    (hcapacity : b.capacity = b'.capacity) (hrefill : b.refillPerSecond = b'.refillPerSecond)
    (h : (b.refill t).tokens ≤ (b'.refill t).tokens) :
    ((b.refill t).spend.refill t').tokens ≤ ((b'.refill t).spend.refill t').tokens := by
  let elapsed : ℚ := (t'.durationSince t : ℚ) / 10 ^ 9
  change min ((b.refill t).tokens - 1 + elapsed * b.refillPerSecond.toNat) b.capacity.toNat ≤
    min ((b'.refill t).tokens - 1 + elapsed * b'.refillPerSecond.toNat) b'.capacity.toNat
  rw [hcapacity, hrefill]
  exact min_le_min_right _ (by linarith)

end TokenBucket

/-! ## Calls -/

/-- A call of `allow` and the reading of the clock in it. -/
structure AllowCall where
  ip : IpAddr
  now : Instant
  deriving DecidableEq

/-- The calls are in the order of time, and none is before the start. -/
def AllowCall.Timely (start : Instant) (calls : List AllowCall) : Prop :=
  (∀ c ∈ calls, start ≤ c.now) ∧ calls.Pairwise fun c c' => c.now ≤ c'.now

instance (start : Instant) (calls : List AllowCall) : Decidable (AllowCall.Timely start calls) :=
  inferInstanceAs (Decidable (_ ∧ _))

/-- The calls after the first one are not before it. -/
theorem AllowCall.Timely.tail {start : Instant} {c : AllowCall} {calls : List AllowCall}
    (h : AllowCall.Timely start (c :: calls)) : AllowCall.Timely c.now calls :=
  List.pairwise_cons.mp h.2

/-- The calls after the first one are not before the start. -/
theorem AllowCall.Timely.drop {start : Instant} {c : AllowCall} {calls : List AllowCall}
    (h : AllowCall.Timely start (c :: calls)) : AllowCall.Timely start calls :=
  ⟨fun c' hc' => h.1 c' (List.mem_cons_of_mem c hc'), h.tail.2⟩

/-- The first call is not before the start. -/
theorem AllowCall.Timely.head {start : Instant} {c : AllowCall} {calls : List AllowCall}
    (h : AllowCall.Timely start (c :: calls)) : start ≤ c.now := h.1 c List.mem_cons_self

/-- A call and its result. -/
structure AllowOutcome where
  ip : IpAddr
  now : Instant
  result : Except SynError Unit
  deriving DecidableEq

/-- The call. -/
def AllowOutcome.call (o : AllowOutcome) : AllowCall := ⟨o.ip, o.now⟩

namespace RateLimiter

/-- The calls of a run, with their results. -/
def outcomes : RateLimiter → List AllowCall → List AllowOutcome
  | _, [] => []
  | g, c :: calls =>
    ⟨c.ip, c.now, (g.allow c.ip c.now).1⟩ :: (g.allow c.ip c.now).2.outcomes calls

/-- The outcomes are those of the calls. -/
theorem map_call_outcomes (g : RateLimiter) (calls : List AllowCall) :
    (g.outcomes calls).map AllowOutcome.call = calls := by
  induction calls generalizing g with
  | nil => rfl
  | cons c calls ih => exact congrArg (c :: ·) (ih _)

/-- The tracked buckets after the bucket of `ip` was looked up and became `entry`. -/
def stored (g : RateLimiter) (ip : IpAddr) (now : Instant) (entry : TokenBucket) : BoundedIpMap :=
  { (g.bucketOf ip now).2 with map := (g.bucketOf ip now).2.map.insert ip entry }

/-- What one call of `allow` can do. -/
inductive Allows (g : RateLimiter) (ip : IpAddr) (now : Instant) :
    Except SynError Unit → RateLimiter → Prop
  /-- The window is full. -/
  | window (hfull : g.config.globalWindowLimit ≤ (g.prune now).length) :
      Allows g ip now (.error (.rateLimited "global sliding window".toList ip.toStr))
        { g with globalWindow := g.prune now }
  /-- A slot of the window is taken, and the bucket of all addresses is empty. -/
  | global (hroom : (g.prune now).length < g.config.globalWindowLimit)
      (hempty : (g.globalBucket.refill now).tokens < 1) :
      Allows g ip now (.error (.rateLimited "global token bucket".toList ip.toStr))
        { g with
          globalWindow := g.prune now ++ [now]
          globalBucket := g.globalBucket.refill now }
  /-- A slot and a token are taken, and the bucket of the address is empty. -/
  | own (hroom : (g.prune now).length < g.config.globalWindowLimit)
      (htoken : 1 ≤ (g.globalBucket.refill now).tokens)
      (hempty : ((g.bucketOf ip now).1.refill now).tokens < 1) :
      Allows g ip now (.error (.rateLimited "per-ip token bucket".toList ip.toStr))
        { g with
          globalWindow := g.prune now ++ [now]
          globalBucket := (g.globalBucket.refill now).spend
          perIp := g.stored ip now ((g.bucketOf ip now).1.refill now) }
  /-- A slot and two tokens are taken. -/
  | ok (hroom : (g.prune now).length < g.config.globalWindowLimit)
      (htoken : 1 ≤ (g.globalBucket.refill now).tokens)
      (hown : 1 ≤ ((g.bucketOf ip now).1.refill now).tokens) :
      Allows g ip now (.ok ())
        { g with
          globalWindow := g.prune now ++ [now]
          globalBucket := (g.globalBucket.refill now).spend
          perIp := g.stored ip now ((g.bucketOf ip now).1.refill now).spend }

/-- `allow` does one of these things. -/
theorem allows_allow (g : RateLimiter) (ip : IpAddr) (now : Instant) :
    g.Allows ip now (g.allow ip now).1 (g.allow ip now).2 := by
  by_cases hfull : g.config.globalWindowLimit ≤ (g.prune now).length
  · have h := @Allows.window g ip now hfull
    simpa only [allow, allowGlobalWindow, hfull, if_true, Bool.not_false] using h
  have hroom : (g.prune now).length < g.config.globalWindowLimit := by omega
  by_cases htoken : 1 ≤ (g.globalBucket.refill now).tokens
  · by_cases hown : 1 ≤ ((g.bucketOf ip now).1.refill now).tokens
    · have h := @Allows.ok g ip now hroom htoken hown
      simp only [bucketOf] at hown
      simpa only [allow, allowGlobalWindow, TokenBucket.allow, bucketOf, hfull, htoken, hown,
        if_true, if_false, Bool.not_true, Bool.false_eq_true, stored, TokenBucket.spend] using h
    · have h := @Allows.own g ip now hroom htoken (lt_of_not_ge hown)
      simp only [bucketOf] at hown
      simpa only [allow, allowGlobalWindow, TokenBucket.allow, bucketOf, hfull, htoken, hown,
        if_true, if_false, Bool.not_true, Bool.false_eq_true, stored, TokenBucket.spend] using h
  · have h := @Allows.global g ip now hroom (lt_of_not_ge htoken)
    simpa only [allow, allowGlobalWindow, TokenBucket.allow, hfull, htoken, if_true, if_false,
      Bool.not_true, Bool.not_false, Bool.false_eq_true] using h

/-- What a call does to the bucket of all addresses: nothing, a look, or a token is taken. -/
theorem Allows.globalBucket_cases {g g' : RateLimiter} {ip : IpAddr} {now : Instant}
    {result : Except SynError Unit} (h : g.Allows ip now result g') :
    result ≠ .ok () ∧ g'.globalBucket = g.globalBucket ∨
      result ≠ .ok () ∧ g'.globalBucket = g.globalBucket.refill now ∨
      1 ≤ (g.globalBucket.refill now).tokens ∧
        g'.globalBucket = (g.globalBucket.refill now).spend := by
  cases h with
  | window hfull => exact .inl ⟨by simp, rfl⟩
  | global hroom hempty => exact .inr (.inl ⟨by simp, rfl⟩)
  | own hroom htoken hempty => exact .inr (.inr ⟨htoken, rfl⟩)
  | ok hroom htoken hown => exact .inr (.inr ⟨htoken, rfl⟩)

/-- What a call does to the tracked buckets: nothing, a look at the caller's, or a token of it is
taken. -/
theorem Allows.perIp_cases {g g' : RateLimiter} {ip : IpAddr} {now : Instant}
    {result : Except SynError Unit} (h : g.Allows ip now result g') :
    result ≠ .ok () ∧ g'.perIp = g.perIp ∨
      result ≠ .ok () ∧ g'.perIp = g.stored ip now ((g.bucketOf ip now).1.refill now) ∨
      1 ≤ ((g.bucketOf ip now).1.refill now).tokens ∧
        g'.perIp = g.stored ip now ((g.bucketOf ip now).1.refill now).spend := by
  cases h with
  | window hfull => exact .inl ⟨by simp, rfl⟩
  | global hroom hempty => exact .inl ⟨by simp, rfl⟩
  | own hroom htoken hempty => exact .inr (.inl ⟨by simp, rfl⟩)
  | ok hroom htoken hown => exact .inr (.inr ⟨hown, rfl⟩)

/-- A call leaves the configuration alone. -/
theorem Allows.config_eq {g g' : RateLimiter} {ip : IpAddr} {now : Instant}
    {result : Except SynError Unit} (h : g.Allows ip now result g') : g'.config = g.config := by
  cases h <;> rfl

/-! ## The tracked buckets -/

/-- The bucket that is looked up is the tracked one, or new. -/
theorem bucketOf_fst (g : RateLimiter) (ip : IpAddr) (now : Instant) :
    (g.bucketOf ip now).1 = (g.perIp.map.lookup ip).getD
      (.new g.config.perIpCapacity g.config.perIpRefillPerSecond now) := by
  unfold bucketOf BoundedIpMap.getOrInsert
  cases g.perIp.map.lookup ip with
  | some bucket => rfl
  | none => rfl

/-- What the bucket of an address holds, if it is tracked. -/
def fillOf (g : RateLimiter) (ip : IpAddr) : Option (Bucket.Fill ℚ) :=
  (g.perIp.map.lookup ip).map TokenBucket.fill

/-- All addresses are among `ips`, which fit in the map, and their buckets are as configured and
were not looked at after `now`. -/
structure Tracks (g : RateLimiter) (ips : Finset IpAddr) (now : Instant) : Prop where
  keys : g.perIp.map.keys ⊆ ips
  room : ips.card ≤ g.perIp.max
  capacity {ip : IpAddr} {b : TokenBucket} (h : g.perIp.map.lookup ip = some b) :
    b.capacity = g.config.perIpCapacity
  refill {ip : IpAddr} {b : TokenBucket} (h : g.perIp.map.lookup ip = some b) :
    b.refillPerSecond = g.config.perIpRefillPerSecond
  lastRefill {ip : IpAddr} {b : TokenBucket} (h : g.perIp.map.lookup ip = some b) :
    b.lastRefill ≤ now

/-- A new limiter tracks nothing. -/
theorem tracks_new {config : RateLimiterConfig} {ips : Finset IpAddr} {now : Instant}
    (h : ips.card ≤ max 1 config.maxTrackedIps) : (new config now).Tracks ips now where
  keys := Finset.empty_subset ips
  room := by rw [max_comm] at h; exact h
  capacity h := by simp [new, BoundedIpMap.new] at h
  refill h := by simp [new, BoundedIpMap.new] at h
  lastRefill h := by simp [new, BoundedIpMap.new] at h

namespace Tracks

variable {g : RateLimiter} {ips : Finset IpAddr} {start now : Instant} {ip ip' : IpAddr}
  {entry : TokenBucket}

/-- An address that is not tracked finds room. -/
theorem card_lt (h : g.Tracks ips start) (hip : ip ∈ ips) (hnew : ip ∉ g.perIp.map) :
    g.perIp.map.keys.card < g.perIp.max := by
  have hnotMem : ip ∉ g.perIp.map.keys := mt Finmap.mem_keys.mp hnew
  have hssubset : g.perIp.map.keys ⊂ ips := ⟨h.keys, fun hsub => hnotMem (hsub hip)⟩
  exact (Finset.card_lt_card hssubset).trans_le h.room

/-- The bucket of an address is looked up without an eviction. -/
theorem gets (h : g.Tracks ips start) (hip : ip ∈ ips) (now : Instant) :
    g.perIp.Gets ip g.config.perIpCapacity g.config.perIpRefillPerSecond now
      (g.bucketOf ip now).1 (g.bucketOf ip now).2 :=
  BoundedIpMap.gets_getOrInsert fun hnew hfull =>
    absurd hfull (Nat.not_le.mpr (h.card_lt hip hnew))

/-- Nothing is evicted: storing a bucket overwrites or adds one entry. -/
theorem stored_map (h : g.Tracks ips start) (hip : ip ∈ ips) :
    (g.stored ip now entry).map = g.perIp.map.insert ip entry :=
  (h.gets hip now).map_insert (h.card_lt hip) entry

/-- No bucket but the caller's changes. -/
theorem lookup_stored (h : g.Tracks ips start) (hip : ip ∈ ips) :
    (g.stored ip now entry).map.lookup ip' =
      if ip' = ip then some entry else g.perIp.map.lookup ip' := by
  rw [h.stored_map hip, FMap.lookup_insert_eq_ite]

/-- The bound of the map stays. -/
theorem stored_max (h : g.Tracks ips start) (hip : ip ∈ ips) :
    (g.stored ip now entry).max = g.perIp.max :=
  (h.gets hip now).max_eq

/-- The level at which the bucket of an address is found. -/
theorem tokens_bucketOf (h : g.Tracks ips start) (ip : IpAddr) (hnow : start ≤ now) :
    ((g.bucketOf ip now).1.refill now).tokens =
      Bucket.Fill.levelAt (g.config.perIpCapacity.toNat : ℚ) g.config.perIpRefillPerSecond.toNat
        now.secs (g.fillOf ip) := by
  rw [bucketOf_fst]
  unfold fillOf
  cases hlookup : g.perIp.map.lookup ip with
  | none => exact TokenBucket.new_refill_tokens _ _ now
  | some b =>
    rw [← h.capacity hlookup, ← h.refill hlookup, Option.map_some, Option.getD_some,
      TokenBucket.levelAt_fill ((h.lastRefill hlookup).trans hnow)]

/-- The bucket that is looked up is as configured. -/
theorem bucketOf_configured (h : g.Tracks ips start) (ip : IpAddr) (now : Instant) :
    (g.bucketOf ip now).1.capacity = g.config.perIpCapacity ∧
      (g.bucketOf ip now).1.refillPerSecond = g.config.perIpRefillPerSecond := by
  rw [bucketOf_fst]
  cases hlookup : g.perIp.map.lookup ip with
  | none => exact ⟨rfl, rfl⟩
  | some b => exact ⟨h.capacity hlookup, h.refill hlookup⟩

/-- Time passes, and the rest of the limiter does not matter. -/
theorem of_perIp_eq {g' : RateLimiter} (h : g.Tracks ips start) (hnow : start ≤ now)
    (hconfig : g'.config = g.config) (hperIp : g'.perIp = g.perIp) : g'.Tracks ips now where
  keys := hperIp ▸ h.keys
  room := hperIp ▸ h.room
  capacity hlookup := by
    rw [hperIp] at hlookup
    rw [hconfig, h.capacity hlookup]
  refill hlookup := by
    rw [hperIp] at hlookup
    rw [hconfig, h.refill hlookup]
  lastRefill hlookup := by
    rw [hperIp] at hlookup
    exact (h.lastRefill hlookup).trans hnow

/-- A bucket was stored. -/
theorem of_stored {g' : RateLimiter} (h : g.Tracks ips start) (hip : ip ∈ ips)
    (hnow : start ≤ now) (hconfig : g'.config = g.config)
    (hperIp : g'.perIp = g.stored ip now entry)
    (hcapacity : entry.capacity = g.config.perIpCapacity)
    (hrefill : entry.refillPerSecond = g.config.perIpRefillPerSecond)
    (hlast : entry.lastRefill = now) : g'.Tracks ips now where
  keys := by
    rw [hperIp, h.stored_map hip]
    intro ip' hmem
    rcases Finmap.mem_insert.mp (Finmap.mem_keys.mp hmem) with rfl | hmem
    · exact hip
    · exact h.keys (Finmap.mem_keys.mpr hmem)
  room := by
    rw [hperIp, h.stored_max hip]
    exact h.room
  capacity hlookup := by
    rw [hperIp, h.lookup_stored hip] at hlookup
    rw [hconfig]
    split_ifs at hlookup with heq
    · rw [← Option.some.inj hlookup, hcapacity]
    · exact h.capacity hlookup
  refill hlookup := by
    rw [hperIp, h.lookup_stored hip] at hlookup
    rw [hconfig]
    split_ifs at hlookup with heq
    · rw [← Option.some.inj hlookup, hrefill]
    · exact h.refill hlookup
  lastRefill hlookup := by
    rw [hperIp, h.lookup_stored hip] at hlookup
    split_ifs at hlookup with heq
    · rw [← Option.some.inj hlookup, hlast]
    · exact (h.lastRefill hlookup).trans hnow

/-- `allow` keeps the tracked buckets. -/
theorem step {result : Except SynError Unit} {g' : RateLimiter} (h : g.Tracks ips start)
    (hip : ip ∈ ips) (hnow : start ≤ now) (hallows : g.Allows ip now result g') :
    g'.Tracks ips now := by
  obtain ⟨hcapacity, hrefill⟩ := h.bucketOf_configured ip now
  cases hallows with
  | window hfull => exact h.of_perIp_eq hnow rfl rfl
  | global hroom hempty => exact h.of_perIp_eq hnow rfl rfl
  | own hroom htoken hempty => exact h.of_stored hip hnow rfl rfl hcapacity hrefill rfl
  | ok hroom htoken hown => exact h.of_stored hip hnow rfl rfl hcapacity hrefill rfl

/-- What the buckets hold after one was stored. -/
theorem fillOf_of_stored {g' : RateLimiter} (h : g.Tracks ips start) (hip : ip ∈ ips)
    (hperIp : g'.perIp = g.stored ip now entry) :
    g'.fillOf ip' = if ip' = ip then some entry.fill else g.fillOf ip' := by
  unfold fillOf
  rw [hperIp, h.lookup_stored hip]
  split_ifs with heq
  · rfl
  · rfl

end Tracks

end RateLimiter

end Synclaire
