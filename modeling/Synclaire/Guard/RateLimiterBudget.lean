import Synclaire.Guard.RateLimiterRun

set_option relaxedAutoImplicit false
set_option autoImplicit false

/-!
# What the rate limiter admits

In every interval of time the rate limiter admits no more calls than the capacity of the bucket
of all addresses and what it gains in the interval. Unless more addresses occur than it tracks,
the same holds for each address and its own bucket.

## Main definitions

* `Synclaire.RateLimiter.okBetween`, `Synclaire.RateLimiter.okBetweenOf` — the number of calls in
  an interval that are admitted, of all addresses and of one.

## Main results

* `Synclaire.RateLimiter.spends_global`, `Synclaire.RateLimiter.spends_own` — a run spends the
  tokens of a bucket.
* `Synclaire.RateLimiter.okBetween_le` — the bounds.
-/

namespace Synclaire

namespace RateLimiter

open Bucket (Spends)

/-- The number of calls from `s` to `t` that return `Ok`. -/
def okBetween (s t : ℚ) (outcomes : List AllowOutcome) : ℕ :=
  Bucket.grants (fun o => o.now.secs) (fun o => o.result = .ok ()) s t outcomes

/-- The number of calls of `ip` from `s` to `t` that return `Ok`. -/
def okBetweenOf (ip : IpAddr) (s t : ℚ) (outcomes : List AllowOutcome) : ℕ :=
  Bucket.grants (fun o => o.now.secs) (fun o => o.ip = ip ∧ o.result = .ok ()) s t outcomes

/-- The outcomes are in the order of time. -/
theorem pairwise_outcomes {calls : List AllowCall} (g : RateLimiter)
    (h : calls.Pairwise fun c c' => c.now ≤ c'.now) :
    (g.outcomes calls).Pairwise fun o o' => o.now.secs ≤ o'.now.secs := by
  rw [← map_call_outcomes g calls, List.pairwise_map] at h
  exact h.imp Instant.secs_le

/-- **A run spends the tokens of the bucket of all addresses**: what it admits is paid for.

**Proof sketch.** Induction on the run. A full window leaves the bucket alone, an empty bucket is
only looked at, and a token is taken before the bucket of the address decides. -/
theorem spends_global {g : RateLimiter} {calls : List AllowCall}
    (h : AllowCall.Timely g.globalBucket.lastRefill calls) :
    Spends (g.globalBucket.capacity.toNat : ℚ) g.globalBucket.refillPerSecond.toNat
      (fun o => o.now.secs) (fun o => o.result = .ok ()) (some g.globalBucket.fill)
      (g.outcomes calls) := by
  induction calls generalizing g with
  | nil => exact .nil _
  | cons c calls ih =>
    have hlevel := TokenBucket.levelAt_fill h.head
    rcases (g.allows_allow c.ip c.now).globalBucket_cases with
      ⟨hresult, hbucket⟩ | ⟨hresult, hbucket⟩ | ⟨htoken, hbucket⟩
    · have hrest := ih (g := (g.allow c.ip c.now).2) (by rw [hbucket]; exact h.drop)
      rw [hbucket] at hrest
      exact .skip hresult hrest
    · have hrest := ih (g := (g.allow c.ip c.now).2) (by rw [hbucket]; exact h.tail)
      rw [hbucket, TokenBucket.refill_fill, ← hlevel] at hrest
      exact .look hresult hrest
    · have hrest := ih (g := (g.allow c.ip c.now).2) (by rw [hbucket]; exact h.tail)
      rw [hbucket, TokenBucket.refill_spend_fill, ← hlevel] at hrest
      exact .take (by rwa [hlevel]) hrest

/-- **A run spends the tokens of the bucket of each address**, if all addresses are tracked. -/
theorem spends_own {g : RateLimiter} {ips : Finset IpAddr} {start : Instant}
    {calls : List AllowCall} (htracks : g.Tracks ips start) (h : AllowCall.Timely start calls)
    (hips : ∀ c ∈ calls, c.ip ∈ ips) (ip : IpAddr) :
    Spends (g.config.perIpCapacity.toNat : ℚ) g.config.perIpRefillPerSecond.toNat
      (fun o => o.now.secs) (fun o => o.ip = ip ∧ o.result = .ok ()) (g.fillOf ip)
      (g.outcomes calls) := by
  induction calls generalizing g start with
  | nil => exact .nil _
  | cons c calls ih =>
    obtain ⟨hip, hrest⟩ := List.forall_mem_cons.mp hips
    have hallows := g.allows_allow c.ip c.now
    have hlevel := htracks.tokens_bucketOf c.ip h.head
    have htail := ih (htracks.step hip h.head hallows) h.tail hrest
    rw [hallows.config_eq] at htail
    rcases hallows.perIp_cases with
      ⟨hresult, hperIp⟩ | ⟨hresult, hperIp⟩ | ⟨htoken, hperIp⟩
    · have hfill : (g.allow c.ip c.now).2.fillOf ip = g.fillOf ip := by rw [fillOf, hperIp, fillOf]
      rw [hfill] at htail
      exact .skip (fun h => hresult h.2) htail
    all_goals
      rw [htracks.fillOf_of_stored hip hperIp] at htail
      split_ifs at htail with heq
    · subst heq
      rw [TokenBucket.refill_fill, hlevel] at htail
      exact .look (fun h => hresult h.2) htail
    · exact .skip (fun h => hresult h.2) htail
    · subst heq
      rw [TokenBucket.refill_spend_fill, hlevel] at htail
      exact .take (by rwa [← hlevel]) htail
    · exact .skip (fun h => heq h.1.symm) htail

/-- **The rate limiter keeps its budget**: the calls from `s` to `t` that return `Ok` are at most
the capacity and the gain of the bucket of all addresses, and, if no more addresses occur than are
tracked, those of each address at most the capacity and the gain of its bucket.

**Proof sketch.** Each bucket's run spends its tokens, so the bound for token buckets applies: the
bucket of all addresses is full at first, and that of an address when it is first looked up. -/
theorem okBetween_le {config : RateLimiterConfig} {start : Instant} {calls : List AllowCall}
    (htimely : AllowCall.Timely start calls) {s t : ℚ} (hst : s ≤ t) :
    (okBetween s t ((new config start).outcomes calls) : ℚ) ≤
        config.globalCapacity.toNat + config.globalRefillPerSecond.toNat * (t - s) ∧
      ((calls.map (·.ip)).toFinset.card ≤ max 1 config.maxTrackedIps →
        ∀ ip, (okBetweenOf ip s t ((new config start).outcomes calls) : ℚ) ≤
          config.perIpCapacity.toNat + config.perIpRefillPerSecond.toNat * (t - s)) := by
  have hsorted := pairwise_outcomes (new config start) htimely.2
  have hstart : ∀ o ∈ (new config start).outcomes calls, start.secs ≤ o.now.secs := by
    intro o ho
    have hcall : o.call ∈ calls := map_call_outcomes (new config start) calls ▸
      List.mem_map_of_mem ho
    exact Instant.secs_le (htimely.1 _ hcall)
  constructor
  · apply (spends_global (g := new config start) htimely).grants_le (Nat.cast_nonneg _)
      (Nat.cast_nonneg _) _ hsorted hst
    intro f hf
    obtain rfl := Option.some.inj hf
    exact ⟨Nat.cast_nonneg _, hstart⟩
  · intro hcard ip
    have hips : ∀ c ∈ calls, c.ip ∈ (calls.map (·.ip)).toFinset := by
      intro c hc
      exact List.mem_toFinset.mpr (List.mem_map_of_mem hc)
    have hnone : (new config start).fillOf ip = none := by simp [fillOf, new, BoundedIpMap.new]
    apply (spends_own (tracks_new hcard) htimely hips ip).grants_le (Nat.cast_nonneg _)
      (Nat.cast_nonneg _) _ hsorted hst
    rw [hnone]
    simp

/-- One token for each address, ten for all, and no refill. -/
def spentConfig : RateLimiterConfig where
  perIpCapacity := 1
  perIpRefillPerSecond := 0
  globalCapacity := 10
  globalRefillPerSecond := 0
  globalWindow := .fromSecs 60
  globalWindowLimit := 100

/-- The local host asks twice. -/
def spentCalls : List AllowCall := [⟨.v4 (ipv4 127 0 0 1), 0⟩, ⟨.v4 (ipv4 127 0 0 1), 5⟩]

/-- In the first second at most ten calls are admitted, and at most one of the local host. -/
theorem okBetween_le_spentCalls :
    (okBetween 0 1 ((new spentConfig 0).outcomes spentCalls) : ℚ) ≤ 10 + 0 * (1 - 0) ∧
      (okBetweenOf (.v4 (ipv4 127 0 0 1)) 0 1 ((new spentConfig 0).outcomes spentCalls) : ℚ) ≤
        1 + 0 * (1 - 0) := by
  obtain ⟨hglobal, hown⟩ := @okBetween_le spentConfig 0 spentCalls (by decide) 0 1 (by norm_num)
  exact ⟨mod_cast hglobal, mod_cast hown (by decide) _⟩

end RateLimiter

end Synclaire
