import Synclaire.Guard.RateLimiterRun
import Synclaire.Lib.Log

set_option relaxedAutoImplicit false
set_option autoImplicit false

/-!
# Starving others at the rate limiter

A call that the bucket of its own address refuses has already taken a slot of the window and a
token of all addresses, and gives neither back, while `Throttle::acquire` takes back its count of
all connections when it refuses for the address. Removing such calls from a run changes the
results of other calls exactly when one of them finds the window full or the bucket empty because
of these slots and tokens.

## Main definitions

* `Synclaire.RateLimiter.purge` — a run without the calls that their own buckets refused.
* `Synclaire.RateLimiter.Unaffected` — the other calls have the same results without these.
* `Synclaire.RateLimiter.Fair` — a call finds the window full or the bucket empty only if it would
  find it so without these.

## Main results

* `Synclaire.RateLimiter.History.step` — the window and the bucket follow from the run so far.
* `Synclaire.RateLimiter.unaffected_iff` — others are unaffected iff each call is fair.
* `Synclaire.RateLimiter.not_forall_unaffected` — an address can starve another one.
-/

namespace Synclaire

namespace AllowOutcome

/-- The call was refused by the gate that names itself `scope`. -/
def RefusedBy (o : AllowOutcome) (scope : Str) : Prop :=
  o.result = .error (.rateLimited scope o.ip.toStr)

instance (o : AllowOutcome) (scope : Str) : Decidable (o.RefusedBy scope) :=
  inferInstanceAs (Decidable (_ = _))

/-- The window was full. -/
abbrev WindowRefused (o : AllowOutcome) : Prop := o.RefusedBy "global sliding window".toList

/-- The bucket of all addresses was empty. -/
abbrev GlobalRefused (o : AllowOutcome) : Prop := o.RefusedBy "global token bucket".toList

/-- The bucket of the caller's address was empty. -/
abbrev OwnRefused (o : AllowOutcome) : Prop := o.RefusedBy "per-ip token bucket".toList

end AllowOutcome

namespace RateLimiter

/-! ## The run so far -/

/-- The calls but those that the buckets of their own addresses refused. -/
def purge (past : List AllowOutcome) : List AllowOutcome := past.filter fun o => ¬o.OwnRefused

/-- The slots of the window that were taken. -/
def slots (past : List AllowOutcome) : List Instant :=
  (past.filter fun o => ¬o.WindowRefused).map (·.now)

/-- The slots that are not older than the window. -/
def live (config : RateLimiterConfig) (now : Instant) (slots : List Instant) : List Instant :=
  slots.filter fun slot => !decide (config.globalWindow.nanos < now.durationSince slot)

/-- What a call did to the bucket of all addresses. -/
def charge (b : TokenBucket) (o : AllowOutcome) : TokenBucket :=
  if o.WindowRefused then b
  else if o.GlobalRefused then b.refill o.now
  else (b.refill o.now).spend

/-- The bucket of all addresses after the calls of `past`. -/
def charged (config : RateLimiterConfig) (start : Instant) (past : List AllowOutcome) :
    TokenBucket :=
  past.foldl charge (.new config.globalCapacity config.globalRefillPerSecond start)

/-- A call at `now` finds the window full, or else the bucket of all addresses empty, only if it
would do so had the calls that their own buckets refused taken no slots and no tokens. -/
structure Fair (config : RateLimiterConfig) (start : Instant) (past : List AllowOutcome)
    (now : Instant) : Prop where
  window (h : config.globalWindowLimit ≤ (live config now (slots past)).length) :
    config.globalWindowLimit ≤ (live config now (slots (purge past))).length
  global (hroom : (live config now (slots past)).length < config.globalWindowLimit)
    (h : ((charged config start past).refill now).tokens < 1) :
    ((charged config start (purge past)).refill now).tokens < 1

/-- **Others are unaffected**: without the calls that the buckets of their own addresses refused,
the results of the other calls are the same. -/
def Unaffected (config : RateLimiterConfig) (start : Instant) (calls : List AllowCall) : Prop :=
  (new config start).outcomes ((purge ((new config start).outcomes calls)).map (·.call)) =
    purge ((new config start).outcomes calls)

instance (config : RateLimiterConfig) (start : Instant) (calls : List AllowCall) :
    Decidable (Unaffected config start calls) :=
  inferInstanceAs (Decidable (_ = _))

/-- A call that finds the window full takes no slot. -/
theorem slots_append_of_refused {past : List AllowOutcome} {o : AllowOutcome}
    (h : o.WindowRefused) : slots (past ++ [o]) = slots past := by
  simp [slots, h]

/-- Any other call takes one. -/
theorem slots_append_of_taken {past : List AllowOutcome} {o : AllowOutcome}
    (h : ¬o.WindowRefused) : slots (past ++ [o]) = slots past ++ [o.now] := by
  simp [slots, h]

/-- A slot that is taken now is live. -/
theorem live_append_now {config : RateLimiterConfig} {now : Instant} (slots : List Instant) :
    live config now (slots ++ [now]) = live config now slots ++ [now] := by
  simp [live, Instant.durationSince]

/-- The bucket is charged call by call. -/
theorem charged_append (config : RateLimiterConfig) (start : Instant) (past : List AllowOutcome)
    (o : AllowOutcome) :
    charged config start (past ++ [o]) = charge (charged config start past) o :=
  List.foldl_concat ..

/-- A charge leaves the capacity alone. -/
theorem charge_capacity (b : TokenBucket) (o : AllowOutcome) :
    (charge b o).capacity = b.capacity := by
  unfold charge
  split_ifs <;> rfl

/-- A charge leaves the refill alone. -/
theorem charge_refillPerSecond (b : TokenBucket) (o : AllowOutcome) :
    (charge b o).refillPerSecond = b.refillPerSecond := by
  unfold charge
  split_ifs <;> rfl

/-- The window and the bucket of all addresses are as the run so far left them. -/
structure History (config : RateLimiterConfig) (start : Instant) (past : List AllowOutcome)
    (now : Instant) (g : RateLimiter) : Prop where
  config_eq : g.config = config
  window : ∃ t ≤ now, g.globalWindow = live config t (slots past)
  sorted : (slots past).Pairwise (· ≤ ·)
  slot_le : ∀ slot ∈ slots past, slot ≤ now
  bucket : g.globalBucket = charged config start past
  lastRefill : g.globalBucket.lastRefill ≤ now
  capacity : g.globalBucket.capacity = config.globalCapacity
  refill : g.globalBucket.refillPerSecond = config.globalRefillPerSecond

/-- A new limiter has no past. -/
theorem history_new (config : RateLimiterConfig) (start : Instant) :
    History config start [] start (new config start) where
  config_eq := rfl
  window := ⟨start, le_rfl, rfl⟩
  sorted := List.Pairwise.nil
  slot_le := by simp [slots]
  bucket := rfl
  lastRefill := le_rfl
  capacity := rfl
  refill := rfl

/-- Slots that expired stay expired. -/
theorem live_live {config : RateLimiterConfig} {t now : Instant} (h : t ≤ now)
    (slots : List Instant) : live config now (live config t slots) = live config now slots := by
  unfold live
  rw [List.filter_filter]
  apply List.filter_congr
  intro slot hslot
  unfold Instant.durationSince
  grind

namespace History

variable {config : RateLimiterConfig} {start now now' : Instant} {past : List AllowOutcome}
  {g : RateLimiter}

/-- The pruned window has the live slots. -/
theorem prune_eq (h : History config start past now g) (hnow : now ≤ now') :
    g.prune now' = live config now' (slots past) := by
  obtain ⟨t, ht, hwindow⟩ := h.window
  have hsorted : (live config t (slots past)).Pairwise (· ≤ ·) := h.sorted.filter _
  have hdue : (live config t (slots past)).Pairwise fun x y =>
      decide (config.globalWindow.nanos < now'.durationSince y) →
        decide (config.globalWindow.nanos < now'.durationSince x) := by
    apply hsorted.imp
    intro x y hxy hy
    rw [decide_eq_true_eq] at hy ⊢
    exact hy.trans_le (Nat.sub_le_sub_left hxy now')
  unfold prune
  rw [hwindow, h.config_eq, Log.dropWhile_eq_filter hdue]
  exact live_live (ht.trans hnow) (slots past)

/-- Time passes. -/
theorem mono (h : History config start past now g) (hnow : now ≤ now') :
    History config start past now' g where
  config_eq := h.config_eq
  window := by
    obtain ⟨t, ht, hwindow⟩ := h.window
    exact ⟨t, ht.trans hnow, hwindow⟩
  sorted := h.sorted
  slot_le slot hslot := (h.slot_le slot hslot).trans hnow
  bucket := h.bucket
  lastRefill := h.lastRefill.trans hnow
  capacity := h.capacity
  refill := h.refill

/-- A call finds the window full. -/
theorem of_refused {o : AllowOutcome} (h : History config start past now g) (hnow : now ≤ o.now)
    (ho : o.WindowRefused) :
    History config start (past ++ [o]) o.now { g with globalWindow := g.prune o.now } where
  config_eq := h.config_eq
  window := ⟨o.now, le_rfl, by rw [slots_append_of_refused ho]; exact h.prune_eq hnow⟩
  sorted := by
    rw [slots_append_of_refused ho]
    exact h.sorted
  slot_le := by
    rw [slots_append_of_refused ho]
    intro slot hslot
    exact (h.slot_le slot hslot).trans hnow
  bucket := by rw [charged_append, ← h.bucket, charge, if_pos ho]
  lastRefill := h.lastRefill.trans hnow
  capacity := h.capacity
  refill := h.refill

/-- A call takes a slot. -/
theorem of_taken {o : AllowOutcome} {g' : RateLimiter} (h : History config start past now g)
    (hnow : now ≤ o.now) (ho : ¬o.WindowRefused) (hconfig : g'.config = g.config)
    (hwindow : g'.globalWindow = g.prune o.now ++ [o.now])
    (hbucket : g'.globalBucket = charge g.globalBucket o) :
    History config start (past ++ [o]) o.now g' where
  config_eq := hconfig.trans h.config_eq
  window := by
    refine ⟨o.now, le_rfl, ?_⟩
    rw [hwindow, h.prune_eq hnow, slots_append_of_taken ho, live_append_now]
  sorted := by
    rw [slots_append_of_taken ho]
    refine List.pairwise_append.mpr ⟨h.sorted, List.pairwise_singleton _ _, ?_⟩
    intro slot hslot slot' hslot'
    obtain rfl := List.mem_singleton.mp hslot'
    exact (h.slot_le slot hslot).trans hnow
  slot_le := by
    rw [slots_append_of_taken ho]
    intro slot hslot
    rcases List.mem_append.mp hslot with hslot | hslot
    · exact (h.slot_le slot hslot).trans hnow
    · exact (List.mem_singleton.mp hslot).le
  bucket := by rw [hbucket, h.bucket, charged_append]
  lastRefill := by
    rw [hbucket, charge, if_neg ho]
    split_ifs
    · exact le_rfl
    · exact le_rfl
  capacity := by rw [hbucket, charge_capacity, h.capacity]
  refill := by rw [hbucket, charge_refillPerSecond, h.refill]

/-- **A call continues the run so far.**

**Proof sketch.** The pruned window has the live slots, which stay the live ones of the longer
run. A slot that is taken now is live, and the bucket is charged as the result tells. -/
theorem step {ip : IpAddr} {result : Except SynError Unit} {g' : RateLimiter}
    (h : History config start past now g) (hnow : now ≤ now')
    (hallows : g.Allows ip now' result g') :
    History config start (past ++ [⟨ip, now', result⟩]) now' g' := by
  cases hallows with
  | window hfull => exact h.of_refused hnow rfl
  | global hroom hempty =>
    refine h.of_taken hnow ?_ rfl rfl ?_
    · simp [AllowOutcome.RefusedBy]
    · simp [AllowOutcome.RefusedBy, charge]
  | own hroom htoken hempty =>
    refine h.of_taken hnow ?_ rfl rfl ?_
    · simp [AllowOutcome.RefusedBy]
    · simp [AllowOutcome.RefusedBy, charge]
  | ok hroom htoken hown =>
    refine h.of_taken hnow ?_ rfl rfl ?_
    · simp [AllowOutcome.RefusedBy]
    · simp [AllowOutcome.RefusedBy, charge]

end History

/-! ## The two runs -/

/-- The level of the bucket of an address. -/
def levelOf (g : RateLimiter) (ip : IpAddr) (t : Instant) : ℚ :=
  Bucket.Fill.levelAt (g.config.perIpCapacity.toNat : ℚ) g.config.perIpRefillPerSecond.toNat
    t.secs (g.fillOf ip)

/-- A call that the bucket of its own address refuses only looks at it, and changes no level. -/
theorem Tracks.levelOf_refused {g g' : RateLimiter} {ips : Finset IpAddr} {start now t : Instant}
    {ip : IpAddr} (htracks : g.Tracks ips start) (hip : ip ∈ ips) (hnow : start ≤ now)
    (hconfig : g'.config = g.config)
    (hperIp : g'.perIp = g.stored ip now ((g.bucketOf ip now).1.refill now)) (ht : now ≤ t)
    (ip' : IpAddr) : g'.levelOf ip' t = g.levelOf ip' t := by
  unfold levelOf
  rw [htracks.fillOf_of_stored hip hperIp, hconfig]
  split_ifs with heq
  · rw [heq, TokenBucket.refill_fill, htracks.tokens_bucketOf ip hnow]
    exact Bucket.Fill.levelAt_look (Nat.cast_nonneg _) (Instant.secs_le ht) _
  · rfl

/-- A call that is admitted takes a token of its address. -/
theorem Tracks.levelOf_spent {g g' : RateLimiter} {ips : Finset IpAddr} {start now : Instant}
    {ip : IpAddr} (htracks : g.Tracks ips start) (hip : ip ∈ ips) (hnow : start ≤ now)
    (hallows : g.Allows ip now (.ok ()) g') (ip' : IpAddr) (t : Instant) :
    g'.levelOf ip' t = if ip' = ip then
        Bucket.Fill.levelAt (g.config.perIpCapacity.toNat : ℚ)
          g.config.perIpRefillPerSecond.toNat t.secs (some ⟨g.levelOf ip now - 1, now.secs⟩)
      else g.levelOf ip' t := by
  cases hallows with
  | ok hroom htoken hown =>
    unfold levelOf
    rw [htracks.fillOf_of_stored hip rfl]
    split_ifs with heq
    · rw [TokenBucket.refill_spend_fill, htracks.tokens_bucketOf ip hnow]
    · rfl

/-- The limiter `g` of the whole run and the limiter `g'` of the run without the calls that the
buckets of their own addresses refused: these took tokens of all addresses, and left the buckets
of the addresses alone. -/
structure Parallel (config : RateLimiterConfig) (start : Instant) (ips : Finset IpAddr)
    (past : List AllowOutcome) (now : Instant) (g g' : RateLimiter) : Prop where
  history : History config start past now g
  history' : History config start (purge past) now g'
  tracks : g.Tracks ips now
  tracks' : g'.Tracks ips now
  ahead (t : Instant) (h : now ≤ t) :
    (g.globalBucket.refill t).tokens ≤ (g'.globalBucket.refill t).tokens
  level (ip : IpAddr) (t : Instant) (h : now ≤ t) : g.levelOf ip t = g'.levelOf ip t

/-- A new limiter runs parallel to itself. -/
theorem parallel_new {config : RateLimiterConfig} (start : Instant) {ips : Finset IpAddr}
    (h : ips.card ≤ max 1 config.maxTrackedIps) :
    Parallel config start ips [] start (new config start) (new config start) where
  history := history_new config start
  history' := history_new config start
  tracks := tracks_new h
  tracks' := tracks_new h
  ahead _ _ := le_rfl
  level _ _ _ := rfl

/-- A call that the bucket of its own address refused is taken out. -/
theorem purge_append_of_own {past : List AllowOutcome} {o : AllowOutcome} (h : o.OwnRefused) :
    purge (past ++ [o]) = purge past := by
  simp [purge, h]

/-- Any other call stays. -/
theorem purge_append_of_not {past : List AllowOutcome} {o : AllowOutcome} (h : ¬o.OwnRefused) :
    purge (past ++ [o]) = purge past ++ [o] := by
  simp [purge, h]

/-- A call that the bucket of its own address refused is taken out at the front. -/
theorem purge_cons_of_own {o : AllowOutcome} {os : List AllowOutcome} (h : o.OwnRefused) :
    purge (o :: os) = purge os := by
  simp [purge, h]

/-- Any other call stays at the front. -/
theorem purge_cons_of_not {o : AllowOutcome} {os : List AllowOutcome} (h : ¬o.OwnRefused) :
    purge (o :: os) = o :: purge os := by
  simp [purge, h]

/-- Fewer calls take fewer slots. -/
theorem length_live_purge_le (config : RateLimiterConfig) (now : Instant)
    (past : List AllowOutcome) :
    (live config now (slots (purge past))).length ≤ (live config now (slots past)).length := by
  have hpurge : (purge past).Sublist past := List.filter_sublist
  exact (((hpurge.filter _).map _).filter _).length_le

namespace Parallel

variable {config : RateLimiterConfig} {start now now' : Instant} {ips : Finset IpAddr}
  {past : List AllowOutcome} {ip : IpAddr} {result : Except SynError Unit}
  {g g' g₁ g₁' : RateLimiter}

/-- The whole run finds no more room in the window. -/
theorem prune_le (h : Parallel config start ips past now g g') (hnow : now ≤ now') :
    (g'.prune now').length ≤ (g.prune now').length := by
  rw [h.history.prune_eq hnow, h.history'.prune_eq hnow]
  exact length_live_purge_le config now' past

/-- Whether a call is fair, in terms of the two limiters. -/
theorem fair_iff (h : Parallel config start ips past now g g') (hnow : now ≤ now') :
    Fair config start past now' ↔
      (g.config.globalWindowLimit ≤ (g.prune now').length →
        g'.config.globalWindowLimit ≤ (g'.prune now').length) ∧
      ((g.prune now').length < g.config.globalWindowLimit →
        (g.globalBucket.refill now').tokens < 1 → (g'.globalBucket.refill now').tokens < 1) := by
  rw [h.history.prune_eq hnow, h.history'.prune_eq hnow, h.history.bucket, h.history'.bucket,
    h.history.config_eq, h.history'.config_eq]
  exact ⟨fun hfair => ⟨hfair.window, hfair.global⟩, fun hfair => ⟨hfair.1, hfair.2⟩⟩

/-- Both limiters take the same step. -/
theorem step_both (h : Parallel config start ips past now g g') (hip : ip ∈ ips)
    (hnow : now ≤ now') (hallows : g.Allows ip now' result g₁)
    (hallows' : g'.Allows ip now' result g₁')
    (hown : ¬(AllowOutcome.mk ip now' result).OwnRefused)
    (hahead : ∀ t, now' ≤ t →
      (g₁.globalBucket.refill t).tokens ≤ (g₁'.globalBucket.refill t).tokens)
    (hlevel : ∀ ip t, now' ≤ t → g₁.levelOf ip t = g₁'.levelOf ip t) :
    Parallel config start ips (past ++ [⟨ip, now', result⟩]) now' g₁ g₁' where
  history := h.history.step hnow hallows
  history' := by
    rw [purge_append_of_not hown]
    exact h.history'.step hnow hallows'
  tracks := h.tracks.step hip hnow hallows
  tracks' := h.tracks'.step hip hnow hallows'
  ahead := hahead
  level := hlevel

/-- **A call that the bucket of its own address refuses** is a step of the whole run only.

**Proof sketch.** It takes a slot and a token of all addresses, so the whole run falls behind, and
it only looks at the bucket of its address. -/
theorem step_own (h : Parallel config start ips past now g g') (hip : ip ∈ ips) (hnow : now ≤ now')
    (hallows : g.Allows ip now' result g₁) (hown : (AllowOutcome.mk ip now' result).OwnRefused) :
    Fair config start past now' ∧
      Parallel config start ips (past ++ [⟨ip, now', result⟩]) now' g₁ g' := by
  have hhistory := h.history.step hnow hallows
  have htracks := h.tracks.step hip hnow hallows
  cases hallows with
  | window hfull => simp [AllowOutcome.RefusedBy] at hown
  | global hroom hempty => simp [AllowOutcome.RefusedBy] at hown
  | ok hroom htoken hown' => simp [AllowOutcome.RefusedBy] at hown
  | own hroom htoken hempty =>
    constructor
    · rw [h.fair_iff hnow]
      exact ⟨fun hfull => absurd hfull (not_le_of_gt hroom),
        fun _ hempty => absurd hempty (not_lt_of_ge htoken)⟩
    exact {
      history := hhistory
      history' := by
        rw [purge_append_of_own hown]
        exact h.history'.mono hnow
      tracks := htracks
      tracks' := h.tracks'.of_perIp_eq hnow rfl rfl
      ahead := by
        intro t ht
        have hspend := TokenBucket.spend_refill_le (g.globalBucket.refill now') t
        have hrefill := TokenBucket.refill_refill_tokens (h.history.lastRefill.trans hnow) ht
        exact (hspend.trans_eq hrefill).trans (h.ahead t (hnow.trans ht))
      level := by
        intro ip' t ht
        refine (h.tracks.levelOf_refused hip hnow ?_ ?_ ht ip').trans
          (h.level ip' t (hnow.trans ht))
        · rfl
        · rfl }

/-- **Any other call** is a step of both runs, with the same result exactly if it is fair.

**Proof sketch.** The run without the refused calls finds no less room and tokens, and the same
level in the bucket of the caller's address. So a different result needs a full window or an empty
bucket that only the whole run finds. -/
theorem step_other {result' : Except SynError Unit} (h : Parallel config start ips past now g g')
    (hip : ip ∈ ips) (hnow : now ≤ now') (hallows : g.Allows ip now' result g₁)
    (hallows' : g'.Allows ip now' result' g₁')
    (hown : ¬(AllowOutcome.mk ip now' result).OwnRefused) :
    Fair config start past now' ∧ result' = result ∧
        Parallel config start ips (past ++ [⟨ip, now', result⟩]) now' g₁ g₁' ∨
      ¬Fair config start past now' ∧ result' ≠ result := by
  rw [h.fair_iff hnow]
  have hlimit : g'.config.globalWindowLimit = g.config.globalWindowLimit := by
    rw [h.history.config_eq, h.history'.config_eq]
  have hprune := h.prune_le hnow
  have hahead := h.ahead now' hnow
  cases hallows with
  | window hfull =>
    -- only room in the other run makes a difference
    cases hallows' with
    | window hfull' =>
      refine .inl ⟨⟨fun _ => hfull', fun hroom => absurd hfull (not_le_of_gt hroom)⟩, rfl, ?_⟩
      exact h.step_both hip hnow (.window hfull) (.window hfull') hown
        (fun t ht => h.ahead t (hnow.trans ht)) fun ip t ht => h.level ip t (hnow.trans ht)
    | global hroom' hempty' =>
      exact .inr ⟨fun hfair => absurd (hfair.1 hfull) (not_le_of_gt hroom'), by simp⟩
    | own hroom' htoken' hempty' =>
      exact .inr ⟨fun hfair => absurd (hfair.1 hfull) (not_le_of_gt hroom'), by simp⟩
    | ok hroom' htoken' hown' =>
      exact .inr ⟨fun hfair => absurd (hfair.1 hfull) (not_le_of_gt hroom'), by simp⟩
  | global hroom hempty =>
    -- only a token in the other run makes a difference
    cases hallows' with
    | window hfull' => omega
    | global hroom' hempty' =>
      refine .inl ⟨⟨fun hfull => absurd hfull (not_le_of_gt hroom), fun _ _ => hempty'⟩, rfl, ?_⟩
      apply h.step_both hip hnow (.global hroom hempty) (.global hroom' hempty') hown
      · intro t ht
        change ((g.globalBucket.refill now').refill t).tokens ≤
          ((g'.globalBucket.refill now').refill t).tokens
        rw [TokenBucket.refill_refill_tokens (h.history.lastRefill.trans hnow) ht,
          TokenBucket.refill_refill_tokens (h.history'.lastRefill.trans hnow) ht]
        exact h.ahead t (hnow.trans ht)
      · exact fun ip t ht => h.level ip t (hnow.trans ht)
    | own hroom' htoken' hempty' =>
      exact .inr ⟨fun hfair => absurd (hfair.2 hroom hempty) (not_lt_of_ge htoken'), by simp⟩
    | ok hroom' htoken' hown' =>
      exact .inr ⟨fun hfair => absurd (hfair.2 hroom hempty) (not_lt_of_ge htoken'), by simp⟩
  | own hroom htoken hempty => exact absurd rfl hown
  | ok hroom htoken hown' =>
    -- the other run finds room and tokens too
    have hlevel : ((g'.bucketOf ip now').1.refill now').tokens =
        ((g.bucketOf ip now').1.refill now').tokens := by
      rw [h.tracks.tokens_bucketOf ip hnow, h.tracks'.tokens_bucketOf ip hnow]
      exact (h.level ip now' hnow).symm
    cases hallows' with
    | window hfull' => omega
    | global hroom' hempty' => linarith
    | own hroom' htoken' hempty' => linarith
    | ok hroom' htoken' hown'' =>
      refine .inl ⟨⟨fun hfull => absurd hfull (not_le_of_gt hroom),
        fun _ hempty => absurd hempty (not_lt_of_ge htoken)⟩, rfl, ?_⟩
      apply h.step_both hip hnow (.ok hroom htoken hown') (.ok hroom' htoken' hown'') hown
      · intro t ht
        apply TokenBucket.refill_spend_refill_le t _ _ hahead
        · rw [h.history.capacity, h.history'.capacity]
        · rw [h.history.refill, h.history'.refill]
      · intro ip' t ht
        have hspent := h.tracks.levelOf_spent hip hnow (.ok hroom htoken hown') ip' t
        have hspent' := h.tracks'.levelOf_spent hip hnow (.ok hroom' htoken' hown'') ip' t
        rw [hspent, hspent', h.level ip now' hnow, h.level ip' t (hnow.trans ht),
          h.history.config_eq, h.history'.config_eq]

/-- The two runs have the same results exactly if each call is fair.

**Proof sketch.** Induction on the run. A call that the bucket of its own address refuses is left
out of the second run. Any other call has the same result in both and the runs go on in parallel,
or it is not fair and the results differ. -/
theorem outcomes_purge_iff {calls : List AllowCall} (h : Parallel config start ips past now g g')
    (htimely : AllowCall.Timely now calls) (hips : ∀ c ∈ calls, c.ip ∈ ips) :
    g'.outcomes ((purge (g.outcomes calls)).map (·.call)) = purge (g.outcomes calls) ↔
      Log.AtEach (fun before o => Fair config start (past ++ before) o.now)
        (g.outcomes calls) := by
  induction calls generalizing past now g g' with
  | nil => exact iff_of_true rfl (Log.atEach_nil _)
  | cons c calls ih =>
    obtain ⟨hip, hrest⟩ := List.forall_mem_cons.mp hips
    have hallows := g.allows_allow c.ip c.now
    rw [outcomes, Log.atEach_cons, List.append_nil]
    have hafter : ∀ o : AllowOutcome,
        (fun before (x : AllowOutcome) => Fair config start (past ++ o :: before) x.now) =
          fun before x => Fair config start (past ++ [o] ++ before) x.now := by
      intro o
      funext before x
      rw [List.append_cons]
    rw [hafter]
    by_cases hown : (AllowOutcome.mk c.ip c.now (g.allow c.ip c.now).1).OwnRefused
    · obtain ⟨hfair, hparallel⟩ := h.step_own hip htimely.head hallows hown
      rw [purge_cons_of_own hown, ih hparallel htimely.tail hrest]
      simp only [hfair, true_and]
    · have hallows' := g'.allows_allow c.ip c.now
      rw [purge_cons_of_not hown, List.map_cons, outcomes, List.cons_eq_cons]
      rcases h.step_other hip htimely.head hallows hallows' hown with
        ⟨hfair, hresult, hparallel⟩ | ⟨hfair, hresult⟩
      · rw [← ih hparallel htimely.tail hrest]
        simp only [hfair, true_and, AllowOutcome.call, hresult]
      · simp [hfair, AllowOutcome.call, hresult]

end Parallel

/-- **Removing the calls that the buckets of their own addresses refused leaves the results of the
others unchanged exactly if each call is fair**: if no call is refused because of slots or tokens
that the removed calls took. -/
theorem unaffected_iff {config : RateLimiterConfig} {start : Instant} {calls : List AllowCall}
    (htimely : AllowCall.Timely start calls)
    (hcard : (calls.map (·.ip)).toFinset.card ≤ max 1 config.maxTrackedIps) :
    Unaffected config start calls ↔
      Log.AtEach (fun past o => Fair config start past o.now)
        ((new config start).outcomes calls) := by
  have hips : ∀ c ∈ calls, c.ip ∈ (calls.map (·.ip)).toFinset := by
    intro c hc
    exact List.mem_toFinset.mpr (List.mem_map_of_mem hc)
  exact (parallel_new start hcard).outcomes_purge_iff htimely hips

/-! ## An address that starves another -/

/-- One token for each address, two for all, and no refill. -/
def scarceConfig : RateLimiterConfig where
  perIpCapacity := 1
  perIpRefillPerSecond := 0
  globalCapacity := 2
  globalRefillPerSecond := 0

/-- One address asks twice, then another one asks. -/
def greedyCalls : List AllowCall :=
  [⟨.v4 (ipv4 10 0 0 1), 0⟩, ⟨.v4 (ipv4 10 0 0 1), 1⟩, ⟨.v4 (ipv4 10 0 0 2), 2⟩]

/-- The criterion for these calls. -/
theorem unaffected_iff_greedyCalls :
    Unaffected scarceConfig 0 greedyCalls ↔
      Log.AtEach (fun past o => Fair scarceConfig 0 past o.now)
        ((new scarceConfig 0).outcomes greedyCalls) :=
  unaffected_iff (by decide) (by decide)

/-- The second call of the first address is refused by its own bucket, and takes the token that
the other address needs. -/
theorem not_forall_unaffected :
    ¬∀ (config : RateLimiterConfig) (start : Instant) (calls : List AllowCall),
      AllowCall.Timely start calls →
        (calls.map (·.ip)).toFinset.card ≤ config.maxTrackedIps →
          Unaffected config start calls := by
  intro h
  have := h scarceConfig 0 greedyCalls (by decide) (by decide)
  revert this
  decide +kernel

end RateLimiter

end Synclaire
