import Synclaire.Guard.StackRefine
import Synclaire.Guard.StackSimilar
import Synclaire.Server.Build

set_option relaxedAutoImplicit false
set_option autoImplicit false

/-!
# What a rollback undoes

A refused reservation closes the guards that had accepted. For the ban list and the throttle
this undoes the acceptance, and the half-open guard is never among them, since no guard after
it refuses. The rate limiter has no close: a connection it let through and a later guard
refused has spent its tokens and its place in the window.

## Main definitions

* `Synclaire.BuiltinGuard.Restored` — a guard is as before, apart from the passing of time.
* `Synclaire.RestoresAccepted` — a reservation leaves every guard that accepted as before.
* `Synclaire.BuiltinGuard.Similar` — guards that nobody can tell apart.

## Main results

* `Synclaire.BuiltinGuard.undone_eq` — a close undoes the acceptance of the guards that a later
  one can refuse, except the rate limiter's.
* `Synclaire.reserve_error_traceless_iff` — a refused reservation leaves no trace exactly when
  no rate limiter has let it through.
-/

namespace Synclaire

namespace BuiltinGuard

/-! ## One guard -/

/-- The guard accepts a reservation. -/
def Accepts (g : BuiltinGuard) (ctx : GuardContext) (now : Instant) : Prop :=
  (Guard.onReserve g ctx now).1 = .ok ()

/-- `g'` is `g` as before, apart from refill and pruning due to elapsed time. -/
def Restored : BuiltinGuard → BuiltinGuard → Prop
  | .rateLimiter g, .rateLimiter g' => g.Aged g'
  | g, g' => g' = g

/-- Guards that answer every callback alike: throttles may differ in entries that count
nothing, the others are equal. -/
def Similar : BuiltinGuard → BuiltinGuard → Prop
  | .throttle g, .throttle g' => g.Similar g'
  | g, g' => g' = g

/-- A guard other than the rate limiter is restored as it is. -/
theorem Restored.refl {g : BuiltinGuard} (h : g.rank ≠ 0) : g.Restored g := by
  cases g with
  | rateLimiter g => exact absurd rfl h
  | _ => exact rfl

/-- Every guard is similar to itself. -/
theorem Similar.refl (g : BuiltinGuard) : g.Similar g := by
  cases g with
  | throttle g => exact ⟨rfl, rfl, fun _ => rfl⟩
  | _ => exact rfl

/-- A rate limiter accepts exactly when its gates are open. -/
theorem accepts_rateLimiter_iff {g : RateLimiter} {ctx : GuardContext} {now : Instant} :
    (rateLimiter g).Accepts ctx now ↔ g.Admits ctx.peerIp now :=
  RateLimiter.allow_isOk_iff g ctx.peerIp now

/-- Similar guards are equal or similar throttles. -/
theorem similar_cases {g g' : BuiltinGuard} (h : g.Similar g') :
    g' = g ∨ ∃ t t', g = .throttle t ∧ g' = .throttle t' ∧ t.Similar t' := by
  cases g with
  | throttle t =>
    cases g' with
    | throttle t' => exact .inr ⟨t, t', rfl, rfl, h⟩
    | _ => cases h
  | _ => exact .inl h

/-- Similar guards cannot be told apart. -/
theorem bisimulation_similar : Bisimulation Similar where
  name g g' h := by
    rcases similar_cases h with rfl | ⟨t, t', rfl, rfl, -⟩
    · rfl
    · rfl
  onReserve g g' ctx now h := by
    rcases similar_cases h with rfl | ⟨t, t', rfl, rfl, hthrottle⟩
    · exact ⟨rfl, .refl _⟩
    · exact hthrottle.acquire ctx.peerIp
  onEstablished g g' ctx now h := by
    rcases similar_cases h with rfl | ⟨t, t', rfl, rfl, -⟩
    · exact ⟨rfl, .refl _⟩
    · exact ⟨rfl, h⟩
  onPayload g g' ctx bytes now h := by
    rcases similar_cases h with rfl | ⟨t, t', rfl, rfl, -⟩
    · exact ⟨rfl, .refl _⟩
    · exact ⟨rfl, h⟩
  onActivity g g' ctx now h := by
    rcases similar_cases h with rfl | ⟨t, t', rfl, rfl, -⟩
    · exact ⟨rfl, .refl _⟩
    · exact ⟨rfl, h⟩
  onClose g g' ctx now h := by
    rcases similar_cases h with rfl | ⟨t, t', rfl, rfl, hthrottle⟩
    · exact .refl _
    · exact hthrottle.release ctx.peerIp

/-- A guard that refuses comes before the slow-client guard. -/
theorem rank_le_of_refuses {g g' : BuiltinGuard} {ctx : GuardContext} {now : Instant}
    {err : SynError} (h : Guard.onReserve g ctx now = (.error err, g')) : g.rank ≤ 3 := by
  cases g with
  | slowLoris g => cases h
  | udpAmplification g => cases h
  | _ => simp [rank]

/-- A guard other than the rate limiter that refuses stays similar.

**Proof sketch.** The ban list and the half-open guard do not change. A throttle keeps its
counts; it writes an entry that counts nothing if its cap is zero. -/
theorem similar_of_refuses {g g' : BuiltinGuard} {ctx : GuardContext} {now : Instant}
    {err : SynError} (h : Guard.onReserve g ctx now = (.error err, g')) (hrank : g.rank ≠ 0) :
    g.Similar g' := by
  cases g with
  | rateLimiter g => exact absurd rfl hrank
  | ipBan g => exact (congrArg Prod.snd h).symm
  | throttle g =>
    have hres : (g.acquire ctx.peerIp).1 = .error err := congrArg Prod.fst h
    have hnext : g' = .throttle (g.acquire ctx.peerIp).2 := (congrArg Prod.snd h).symm
    rw [hnext]
    obtain ⟨hglobal, hheld⟩ := Throttle.acquire_error_counts hres
    exact ⟨Throttle.acquire_config g ctx.peerIp, hglobal, hheld⟩
  | synGuard g =>
    have hres : (SynGuard.reserve g.config g.state ctx.peerIp now).1 = .error err :=
      congrArg Prod.fst h
    have hnext : g' = .synGuard { g with
        state := (SynGuard.reserve g.config g.state ctx.peerIp now).2 } :=
      (congrArg Prod.snd h).symm
    rw [hnext, SynGuard.reserve_error hres]
    exact rfl
  | slowLoris g => cases h
  | udpAmplification g => cases h

/-- **What a close undoes**: the acceptance of a sound guard that is neither the rate limiter
nor one of the last three. -/
theorem undone_eq {g : BuiltinGuard} {ctx : GuardContext} {reserved closed : Instant}
    (hsound : g.Sound) (haccepts : g.Accepts ctx reserved) (hrank : g.rank ≠ 0)
    (hlt : g.rank < 3) : GuardStack.undone ctx reserved closed g = g := by
  cases g with
  | rateLimiter g => exact absurd rfl hrank
  | ipBan g => rfl
  | throttle g => exact congrArg throttle (Throttle.release_acquire hsound haccepts)
  | _ => simp [rank] at hlt

/-- A close does not undo the acceptance of the rate limiter. -/
theorem not_restored_undone {g : RateLimiter} {ctx : GuardContext} {reserved : Instant}
    (h : g.Admits ctx.peerIp reserved) (closed : Instant) :
    ¬(rateLimiter g).Restored (GuardStack.undone ctx reserved closed (rateLimiter g)) :=
  RateLimiter.not_aged_allow ((RateLimiter.allow_isOk_iff g ctx.peerIp reserved).mpr h)

end BuiltinGuard

/-! ## A refused reservation -/

/-- The reservation leaves every guard that accepted it, with all before it, as it was, apart
from refill and pruning due to elapsed time. -/
def RestoresAccepted (stack : GuardStack BuiltinGuard) (ctx : GuardContext)
    (clock : ℕ → Instant) (now : Instant) : Prop :=
  ∀ (i : ℕ) (g g' : BuiltinGuard), stack.guards[i]? = some g →
    (∀ j ≤ i, ∀ b : BuiltinGuard, stack.guards[j]? = some b → b.Accepts ctx (clock j)) →
    (stack.reserve ctx clock now).2.1.guards[i]? = some g' → g.Restored g'

/-- If the reservation is refused, a guard other than the first one does it. -/
def RefusedLater (stack : GuardStack BuiltinGuard) (ctx : GuardContext) (clock : ℕ → Instant) :
    Prop :=
  ∀ g : BuiltinGuard, stack.guards.head? = some g → g.Accepts ctx (clock 0)

/-- The first guard is a rate limiter that lets the reservation through. -/
def Charged (stack : GuardStack BuiltinGuard) (ctx : GuardContext) (clock : ℕ → Instant) :
    Prop :=
  ∃ g, stack.guards.head? = some (.rateLimiter g) ∧ g.Admits ctx.peerIp (clock 0)

/-- What a refused reservation has done: it stopped at one guard, and the ones before it were
closed. -/
theorem reserve_error_cases {stack : GuardStack BuiltinGuard} {ctx : GuardContext}
    {clock : ℕ → Instant} {now : Instant} {err : SynError}
    (h : (stack.reserve ctx clock now).1 = .error err) :
    ∃ pre g post refusal g', stack.guards = pre ++ g :: post ∧
      (∀ (i : ℕ) (a : BuiltinGuard), pre[i]? = some a → a.Accepts ctx (clock i)) ∧
      Guard.onReserve g ctx (clock pre.length) = (.error refusal, g') ∧
      (stack.reserve ctx clock now).2.1 = { stack with
        guards :=
          (pre.mapIdx fun i a => GuardStack.undone ctx (clock i) now a) ++ g' :: post } := by
  unfold GuardStack.reserve at h ⊢
  split_ifs at h ⊢ with hlisted hobserver
  all_goals
    rcases hloop : GuardStack.reserveLoop ctx clock now [] stack.guards with ⟨_ | _, guards, events⟩
    · obtain ⟨pre, g, post, refusal, g', hguards, hacc, hg, -, hout⟩ :=
        GuardStack.reserveLoop_error hloop
      simp only [List.length_nil, Nat.zero_add] at hacc hg hout
      exact ⟨pre, g, post, refusal, g', hguards, hacc, hg, by rw [hout]; rfl⟩
    · rw [hloop] at h
      cases h

/-- The guards that a later one can refuse and no rate limiter has charged are as before.

**Proof sketch.** Ranks grow along the stack, so a guard before a refusing one has rank below
`3`; rank `0` is a rate limiter in first place, which accepted. The rest is `undone_eq`. -/
theorem undone_accepted {stack : GuardStack BuiltinGuard} {ctx : GuardContext}
    {clock : ℕ → Instant} {now : Instant} {pre post : List BuiltinGuard}
    {g g' : BuiltinGuard} {refusal : SynError} (hguards : stack.guards = pre ++ g :: post)
    (hsorted : stack.guards.Pairwise fun g g' => g.rank < g'.rank)
    (hsound : ∀ g ∈ stack.guards, g.Sound)
    (hacc : ∀ (i : ℕ) (a : BuiltinGuard), pre[i]? = some a → a.Accepts ctx (clock i))
    (hg : Guard.onReserve g ctx (clock pre.length) = (.error refusal, g'))
    (hcharged : ¬Charged stack ctx clock) {i : ℕ} {a : BuiltinGuard} (ha : pre[i]? = some a) :
    a.rank ≠ 0 ∧ GuardStack.undone ctx (clock i) now a = a := by
  rw [hguards] at hsorted
  have hamem : a ∈ pre := List.mem_of_getElem? ha
  have hrank : a.rank ≠ 0 := by
    intro hzero
    cases i with
    | zero =>
      cases a with
      | rateLimiter r =>
        refine hcharged ⟨r, ?_, BuiltinGuard.accepts_rateLimiter_iff.mp (hacc 0 _ ha)⟩
        rw [hguards, List.head?_append, List.head?_eq_getElem?, ha]
        rfl
      | _ => simp [BuiltinGuard.rank] at hzero
    | succ i =>
      -- the guard in first place would have a smaller rank
      cases pre with
      | nil => cases hamem
      | cons b pre =>
        have hb : b.rank < a.rank :=
          List.rel_of_pairwise_cons hsorted (List.mem_append_left _ (List.mem_of_getElem? ha))
        omega
  have hlt : a.rank < g.rank :=
    (List.pairwise_append.mp hsorted).2.2 a hamem g List.mem_cons_self
  have hle := BuiltinGuard.rank_le_of_refuses hg
  have hsounda : a.Sound := hsound a (by rw [hguards]; exact List.mem_append_left _ hamem)
  exact ⟨hrank, BuiltinGuard.undone_eq hsounda (hacc i a ha) hrank (by omega)⟩

/-- **When a refused reservation leaves no trace.** In every reachable state of a built stack,
a refused reservation leaves the guards that had accepted as before, and if a later guard than
the first refused it, it changes no other verdict, exactly when no rate limiter has let it
through.

**Proof sketch.** A rate limiter that let the connection through is not restored. Without one,
the accepted guards are restored by `undone_accepted`, and the guard that refused is similar to
what it was, so the stacks are related by a bisimulation. -/
theorem reserve_error_traceless_iff {config : GuardStackConfig} {start : Instant}
    {s : StackState BuiltinGuard} (hr : (builtSystem config start).Reach s) (ctx : GuardContext)
    (clock : ℕ → Instant) (now : Instant) {err : SynError}
    (h : (s.stack.reserve ctx clock now).1 = .error err) :
    (RestoresAccepted s.stack ctx clock now ∧ (RefusedLater s.stack ctx clock →
      s.stack.SameVerdicts (s.stack.reserve ctx clock now).2.1)) ↔
    ¬Charged s.stack ctx clock := by
  obtain ⟨hsorted, hsound⟩ : (s.stack.guards.Pairwise fun g g' => g.rank < g'.rank) ∧
    ∀ g ∈ s.stack.guards, g.Sound := guards_of_builtSystem hr
  obtain ⟨pre, g, post, refusal, g', hguards, hacc, hg, hout⟩ := reserve_error_cases h
  have hrefuses : ¬g.Accepts ctx (clock pre.length) := by
    unfold BuiltinGuard.Accepts
    rw [hg]
    exact nofun
  constructor
  · rintro ⟨hrestores, -⟩ ⟨r, hhead, hadmits⟩
    have haccepts := BuiltinGuard.accepts_rateLimiter_iff.mpr hadmits
    cases pre with
    | nil =>
      rw [hguards] at hhead
      obtain rfl : g = .rateLimiter r := by simpa using hhead
      exact hrefuses haccepts
    | cons b pre =>
      rw [hguards] at hhead
      obtain rfl : b = .rateLimiter r := by simpa using hhead
      refine BuiltinGuard.not_restored_undone hadmits now
        (hrestores 0 _ _ (by rw [hguards]; rfl) ?_ (by rw [hout, List.mapIdx_cons]; rfl))
      intro j hj c hc
      obtain rfl := Nat.le_zero.mp hj
      rw [hguards] at hc
      obtain rfl : BuiltinGuard.rateLimiter r = c := by simpa using hc
      exact haccepts
  · intro hcharged
    have hundone : ∀ {i : ℕ} {a : BuiltinGuard}, pre[i]? = some a →
        a.rank ≠ 0 ∧ GuardStack.undone ctx (clock i) now a = a := fun ha =>
      undone_accepted hguards hsorted hsound hacc hg hcharged ha
    have hpre : (pre.mapIdx fun i a => GuardStack.undone ctx (clock i) now a) = pre := by
      refine List.ext_getElem? fun i => ?_
      rw [List.getElem?_mapIdx]
      cases ha : pre[i]? with
      | none => rfl
      | some a => exact congrArg some (hundone ha).2
    rw [hpre] at hout
    rw [hout]
    refine ⟨?_, fun hlater => ?_⟩
    · intro i a a' ha haccepts ha'
      rw [hout] at ha'
      rcases Nat.lt_or_ge i pre.length with hi | hi
      · rw [hguards, List.getElem?_append_left hi] at ha
        rw [List.getElem?_append_left hi, ha] at ha'
        obtain rfl := Option.some.inj ha'
        exact .refl (hundone ha).1
      · refine absurd (haccepts pre.length hi g ?_) hrefuses
        rw [hguards, List.getElem?_append_right le_rfl, Nat.sub_self]
        rfl
    · refine BuiltinGuard.bisimulation_similar.sameVerdicts ⟨?_, rfl⟩
      show List.Forall₂ _ s.stack.guards _
      rw [hguards]
      refine List.rel_append (List.forall₂_same.mpr fun _ _ => .refl _) (.cons ?_ ?_)
      · refine BuiltinGuard.similar_of_refuses hg ?_
        cases pre with
        | nil => exact absurd (hlater g (by rw [hguards]; rfl)) hrefuses
        | cons b pre =>
          rw [hguards] at hsorted
          have hb : b.rank < g.rank := List.rel_of_pairwise_cons hsorted
            (List.mem_append_right _ List.mem_cons_self)
          omega
      · exact List.forall₂_same.mpr fun _ _ => .refl _

/-- A context from a peer at time `0`. -/
def peerContext (ip : BitVec 32) (port : UInt16) : GuardContext := .new (.v4 ip port) none false 0

/-- Two tokens for all addresses together, and one connection for each address. -/
def chargedConfig : GuardStackConfig where
  rateLimiter := some { globalCapacity := 2, globalRefillPerSecond := 0 }
  throttle := some { maxConnectionsPerIp := 1 }

/-- `10.0.0.1` is connected. -/
def chargedRun : List (StackAction BuiltinGuard) :=
  [.reserve (peerContext (ipv4 10 0 0 1) 1001), .advance 0 0, .advance 0 0, .advance 0 0]

/-- The state in which it is. -/
def chargedState : StackState BuiltinGuard := .after (buildGuardStack chargedConfig 0) chargedRun

/-- The state is reachable. -/
theorem chargedState_reach : (builtSystem chargedConfig 0).Reach chargedState :=
  StackState.reach_after (by simp [chargedRun])

/-- A second connection of `10.0.0.1` passes the rate limiter and is refused by the throttle. -/
theorem reserve_chargedState :
    (chargedState.stack.reserve (peerContext (ipv4 10 0 0 1) 1002) (fun _ => 0) 0).1 =
      .error (.guardRejected "throttle".toList (SynError.throttled "per-ip".toList 1).toStr) := by
  decide +kernel

/-- The equivalence, for that reservation. -/
theorem reserve_error_traceless_chargedState :
    (RestoresAccepted chargedState.stack (peerContext (ipv4 10 0 0 1) 1002) (fun _ => 0) 0 ∧
      (RefusedLater chargedState.stack (peerContext (ipv4 10 0 0 1) 1002) (fun _ => 0) →
        chargedState.stack.SameVerdicts
          (chargedState.stack.reserve (peerContext (ipv4 10 0 0 1) 1002) (fun _ => 0) 0).2.1)) ↔
    ¬Charged chargedState.stack (peerContext (ipv4 10 0 0 1) 1002) (fun _ => 0) :=
  reserve_error_traceless_iff chargedState_reach _ _ _ reserve_chargedState

/-- Not every refused reservation leaves no trace: the refused second connection of `10.0.0.1`
has spent the last token, which `10.0.0.2` then lacks.

**Proof sketch.** With the attempt the connection of `10.0.0.2` is refused, without it it is
admitted; the rate limiter had accepted the attempt. -/
theorem not_forall_traceless :
    ¬∀ (config : GuardStackConfig) (start : Instant) (s : StackState BuiltinGuard),
      (builtSystem config start).Reach s → ∀ (ctx : GuardContext) (clock : ℕ → Instant)
        (now : Instant) (err : SynError), (s.stack.reserve ctx clock now).1 = .error err →
      RestoresAccepted s.stack ctx clock now ∧ (RefusedLater s.stack ctx clock →
        s.stack.SameVerdicts (s.stack.reserve ctx clock now).2.1) := by
  intro hall
  have hsame := (hall chargedConfig 0 chargedState chargedState_reach _ _ _ _
    reserve_chargedState).2
  have hlater : RefusedLater chargedState.stack (peerContext (ipv4 10 0 0 1) 1002)
      (fun _ => 0) := by
    intro g hg
    have haccepted : ∀ g ∈ chargedState.stack.guards.head?,
        (Guard.onReserve g (peerContext (ipv4 10 0 0 1) 1002) 0).1 = .ok () := by
      decide +kernel
    exact haccepted g hg
  have hverdict := (hsame hlater []).2 (peerContext (ipv4 10 0 0 2) 1003) (fun _ => 0) 0
  have hdiffer : ((chargedState.stack.reserve (peerContext (ipv4 10 0 0 1) 1002) (fun _ => 0)
      0).2.1.reserve (peerContext (ipv4 10 0 0 2) 1003) (fun _ => 0) 0).1 ≠
      (chargedState.stack.reserve (peerContext (ipv4 10 0 0 2) 1003) (fun _ => 0) 0).1 := by
    decide +kernel
  exact hdiffer hverdict

end Synclaire
