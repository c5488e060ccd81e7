import Synclaire.Guard.IpBan
import Synclaire.Guard.RateLimiter
import Synclaire.Guard.SlowLoris
import Synclaire.Guard.StackMachine
import Synclaire.Guard.SynGuard
import Synclaire.Guard.Throttle

set_option relaxedAutoImplicit false
set_option autoImplicit false

/-!
# The guard stack of a server

A server builds its stack from a configuration with up to six guards, always in the same
order. The guards are the alternatives of one type, so that a list can hold them.

## Main definitions

* `Synclaire.GuardStackConfig` — the guards to build.
* `Synclaire.BuiltinGuard` — one of the six guards.
* `Synclaire.buildGuardStack` — the stack.
* `Synclaire.builtSystem` — the runs of a built stack.

## Main results

* `Synclaire.guards_of_builtSystem` — every reachable state has the guards of the configuration
  in order, and its throttle has no entry that counts nothing.
-/

namespace Synclaire

/-- `GuardStackConfig`. -/
structure GuardStackConfig where
  rateLimiter : Option RateLimiterConfig := none
  ipBan : Option IpBanConfig := none
  throttle : Option ThrottleConfig := none
  synGuard : Option SynGuardConfig := none
  slowLoris : Option SlowLorisConfig := none
  udpAmplification : Option UdpAmplificationConfig := none

/-- A guard of a built stack. -/
inductive BuiltinGuard
  | rateLimiter (g : RateLimiter)
  | ipBan (g : IpBan)
  | throttle (g : Throttle)
  | synGuard (g : SynGuard)
  | slowLoris (g : SlowLoris)
  | udpAmplification (g : UdpAmplificationGuard)
  deriving DecidableEq

/-- The answer of a guard, as the answer of an alternative. -/
def liftAnswer {G : Type} (wrap : G → BuiltinGuard) (answer : Except SynError Unit × G) :
    Except SynError Unit × BuiltinGuard :=
  (answer.1, wrap answer.2)

instance : Guard BuiltinGuard where
  name
    | .rateLimiter g => Guard.name g
    | .ipBan g => Guard.name g
    | .throttle g => Guard.name g
    | .synGuard g => Guard.name g
    | .slowLoris g => Guard.name g
    | .udpAmplification g => Guard.name g
  onReserve
    | .rateLimiter g, ctx, now => liftAnswer .rateLimiter (Guard.onReserve g ctx now)
    | .ipBan g, ctx, now => liftAnswer .ipBan (Guard.onReserve g ctx now)
    | .throttle g, ctx, now => liftAnswer .throttle (Guard.onReserve g ctx now)
    | .synGuard g, ctx, now => liftAnswer .synGuard (Guard.onReserve g ctx now)
    | .slowLoris g, ctx, now => liftAnswer .slowLoris (Guard.onReserve g ctx now)
    | .udpAmplification g, ctx, now => liftAnswer .udpAmplification (Guard.onReserve g ctx now)
  onEstablished
    | .rateLimiter g, ctx, now => liftAnswer .rateLimiter (Guard.onEstablished g ctx now)
    | .ipBan g, ctx, now => liftAnswer .ipBan (Guard.onEstablished g ctx now)
    | .throttle g, ctx, now => liftAnswer .throttle (Guard.onEstablished g ctx now)
    | .synGuard g, ctx, now => liftAnswer .synGuard (Guard.onEstablished g ctx now)
    | .slowLoris g, ctx, now => liftAnswer .slowLoris (Guard.onEstablished g ctx now)
    | .udpAmplification g, ctx, now =>
      liftAnswer .udpAmplification (Guard.onEstablished g ctx now)
  onPayload
    | .rateLimiter g, ctx, bytes, now => liftAnswer .rateLimiter (Guard.onPayload g ctx bytes now)
    | .ipBan g, ctx, bytes, now => liftAnswer .ipBan (Guard.onPayload g ctx bytes now)
    | .throttle g, ctx, bytes, now => liftAnswer .throttle (Guard.onPayload g ctx bytes now)
    | .synGuard g, ctx, bytes, now => liftAnswer .synGuard (Guard.onPayload g ctx bytes now)
    | .slowLoris g, ctx, bytes, now => liftAnswer .slowLoris (Guard.onPayload g ctx bytes now)
    | .udpAmplification g, ctx, bytes, now =>
      liftAnswer .udpAmplification (Guard.onPayload g ctx bytes now)
  onActivity
    | .rateLimiter g, ctx, now => liftAnswer .rateLimiter (Guard.onActivity g ctx now)
    | .ipBan g, ctx, now => liftAnswer .ipBan (Guard.onActivity g ctx now)
    | .throttle g, ctx, now => liftAnswer .throttle (Guard.onActivity g ctx now)
    | .synGuard g, ctx, now => liftAnswer .synGuard (Guard.onActivity g ctx now)
    | .slowLoris g, ctx, now => liftAnswer .slowLoris (Guard.onActivity g ctx now)
    | .udpAmplification g, ctx, now => liftAnswer .udpAmplification (Guard.onActivity g ctx now)
  onClose
    | .rateLimiter g, ctx, now => .rateLimiter (Guard.onClose g ctx now)
    | .ipBan g, ctx, now => .ipBan (Guard.onClose g ctx now)
    | .throttle g, ctx, now => .throttle (Guard.onClose g ctx now)
    | .synGuard g, ctx, now => .synGuard (Guard.onClose g ctx now)
    | .slowLoris g, ctx, now => .slowLoris (Guard.onClose g ctx now)
    | .udpAmplification g, ctx, now => .udpAmplification (Guard.onClose g ctx now)

/-- `build_guard_stack`. -/
def buildGuardStack (config : GuardStackConfig) (now : Instant) : GuardStack BuiltinGuard where
  guards :=
    (config.rateLimiter.toList.map fun c => .rateLimiter (.new c now)) ++
    (config.ipBan.toList.map fun c => .ipBan (.new c)) ++
    (config.throttle.toList.map fun c => .throttle (.new c)) ++
    (config.synGuard.toList.map fun c => .synGuard (.new c)) ++
    (config.slowLoris.toList.map fun c => .slowLoris (.new c)) ++
    (config.udpAmplification.toList.map fun c => .udpAmplification ⟨c⟩)
  observer := false
  allowlist := .new

namespace BuiltinGuard

/-- The place of a guard in the order in which a stack is built. -/
def rank : BuiltinGuard → ℕ
  | .rateLimiter _ => 0
  | .ipBan _ => 1
  | .throttle _ => 2
  | .synGuard _ => 3
  | .slowLoris _ => 4
  | .udpAmplification _ => 5

/-- A throttle has no entry that counts nothing. -/
def Sound : BuiltinGuard → Prop
  | .throttle g => g.NoZeroEntry
  | _ => True

/-- The ban list changes through `ban` and `unban`; the other guards have no handle outside
the stack. -/
def BanChange : BuiltinGuard → BuiltinGuard → Prop
  | .ipBan _, .ipBan _ => True
  | g, g' => g' = g

/-- **The changes of a ban list are those that calls of `ban` and `unban` make.** -/
theorem banChange_ipBan_iff {b : IpBan} {g : BuiltinGuard} :
    (ipBan b).BanChange g ↔ ∃ ops, g = ipBan (b.afterOps ops) := by
  constructor
  · intro h
    cases g with
    | ipBan b' =>
      obtain ⟨ops, rfl⟩ := b.exists_afterOps b'
      exact ⟨ops, rfl⟩
    | _ => cases h
  · rintro ⟨ops, rfl⟩
    trivial

/-- A change of its own keeps the kind of a guard. -/
theorem BanChange.rank {g g' : BuiltinGuard} (h : g.BanChange g') : g'.rank = g.rank := by
  cases g with
  | ipBan b =>
    cases g' with
    | ipBan b' => rfl
    | _ => cases h
  | _ => exact congrArg BuiltinGuard.rank h

/-- A change of its own keeps a guard sound. -/
theorem BanChange.sound {g g' : BuiltinGuard} (h : g.BanChange g') (hg : g.Sound) :
    g'.Sound := by
  cases g with
  | ipBan b =>
    cases g' with
    | ipBan b' => trivial
    | _ => cases h
  | _ => exact (show _ = _ from h) ▸ hg

/-- Callbacks keep the kind of a guard. -/
theorem keptByCallbacks_rank (P : ℕ → Prop) :
    StackState.KeptByCallbacks fun g : BuiltinGuard => P g.rank where
  onReserve g ctx now h := by cases g <;> exact h
  onEstablished g ctx now h := by cases g <;> exact h
  onPayload g ctx bytes now h := by cases g <;> exact h
  onActivity g ctx now h := by cases g <;> exact h
  onClose g ctx now h := by cases g <;> exact h

/-- Callbacks keep a throttle free of entries that count nothing. -/
theorem keptByCallbacks_sound : StackState.KeptByCallbacks Sound where
  onReserve g ctx now h := by
    cases g with
    | throttle g => exact Throttle.NoZeroEntry.acquire h ctx.peerIp
    | _ => trivial
  onEstablished g ctx now h := by cases g <;> exact h
  onPayload g ctx bytes now h := by cases g <;> exact h
  onActivity g ctx now h := by cases g <;> exact h
  onClose g ctx now h := by
    cases g with
    | throttle g => exact Throttle.NoZeroEntry.release h ctx.peerIp
    | _ => trivial

end BuiltinGuard

/-- The runs of a stack built at time `now`. -/
def builtSystem (config : GuardStackConfig) (now : Instant) :
    Transition.System (StackState BuiltinGuard) (StackAction BuiltinGuard) :=
  StackState.system (buildGuardStack config now) BuiltinGuard.BanChange

/-- An optional guard of rank `n` contributes at most `n` to the list of ranks. -/
theorem sublist_rank {C : Type} (o : Option C) {f : C → BuiltinGuard} {n : ℕ}
    (hf : ∀ c, (f c).rank = n) : ((o.toList.map f).map BuiltinGuard.rank).Sublist [n] := by
  cases o with
  | none => exact List.nil_sublist _
  | some c => simp [hf]

/-- The guards are built in the order of their ranks. -/
theorem buildGuardStack_sorted (config : GuardStackConfig) (now : Instant) :
    (buildGuardStack config now).guards.Pairwise fun g g' => g.rank < g'.rank := by
  have hsub : ((buildGuardStack config now).guards.map BuiltinGuard.rank).Sublist
      ([0] ++ [1] ++ [2] ++ [3] ++ [4] ++ [5]) := by
    simp only [buildGuardStack, List.map_append]
    refine .append (.append (.append (.append (.append ?_ ?_) ?_) ?_) ?_) ?_ <;>
      exact sublist_rank _ fun _ => rfl
  exact List.pairwise_map.mp (List.Pairwise.sublist hsub (by decide))

/-- A new guard is sound. -/
theorem buildGuardStack_sound (config : GuardStackConfig) (now : Instant) {g : BuiltinGuard}
    (hg : g ∈ (buildGuardStack config now).guards) : g.Sound := by
  cases g with
  | throttle g =>
    have : ∃ c, g = .new c := by
      simp [buildGuardStack] at hg
      obtain ⟨c, -, rfl⟩ := hg
      exact ⟨c, rfl⟩
    obtain ⟨c, rfl⟩ := this
    exact .inr fun ip => by simp [Throttle.new]
  | _ => trivial

/-- **The guards of a reachable state** are in the order of their ranks, and they are sound. -/
theorem guards_of_builtSystem {config : GuardStackConfig} {start : Instant}
    {s : StackState BuiltinGuard} (h : (builtSystem config start).Reach s) :
    (s.guards.Pairwise fun g g' => g.rank < g'.rank) ∧ ∀ g ∈ s.guards, g.Sound := by
  let built := (buildGuardStack config start).guards
  obtain ⟨hlen, hinv⟩ := StackState.guards_of_reach
    (I := fun i g => built[i]?.map BuiltinGuard.rank = some g.rank ∧ g.Sound)
    (fun i => (BuiltinGuard.keptByCallbacks_rank fun n =>
      built[i]?.map BuiltinGuard.rank = some n).and BuiltinGuard.keptByCallbacks_sound)
    (fun i g g' hchange hg => ⟨by rw [hchange.rank, hg.1], hchange.sound hg.2⟩)
    (fun i g hg => ⟨congrArg (Option.map BuiltinGuard.rank) hg,
      buildGuardStack_sound config start (List.mem_of_getElem? hg)⟩) h
  refine ⟨List.pairwise_iff_getElem.mpr ?_, ?_⟩
  · intro i j hi hj hij
    have hranks : ∀ k, (hk : k < s.guards.length) → ∀ (hk' : k < built.length),
        built[k].rank = s.guards[k].rank := by
      intro k hk hk'
      have hrank := (hinv k _ (List.getElem?_eq_getElem hk)).1
      rw [List.getElem?_eq_getElem hk'] at hrank
      exact Option.some.inj hrank
    rw [← hranks i hi (hlen ▸ hi), ← hranks j hj (hlen ▸ hj)]
    exact List.pairwise_iff_getElem.mp (buildGuardStack_sorted config start) i j _ _ hij
  · intro g hg
    obtain ⟨i, hi⟩ := List.mem_iff_getElem?.mp hg
    exact (hinv i g hi).2

end Synclaire
