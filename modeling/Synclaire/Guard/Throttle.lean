import Synclaire.Lib.FMap
import Synclaire.Guard.Basic

set_option relaxedAutoImplicit false
set_option autoImplicit false

/-!
# The throttle

A cap on the number of simultaneous connections, in total and for each peer address. A slot
is acquired by a reservation and released by the close.

## Main definitions

* `Synclaire.Throttle` — the guard, with `acquire` and `release`.
* `Synclaire.Throttle.heldBy` — the slots counted for an address.
* `Synclaire.Throttle.WithinCaps` — the counts are within the caps.
* `Synclaire.Throttle.NoZeroEntry` — an entry of the map counts at least one slot.

## Main results

* `Synclaire.Throttle.acquire_ok`, `Synclaire.Throttle.acquire_error` — what `acquire` does.
* `Synclaire.Throttle.release_acquire` — `release` undoes a successful `acquire`.
* `Synclaire.Throttle.acquire_ok_heldBy`, `Synclaire.Throttle.release_heldBy` — the counts.
* `Synclaire.Throttle.Similar.acquire` — equal counts give equal verdicts.

## Implementation notes

`acquire` and `release` are taken as single steps here. The counters are natural numbers:
each counts open connections, so `usize` is not exceeded, and a stack releases only what was
acquired, so `fetch_sub` does not wrap.
-/

namespace Synclaire

/-- `ThrottleConfig`. -/
structure ThrottleConfig where
  maxConnectionsPerIp : ℕ := 1000
  maxConnectionsGlobal : ℕ := 100000
  deriving DecidableEq

/-- `Throttle`. -/
structure Throttle where
  config : ThrottleConfig
  perIp : FMap IpAddr ℕ
  global : ℕ
  deriving DecidableEq

namespace Throttle

/-- `Throttle::new`. -/
def new (config : ThrottleConfig) : Throttle := ⟨config, ∅, 0⟩

/-- `Throttle::acquire`. A refusal on the per-address limit leaves the entry of the address
in the map, with the count it had. -/
def acquire (g : Throttle) (ip : IpAddr) : Except SynError Unit × Throttle :=
  let currentGlobal := g.global + 1
  if g.config.maxConnectionsGlobal < currentGlobal then
    (.error (.throttled "global".toList g.config.maxConnectionsGlobal), g)
  else
    let currentIp := (g.perIp.lookup ip).getD 0 + 1
    if g.config.maxConnectionsPerIp < currentIp then
      (.error (.throttled "per-ip".toList g.config.maxConnectionsPerIp),
        { g with perIp := g.perIp.insert ip (currentIp - 1) })
    else (.ok (), { g with perIp := g.perIp.insert ip currentIp, global := currentGlobal })

/-- `Throttle::release`. -/
def release (g : Throttle) (ip : IpAddr) : Throttle :=
  let global := g.global - 1
  match g.perIp.lookup ip with
  | some count =>
    if 1 < count then { g with perIp := g.perIp.insert ip (count - 1), global }
    else { g with perIp := g.perIp.erase ip, global }
  | none => { g with global }

/-- The slots counted for `ip`; an absent entry counts none. -/
def heldBy (g : Throttle) (ip : IpAddr) : ℕ := (g.perIp.lookup ip).getD 0

/-- An entry of the map counts at least one slot, unless the per-address cap is zero. -/
def NoZeroEntry (g : Throttle) : Prop :=
  g.config.maxConnectionsPerIp = 0 ∨ ∀ ip, g.perIp.lookup ip ≠ some 0

/-! ## Acquiring a slot -/

/-- `acquire` succeeds when both counters are below their caps. -/
theorem acquire_isOk_iff (g : Throttle) (ip : IpAddr) :
    (g.acquire ip).1 = .ok () ↔ g.global < g.config.maxConnectionsGlobal ∧
      g.heldBy ip < g.config.maxConnectionsPerIp := by
  unfold acquire heldBy
  simp only
  split_ifs with hglobal hip
  · simp only [false_iff]
    omega
  · simp only [false_iff]
    omega
  · simp only [true_iff]
    omega

/-- A successful `acquire` counts one more slot, in total and for the address. -/
theorem acquire_ok {g : Throttle} {ip : IpAddr} (h : (g.acquire ip).1 = .ok ()) :
    (g.acquire ip).2 =
      { g with perIp := g.perIp.insert ip (g.heldBy ip + 1), global := g.global + 1 } := by
  have hcap := (acquire_isOk_iff g ip).mp h
  unfold heldBy at hcap
  unfold acquire heldBy
  simp only
  rw [if_neg (by omega), if_neg (by omega)]

/-- A refused `acquire` counts the same slots as before. -/
theorem acquire_error {g : Throttle} {ip : IpAddr} {e : SynError}
    (h : (g.acquire ip).1 = .error e) :
    (g.acquire ip).2 = g ∨
      g.config.maxConnectionsPerIp ≤ g.heldBy ip ∧
        (g.acquire ip).2 = { g with perIp := g.perIp.insert ip (g.heldBy ip) } := by
  unfold acquire heldBy at *
  simp only at *
  split_ifs at * with hglobal hip
  · exact .inl rfl
  · refine .inr ⟨by omega, ?_⟩
    simp

/-! ## Releasing a slot -/

/-- `release` after a successful `acquire` restores the guard.

**Proof sketch.** If the address had an entry, it counts at least one slot, so the count
after `acquire` is at least two and `release` writes the old count back. If it had none,
`acquire` writes `1` and `release` erases the entry. -/
theorem release_acquire {g : Throttle} {ip : IpAddr} (hz : g.NoZeroEntry)
    (h : (g.acquire ip).1 = .ok ()) : (g.acquire ip).2.release ip = g := by
  have hcap := (acquire_isOk_iff g ip).mp h
  rw [acquire_ok h]
  unfold release
  simp only [Finmap.lookup_insert, Nat.add_sub_cancel]
  cases hl : g.perIp.lookup ip with
  | none =>
    have hheld : g.heldBy ip = 0 := by rw [heldBy, hl]; rfl
    rw [if_neg (by omega), FMap.erase_insert_of_lookup _ hl]
  | some count =>
    have hheld : g.heldBy ip = count := by rw [heldBy, hl]; rfl
    have hpos : count ≠ 0 := by
      rintro rfl
      rcases hz with hz | hz
      · omega
      · exact hz ip hl
    rw [if_pos (by omega), Finmap.insert_insert, hheld, FMap.insert_of_lookup hl]

/-! ## The counters after each operation -/

section Counters

variable {g : Throttle} {ip : IpAddr}

/-- Acquiring and releasing keep the configuration. -/
@[simp] theorem acquire_config (g : Throttle) (ip : IpAddr) :
    (g.acquire ip).2.config = g.config := by
  unfold acquire
  dsimp only
  split_ifs <;> rfl

/-- A release keeps the configuration. -/
@[simp] theorem release_config (g : Throttle) (ip : IpAddr) :
    (g.release ip).config = g.config := by
  unfold release
  dsimp only
  split
  · split_ifs <;> rfl
  · rfl

/-- A refusal keeps all counts. -/
theorem acquire_error_counts {e : SynError} (h : (g.acquire ip).1 = .error e) :
    (g.acquire ip).2.global = g.global ∧ ∀ a, (g.acquire ip).2.heldBy a = g.heldBy a := by
  rcases acquire_error h with heq | ⟨-, heq⟩
  · rw [heq]
    exact ⟨rfl, fun _ => rfl⟩
  · rw [heq]
    refine ⟨rfl, fun a => ?_⟩
    unfold heldBy
    rw [FMap.lookup_insert_eq_ite]
    split_ifs with ha
    · rw [ha, Option.getD_some]
    · rfl

/-- A grant counts one more slot for its address. -/
theorem acquire_ok_heldBy (h : (g.acquire ip).1 = .ok ()) (a : IpAddr) :
    (g.acquire ip).2.heldBy a = g.heldBy a + (if a = ip then 1 else 0) := by
  rw [acquire_ok h]
  unfold heldBy
  rw [FMap.lookup_insert_eq_ite]
  split_ifs with ha
  · rw [ha, Option.getD_some]
  · rfl

/-- A release takes one slot from the total. -/
@[simp] theorem release_global (g : Throttle) (ip : IpAddr) :
    (g.release ip).global = g.global - 1 := by
  unfold release
  dsimp only
  split
  · split_ifs <;> rfl
  · rfl

/-- A release takes one slot from its address. -/
theorem release_heldBy (g : Throttle) (ip a : IpAddr) :
    (g.release ip).heldBy a = g.heldBy a - (if a = ip then 1 else 0) := by
  unfold release heldBy
  cases hl : g.perIp.lookup ip with
  | none =>
    split_ifs with ha
    · rw [ha, hl]
      rfl
    · rfl
  | some count =>
    dsimp only
    split_ifs with hcount ha ha
    · rw [ha, FMap.lookup_insert_eq_ite, if_pos rfl, hl]
      rfl
    · rw [FMap.lookup_insert_eq_ite, if_neg ha, Nat.sub_zero]
    · rw [ha, FMap.lookup_erase_eq_ite, if_pos rfl, hl]
      simp only [Option.getD_none, Option.getD_some]
      omega
    · rw [FMap.lookup_erase_eq_ite, if_neg ha, Nat.sub_zero]

/-- The counts are within the caps. -/
structure WithinCaps (g : Throttle) : Prop where
  global : g.global ≤ g.config.maxConnectionsGlobal
  perIp : ∀ ip, g.heldBy ip ≤ g.config.maxConnectionsPerIp

/-- Acquiring keeps the counts within the caps: a grant finds both below. -/
theorem WithinCaps.acquire (hw : g.WithinCaps) (ip : IpAddr) :
    (g.acquire ip).2.WithinCaps := by
  cases hr : (g.acquire ip).1 with
  | error e =>
    obtain ⟨hglobal, hheld⟩ := acquire_error_counts hr
    refine ⟨?_, fun a => ?_⟩
    · rw [hglobal, acquire_config]
      exact hw.global
    · rw [hheld, acquire_config]
      exact hw.perIp a
  | ok _ =>
    obtain ⟨hglobal, hip⟩ := (acquire_isOk_iff g ip).mp hr
    refine ⟨?_, fun a => ?_⟩
    · rw [acquire_config, acquire_ok hr]
      exact hglobal
    · rw [acquire_config, acquire_ok_heldBy hr]
      split_ifs with ha
      · rw [ha]
        exact hip
      · exact hw.perIp a

/-- Releasing keeps the counts within the caps. -/
theorem WithinCaps.release (hw : g.WithinCaps) (ip : IpAddr) : (g.release ip).WithinCaps := by
  refine ⟨?_, fun a => ?_⟩
  · rw [release_global, release_config]
    exact (Nat.sub_le _ _).trans hw.global
  · rw [release_heldBy, release_config]
    exact (Nat.sub_le _ _).trans (hw.perIp a)

/-- Without a cap of zero no operation leaves an entry that counts nothing. -/
theorem NoZeroEntry.acquire (hz : g.NoZeroEntry) (ip : IpAddr) :
    (g.acquire ip).2.NoZeroEntry := by
  rcases hz with hz | hz
  · exact .inl (by rw [acquire_config, hz])
  · by_cases hmax : g.config.maxConnectionsPerIp = 0
    · exact .inl (by rw [acquire_config, hmax])
    · right
      intro a
      cases h : (g.acquire ip).1 with
      | ok _ =>
        rw [acquire_ok h, FMap.lookup_insert_eq_ite]
        split_ifs
        · simp
        · exact hz a
      | error e =>
        rcases acquire_error h with heq | ⟨hle, heq⟩
        · rw [heq]
          exact hz a
        · rw [heq, FMap.lookup_insert_eq_ite]
          split_ifs
          · simp only [ne_eq, Option.some.injEq]
            omega
          · exact hz a

/-- A release leaves no entry at zero, since it removes an entry that gets there. -/
theorem NoZeroEntry.release (hz : g.NoZeroEntry) (ip : IpAddr) :
    (g.release ip).NoZeroEntry := by
  rcases hz with hz | hz
  · exact .inl (by rw [release_config, hz])
  · right
    intro a
    unfold Throttle.release
    cases hl : g.perIp.lookup ip with
    | none => exact hz a
    | some count =>
      dsimp only
      split_ifs with hcount
      · rw [FMap.lookup_insert_eq_ite]
        split_ifs
        · simp only [ne_eq, Option.some.injEq]
          omega
        · exact hz a
      · rw [FMap.lookup_erase_eq_ite]
        split_ifs
        · simp
        · exact hz a

end Counters

/-! ## Throttles with the same counts -/

/-- The two throttles count the same slots; entries that count nothing are not seen. -/
structure Similar (g g' : Throttle) : Prop where
  config : g'.config = g.config
  global : g'.global = g.global
  heldBy : ∀ ip, g'.heldBy ip = g.heldBy ip

/-- Similar throttles give the same verdict and stay similar. -/
theorem Similar.acquire {g g' : Throttle} (h : g.Similar g') (ip : IpAddr) :
    (g'.acquire ip).1 = (g.acquire ip).1 ∧ (g.acquire ip).2.Similar (g'.acquire ip).2 := by
  have hres : (g'.acquire ip).1 = (g.acquire ip).1 := by
    have hheld := h.heldBy ip
    unfold Throttle.heldBy at hheld
    unfold Throttle.acquire
    dsimp only
    rw [h.config, h.global, hheld]
    split_ifs <;> rfl
  refine ⟨hres, by simp [h.config], ?_, ?_⟩
  · cases hr : (g.acquire ip).1 with
    | ok _ => rw [acquire_ok hr, acquire_ok (hres.trans hr), h.global]
    | error e =>
      rw [(acquire_error_counts hr).1, (acquire_error_counts (hres.trans hr)).1, h.global]
  · intro a
    cases hr : (g.acquire ip).1 with
    | ok _ => rw [acquire_ok_heldBy hr, acquire_ok_heldBy (hres.trans hr), h.heldBy]
    | error e =>
      rw [(acquire_error_counts hr).2, (acquire_error_counts (hres.trans hr)).2, h.heldBy]

/-- Similar throttles stay similar under a release. -/
theorem Similar.release {g g' : Throttle} (h : g.Similar g') (ip : IpAddr) :
    (g.release ip).Similar (g'.release ip) := by
  refine ⟨by simp [h.config], by simp [h.global], fun a => ?_⟩
  rw [release_heldBy, release_heldBy, h.heldBy]

end Throttle

instance : Guard Throttle where
  name _ := "throttle".toList
  onReserve g ctx _ := g.acquire ctx.peerIp
  onClose g ctx _ := g.release ctx.peerIp

end Synclaire
