import Synclaire.Lib.Table
import Synclaire.Lib.Transition
import Synclaire.Guard.Throttle

set_option relaxedAutoImplicit false
set_option autoImplicit false

/-!
# The throttle under concurrency

Any number of threads call `Throttle::acquire`, and `Throttle::release` for the slots they
have. A call takes up to three atomic updates of two stores, and the updates of all calls
interleave. The state keeps one row for each acquire and the release paired with it.

## Main definitions

* `Synclaire.SharedThrottle` — the fields of a `Throttle` that the threads share.
* `Synclaire.SlotPhase` — how far a row has come, and `Synclaire.SlotPhase.advance` its next
  atomic update.
* `Synclaire.ThrottleState` — the shared fields and the rows.
* `Synclaire.ThrottleState.heldSlots`, `Synclaire.ThrottleState.heldByIp` — the slots held.

## Main results

* `Synclaire.ThrottleState.safe` — the caps bound the held slots, and the counters are those
  of the held slots whenever no call is in progress.
* `Synclaire.ThrottleState.exists_advance` — the lock blocks no call for ever.
* `Synclaire.ThrottleState.run_acquire`, `Synclaire.ThrottleState.run_release` — a call that
  nobody interrupts does what `Throttle.acquire` and `Throttle.release` do.

## Implementation notes

The counter is an integer here, so that a `fetch_sub` below zero would show. The lock section
of a refusal contains a `fetch_sub`, which other threads see before the lock is free; the other
lock sections are one step each.
-/

namespace Synclaire

/-! ## The calls and their atomic updates -/

/-- The fields of a `Throttle`, with the lock of `per_ip`. -/
structure SharedThrottle where
  config : ThrottleConfig
  perIp : FMap IpAddr ℕ
  global : ℤ
  /-- The row whose call has the lock. -/
  lock : Option ℕ
  deriving DecidableEq

/-- How far an acquire, and the release paired with it, have come. -/
inductive SlotPhase
  /-- `acquire` was called. -/
  | called
  /-- The counter went over the cap; the increment is to be undone. -/
  | overGlobal
  /-- The counter is within the cap; `per_ip` is not locked yet. -/
  | counted
  /-- Over the cap of the address, with the lock; the increment is to be undone. -/
  | overIp
  /-- The increment was undone; the lock is not free yet. -/
  | undone
  /-- `acquire` returned an error. -/
  | refused (err : SynError)
  /-- `acquire` returned `Ok`. -/
  | held
  /-- `release` was called. -/
  | releasing
  /-- `release` took the slot from the counter; `per_ip` is not locked yet. -/
  | subtracted
  /-- `release` returned. -/
  | released
  deriving DecidableEq

/-- The slots counted for `ip`; an absent entry counts none. -/
def SharedThrottle.entry (g : SharedThrottle) (ip : IpAddr) : ℕ := (g.perIp.lookup ip).getD 0

namespace SlotPhase

/-- The next atomic update of `Throttle::acquire` or `Throttle::release` in row `k`; none if the
lock is taken, or if no call of the row is in progress. -/
def advance (g : SharedThrottle) (k : ℕ) (ip : IpAddr) :
    SlotPhase → Option (SlotPhase × SharedThrottle)
  | called =>
    let currentGlobal := g.global + 1
    let g := { g with global := currentGlobal }
    if g.config.maxConnectionsGlobal < currentGlobal then some (overGlobal, g)
    else some (counted, g)
  | overGlobal =>
    some (refused (.throttled "global".toList g.config.maxConnectionsGlobal),
      { g with global := g.global - 1 })
  | counted =>
    if g.lock = none then
      let currentIp := (g.perIp.lookup ip).getD 0 + 1
      if g.config.maxConnectionsPerIp < currentIp then
        -- the entry is written back, and the lock is kept until the error is returned
        some (overIp, { g with perIp := g.perIp.insert ip (currentIp - 1), lock := some k })
      else some (held, { g with perIp := g.perIp.insert ip currentIp })
    else none
  | overIp => some (undone, { g with global := g.global - 1 })
  | undone =>
    some (refused (.throttled "per-ip".toList g.config.maxConnectionsPerIp),
      { g with lock := none })
  | releasing => some (subtracted, { g with global := g.global - 1 })
  | subtracted =>
    if g.lock = none then
      match g.perIp.lookup ip with
      | some count =>
        if 1 < count then some (released, { g with perIp := g.perIp.insert ip (count - 1) })
        else some (released, { g with perIp := g.perIp.erase ip })
      | none => some (released, g)
    else none
  | refused _ => none
  | held => none
  | released => none

/-- The increment of the row is in the counter. -/
def isAdded : SlotPhase → Bool
  | overGlobal | counted | overIp | held | releasing => true
  | _ => false

/-- The increment of the row is in the counter and found it below the cap. -/
def isGranted : SlotPhase → Bool
  | counted | overIp | held | releasing => true
  | _ => false

/-- The row is counted in the entry of its address. -/
def isEntered : SlotPhase → Bool
  | held | releasing | subtracted => true
  | _ => false

/-- The row holds its slot: the acquire succeeded, and the slot was not given back. -/
def isHeld : SlotPhase → Bool
  | held | releasing => true
  | _ => false

/-- The row has the lock of `per_ip`. -/
def isLocked : SlotPhase → Bool
  | overIp | undone => true
  | _ => false

/-- No call of the row is in progress. -/
def isIdle : SlotPhase → Bool
  | refused _ | held | released => true
  | _ => false

end SlotPhase

/-- One row: the address, and how far its acquire and its release have come. -/
structure ThrottleCall where
  ip : IpAddr
  phase : SlotPhase
  deriving DecidableEq

/-- A `Throttle` and the calls made to it. -/
structure ThrottleState where
  guard : SharedThrottle
  calls : List ThrottleCall
  deriving DecidableEq

/-- What a thread may do. -/
inductive ThrottleAction
  /-- Call `acquire` for an address. -/
  | acquire (ip : IpAddr)
  /-- Call `release` for the slot that row `k` holds. -/
  | release (k : ℕ)
  /-- Take the next atomic update of the call of row `k`. -/
  | advance (k : ℕ)
  deriving DecidableEq

namespace ThrottleState

/-- `Throttle::new`, before any call. -/
def start (config : ThrottleConfig) : ThrottleState := ⟨⟨config, ∅, 0, none⟩, []⟩

/-- The state after an action, if the action is possible. -/
def next (s : ThrottleState) : ThrottleAction → Option ThrottleState
  | .acquire ip => some { s with calls := s.calls ++ [⟨ip, .called⟩] }
  | .release k =>
    match s.calls[k]? with
    | some c =>
      if c.phase = .held then some { s with calls := s.calls.set k { c with phase := .releasing } }
      else none
    | none => none
  | .advance k =>
    match s.calls[k]? with
    | some c =>
      match c.phase.advance s.guard k c.ip with
      | some (phase, guard) => some ⟨guard, s.calls.set k { c with phase }⟩
      | none => none
    | none => none

/-- The transition system of a throttle. -/
def system (config : ThrottleConfig) : Transition.System ThrottleState ThrottleAction :=
  .ofFn (start config) next

/-- The slots held. -/
def heldSlots (s : ThrottleState) : ℕ := s.calls.countP fun c => c.phase.isHeld

/-- The slots held by an address. -/
def heldByIp (s : ThrottleState) (ip : IpAddr) : ℕ :=
  s.calls.countP fun c => c.phase.isHeld && decide (c.ip = ip)

/-- No call is in progress. -/
def Idle (s : ThrottleState) : Prop := ∀ c ∈ s.calls, c.phase.isIdle = true

end ThrottleState

/-! ## What a step does -/

/-- The atomic updates, one by one: the phase before, the phase after and the shared fields
after. -/
inductive Updates (g : SharedThrottle) (k : ℕ) (ip : IpAddr) :
    SlotPhase → SlotPhase → SharedThrottle → Prop
  | addOver (hcap : g.config.maxConnectionsGlobal < g.global + 1) :
    Updates g k ip .called .overGlobal { g with global := g.global + 1 }
  | add (hcap : g.global + 1 ≤ g.config.maxConnectionsGlobal) :
    Updates g k ip .called .counted { g with global := g.global + 1 }
  | undoGlobal : Updates g k ip .overGlobal
      (.refused (.throttled "global".toList g.config.maxConnectionsGlobal))
      { g with global := g.global - 1 }
  | enterOver (hlock : g.lock = none) (hcap : g.config.maxConnectionsPerIp < g.entry ip + 1) :
    Updates g k ip .counted .overIp
      { g with perIp := g.perIp.insert ip (g.entry ip), lock := some k }
  | enter (hlock : g.lock = none) (hcap : g.entry ip + 1 ≤ g.config.maxConnectionsPerIp) :
    Updates g k ip .counted .held { g with perIp := g.perIp.insert ip (g.entry ip + 1) }
  | undoIp : Updates g k ip .overIp .undone { g with global := g.global - 1 }
  | unlock : Updates g k ip .undone
      (.refused (.throttled "per-ip".toList g.config.maxConnectionsPerIp)) { g with lock := none }
  | subtract : Updates g k ip .releasing .subtracted { g with global := g.global - 1 }
  | leave (hlock : g.lock = none) {perIp : FMap IpAddr ℕ}
    (hperIp : ∀ a, (perIp.lookup a).getD 0 = g.entry a - if a = ip then 1 else 0) :
    Updates g k ip .subtracted .released { g with perIp }

/-- The updates are all that `advance` does. -/
theorem updates_of_advance {g g' : SharedThrottle} {k : ℕ} {ip : IpAddr} {p p' : SlotPhase}
    (h : p.advance g k ip = some (p', g')) : Updates g k ip p p' g' := by
  cases p with
  | called =>
    simp only [SlotPhase.advance] at h
    split_ifs at h with hcap
    · cases h
      exact .addOver hcap
    · cases h
      exact .add (by omega)
  | overGlobal =>
    cases h
    exact .undoGlobal
  | counted =>
    simp only [SlotPhase.advance] at h
    split_ifs at h with hlock hcap
    · cases h
      exact .enterOver hlock hcap
    · cases h
      exact .enter hlock (by unfold SharedThrottle.entry; omega)
  | overIp =>
    cases h
    exact .undoIp
  | undone =>
    cases h
    exact .unlock
  | releasing =>
    cases h
    exact .subtract
  | subtracted =>
    simp only [SlotPhase.advance] at h
    split_ifs at h with hlock
    cases hl : g.perIp.lookup ip with
    | none =>
      simp only [hl, Option.some.injEq, Prod.mk.injEq] at h
      obtain ⟨rfl, rfl⟩ := h
      refine .leave hlock fun a => ?_
      split_ifs with ha
      · rw [ha, SharedThrottle.entry, hl]
        rfl
      · rfl
    | some count =>
      simp only [hl] at h
      split_ifs at h with hcount
      · cases h
        refine .leave hlock fun a => ?_
        rw [FMap.lookup_insert_eq_ite]
        split_ifs with ha
        · rw [ha, SharedThrottle.entry, hl]
          rfl
        · rfl
      · cases h
        refine .leave hlock fun a => ?_
        rw [FMap.lookup_erase_eq_ite]
        split_ifs with ha
        · rw [ha, SharedThrottle.entry, hl, Option.getD_none, Option.getD_some]
          omega
        · rfl
  | refused _ => cases h
  | held => cases h
  | released => cases h

section Updates

variable {g g' : SharedThrottle} {k : ℕ} {ip : IpAddr} {p p' : SlotPhase}

/-- The counter moves with the increments of the rows. -/
theorem Updates.global_add (h : Updates g k ip p p' g') :
    g'.global + p.isAdded.toNat = g.global + p'.isAdded.toNat := by
  cases h <;> simp [SlotPhase.isAdded]

/-- A grant finds the counter below the cap. -/
theorem Updates.isGranted_le (h : Updates g k ip p p' g') :
    p'.isGranted.toNat ≤ p.isGranted.toNat ∨
      p'.isGranted = true ∧ g.global + 1 ≤ g.config.maxConnectionsGlobal := by
  cases h with
  | add hcap => exact .inr ⟨rfl, hcap⟩
  | _ => exact .inl (by simp [SlotPhase.isGranted])

/-- An entry moves with the rows of its address that are counted in it. -/
theorem Updates.entry_add (h : Updates g k ip p p' g') (hp : p.isEntered.toNat ≤ g.entry ip)
    (a : IpAddr) :
    g'.entry a + (p.isEntered && decide (ip = a)).toNat =
      g.entry a + (p'.isEntered && decide (ip = a)).toNat := by
  cases h with
  | enterOver hlock hcap =>
    unfold SharedThrottle.entry
    rw [FMap.lookup_insert_eq_ite]
    split_ifs with ha
    · subst ha
      simp [SlotPhase.isEntered]
    · simp [SlotPhase.isEntered]
  | enter hlock hcap =>
    unfold SharedThrottle.entry
    rw [FMap.lookup_insert_eq_ite]
    split_ifs with ha
    · subst ha
      simp [SlotPhase.isEntered]
    · simp [SlotPhase.isEntered, Ne.symm ha]
  | leave hlock hperIp =>
    unfold SharedThrottle.entry at *
    rw [hperIp]
    split_ifs with ha
    · subst ha
      simp only [SlotPhase.isEntered, Bool.toNat_true] at hp
      simp only [SlotPhase.isEntered, decide_true, Bool.and_self, Bool.toNat_true,
        Bool.false_and, Bool.toNat_false]
      omega
    · simp [SlotPhase.isEntered, Ne.symm ha]
  | _ => rfl

/-- The entries stay within the cap of an address. -/
theorem Updates.entry_le (h : Updates g k ip p p' g') {cap : ℕ}
    (hcap : cap = g.config.maxConnectionsPerIp) (hle : ∀ a, g.entry a ≤ cap) (a : IpAddr) :
    g'.entry a ≤ cap := by
  have ha := hle a
  cases h with
  | enterOver hlock hover =>
    unfold SharedThrottle.entry
    rw [FMap.lookup_insert_eq_ite]
    split_ifs with heq
    · exact hle ip
    · exact ha
  | enter hlock hfits =>
    unfold SharedThrottle.entry
    rw [FMap.lookup_insert_eq_ite]
    split_ifs with heq
    · exact hcap ▸ hfits
    · exact ha
  | leave hlock hperIp =>
    exact (hperIp a).trans_le ((Nat.sub_le _ _).trans ha)
  | _ => exact ha

/-- The configuration stays. -/
theorem Updates.config_eq (h : Updates g k ip p p' g') : g'.config = g.config := by
  cases h <;> rfl

/-- The lock is free, or just taken by the row, or with whom it was. -/
theorem Updates.lock_cases (h : Updates g k ip p p' g') :
    g'.lock = none ∨ (g'.lock = some k ∧ p'.isLocked = true) ∨
      (g'.lock = g.lock ∧ (p.isLocked = true → p'.isLocked = true)) := by
  cases h with
  | unlock => exact .inl rfl
  | enterOver hlock hcap => exact .inr (.inl ⟨rfl, rfl⟩)
  | undoIp => exact .inr (.inr ⟨rfl, fun _ => rfl⟩)
  | _ => exact .inr (.inr ⟨rfl, fun h => by cases h⟩)

end Updates

/-- A call in progress goes on if the lock is free or its own. -/
theorem SlotPhase.advance_isSome {g : SharedThrottle} {p : SlotPhase} (hp : p.isIdle = false)
    (hlock : g.lock = none ∨ p.isLocked = true) (k : ℕ) (ip : IpAddr) :
    (p.advance g k ip).isSome = true := by
  cases p with
  | called =>
    simp only [advance]
    split_ifs <;> rfl
  | counted =>
    have hfree : g.lock = none := hlock.resolve_right (by decide)
    simp only [advance, if_pos hfree]
    split_ifs <;> rfl
  | subtracted =>
    have hfree : g.lock = none := hlock.resolve_right (by decide)
    simp only [advance, if_pos hfree]
    split
    · split_ifs <;> rfl
    · rfl
  | overGlobal => rfl
  | overIp => rfl
  | undone => rfl
  | releasing => rfl
  | refused _ => cases hp
  | held => cases hp
  | released => cases hp

namespace ThrottleState

/-- What a step can do: a row begins an acquire, a held row begins its release, or a row takes
its next atomic update. -/
theorem next_cases {s s' : ThrottleState} {a : ThrottleAction} (h : next s a = some s') :
    (∃ ip, a = .acquire ip ∧ s' = { s with calls := s.calls ++ [⟨ip, .called⟩] }) ∨
    (∃ k c, a = .release k ∧ s.calls[k]? = some c ∧ c.phase = .held ∧
      s' = { s with calls := s.calls.set k { c with phase := .releasing } }) ∨
    ∃ k c phase guard, a = .advance k ∧ s.calls[k]? = some c ∧
      Updates s.guard k c.ip c.phase phase guard ∧
      s' = ⟨guard, s.calls.set k { c with phase }⟩ := by
  cases a with
  | acquire ip => exact .inl ⟨ip, rfl, (Option.some.inj h).symm⟩
  | release k =>
    right; left
    simp only [next] at h
    split at h
    · rename_i c hc
      split_ifs at h with hheld
      exact ⟨k, c, rfl, hc, hheld, (Option.some.inj h).symm⟩
    · cases h
  | advance k =>
    right; right
    simp only [next] at h
    split at h
    · rename_i c hc
      split at h
      · rename_i phase guard hadv
        exact ⟨k, c, phase, guard, rfl, hc, updates_of_advance hadv, (Option.some.inj h).symm⟩
      · cases h
    · cases h

/-- A row takes its next update. -/
theorem next_advance {s : ThrottleState} {k : ℕ} {c : ThrottleCall} {phase : SlotPhase}
    {guard : SharedThrottle} (hc : s.calls[k]? = some c)
    (h : c.phase.advance s.guard k c.ip = some (phase, guard)) :
    next s (.advance k) = some ⟨guard, s.calls.set k { c with phase }⟩ := by
  simp only [next, hc, h]

/-! ## The counters account for every half-finished call -/

/-- The rows whose increment is in the counter. -/
def added (s : ThrottleState) : ℕ := s.calls.countP fun c => c.phase.isAdded

/-- The rows whose increment found the counter below the cap. -/
def granted (s : ThrottleState) : ℕ := s.calls.countP fun c => c.phase.isGranted

/-- The rows counted in the entry of an address. -/
def entered (s : ThrottleState) (ip : IpAddr) : ℕ :=
  s.calls.countP fun c => c.phase.isEntered && decide (c.ip = ip)

/-- What holds in every run: the counter is the number of increments in it, those that found it
below the cap are within the cap, and an entry is the number of rows counted in it, within the
cap of the address. -/
structure Accounted (config : ThrottleConfig) (s : ThrottleState) : Prop where
  config_eq : s.guard.config = config
  global : s.guard.global = s.added
  granted_le : s.granted ≤ config.maxConnectionsGlobal
  entry : ∀ ip, s.guard.entry ip = s.entered ip
  entry_le : ∀ ip, s.guard.entry ip ≤ config.maxConnectionsPerIp

/-- No more increments are granted than were added. -/
theorem granted_le_added (s : ThrottleState) : s.granted ≤ s.added := by
  refine List.countP_mono_left fun c _ hc => ?_
  cases h : c.phase <;> simp_all [SlotPhase.isGranted, SlotPhase.isAdded]

/-- An atomic update of one row keeps the accounts. -/
theorem Accounted.advance {config : ThrottleConfig} {s : ThrottleState} (hs : s.Accounted config)
    {k : ℕ} {c : ThrottleCall} (hc : s.calls[k]? = some c) {phase : SlotPhase}
    {guard : SharedThrottle} (h : Updates s.guard k c.ip c.phase phase guard) :
    Accounted config ⟨guard, s.calls.set k { c with phase }⟩ where
  config_eq := h.config_eq.trans hs.config_eq
  global := by
    have hcount := Table.countP_set (fun c : ThrottleCall => c.phase.isAdded) hc { c with phase }
    have hmove := h.global_add
    have hglobal := hs.global
    unfold added at *
    simp only at *
    omega
  granted_le := by
    have hcount := Table.countP_set (fun c : ThrottleCall => c.phase.isGranted) hc { c with phase }
    have hle := hs.granted_le
    have hadded := s.granted_le_added
    have hglobal := hs.global
    have hconfig := hs.config_eq
    unfold granted at *
    simp only at *
    rcases h.isGranted_le with hmono | ⟨hnew, hcap⟩
    · omega
    · rw [hnew, Bool.toNat_true] at hcount
      rw [hconfig] at hcap
      omega
  entry a := by
    have hcount := Table.countP_set
      (fun c : ThrottleCall => c.phase.isEntered && decide (c.ip = a)) hc { c with phase }
    have hrow := Table.le_tally
      (fun d : ThrottleCall => (d.phase.isEntered && decide (d.ip = c.ip)).toNat) hc
    rw [← Table.countP_eq_tally] at hrow
    have hentry := hs.entry c.ip
    have hmove := h.entry_add (by
      unfold entered at hentry
      simp only [decide_true, Bool.and_true] at hrow
      omega) a
    have ha := hs.entry a
    unfold entered at *
    simp only at *
    omega
  entry_le := h.entry_le (congrArg _ hs.config_eq.symm) hs.entry_le

/-- A call to `acquire` counts nothing yet. -/
theorem Accounted.acquire {config : ThrottleConfig} {s : ThrottleState}
    (hs : s.Accounted config) (ip : IpAddr) :
    Accounted config { s with calls := s.calls ++ [⟨ip, .called⟩] } where
  config_eq := hs.config_eq
  global := by
    unfold added
    rw [Table.countP_append_singleton]
    exact hs.global
  granted_le := by
    unfold granted
    rw [Table.countP_append_singleton]
    exact hs.granted_le
  entry a := by
    unfold entered
    rw [Table.countP_append_singleton]
    exact hs.entry a
  entry_le := hs.entry_le

/-- A call to `release` changes no count. -/
theorem Accounted.release {config : ThrottleConfig} {s : ThrottleState}
    (hs : s.Accounted config) {k : ℕ} {c : ThrottleCall} (hc : s.calls[k]? = some c)
    (hheld : c.phase = .held) :
    Accounted config { s with calls := s.calls.set k { c with phase := .releasing } } where
  config_eq := hs.config_eq
  global := by
    unfold added
    rw [Table.countP_set_of_eq _ hc (by rw [hheld]; rfl)]
    exact hs.global
  granted_le := by
    unfold granted
    rw [Table.countP_set_of_eq _ hc (by rw [hheld]; rfl)]
    exact hs.granted_le
  entry a := by
    unfold entered
    rw [Table.countP_set_of_eq _ hc (by rw [hheld]; rfl)]
    exact hs.entry a
  entry_le := hs.entry_le

/-- The accounts are right in every reachable state. -/
theorem accounted_of_reach {config : ThrottleConfig} {s : ThrottleState}
    (h : (system config).Reach s) : s.Accounted config := by
  refine h.invariant ?_ ?_
  · rintro _ rfl
    exact ⟨rfl, rfl, Nat.zero_le _, fun _ => rfl, fun _ => Nat.zero_le _⟩
  · rintro s a s' - hs hstep
    rcases next_cases hstep with ⟨ip, -, rfl⟩ | ⟨k, c, -, hc, hheld, rfl⟩ |
      ⟨k, c, phase, guard, -, hc, hupd, rfl⟩
    · exact hs.acquire ip
    · exact hs.release hc hheld
    · exact hs.advance hc hupd

/-! ## The caps -/

/-- A held slot was granted. -/
theorem heldSlots_le_granted (s : ThrottleState) : s.heldSlots ≤ s.granted := by
  refine List.countP_mono_left fun c _ hc => ?_
  cases h : c.phase <;> simp_all [SlotPhase.isGranted, SlotPhase.isHeld]

/-- A held slot is counted in the entry of its address. -/
theorem heldByIp_le_entered (s : ThrottleState) (ip : IpAddr) :
    s.heldByIp ip ≤ s.entered ip := by
  refine List.countP_mono_left fun c _ hc => ?_
  cases h : c.phase <;> simp_all [SlotPhase.isEntered, SlotPhase.isHeld]

/-- In an idle state the rows in the counter are the held ones. -/
theorem Idle.added_eq {s : ThrottleState} (h : s.Idle) : s.added = s.heldSlots := by
  refine List.countP_congr fun c hc => ?_
  have hidle := h c hc
  cases hp : c.phase <;> simp_all [SlotPhase.isIdle, SlotPhase.isAdded, SlotPhase.isHeld]

/-- In an idle state the rows in an entry are the held ones. -/
theorem Idle.entered_eq {s : ThrottleState} (h : s.Idle) (ip : IpAddr) :
    s.entered ip = s.heldByIp ip := by
  refine List.countP_congr fun c hc => ?_
  have hidle := h c hc
  cases hp : c.phase <;> simp_all [SlotPhase.isIdle, SlotPhase.isEntered, SlotPhase.isHeld]

/-- **The throttle is safe under concurrency**: in every reachable state the held slots are
within both caps and the counter is not negative; and whenever no call is in progress, the
counter is the number of held slots and the entry of an address the number it holds.

**Proof sketch.** A held slot is one of the increments that found the counter below the cap,
and it is counted in the entry of its address; `Accounted` bounds both. When no call is in
progress there are no other increments and no other rows in the entries. -/
theorem safe {config : ThrottleConfig} {s : ThrottleState} (h : (system config).Reach s) :
    s.heldSlots ≤ config.maxConnectionsGlobal ∧
      (∀ ip, s.heldByIp ip ≤ config.maxConnectionsPerIp) ∧
      0 ≤ s.guard.global ∧
      (s.Idle → s.guard.global = s.heldSlots ∧
        ∀ ip, (s.guard.perIp.lookup ip).getD 0 = s.heldByIp ip) := by
  have hs := accounted_of_reach h
  refine ⟨s.heldSlots_le_granted.trans hs.granted_le, fun ip => ?_, ?_, fun hidle => ⟨?_, ?_⟩⟩
  · exact (s.heldByIp_le_entered ip).trans (hs.entry ip ▸ hs.entry_le ip)
  · rw [hs.global]
    exact Int.natCast_nonneg _
  · rw [hs.global, hidle.added_eq]
  · exact fun ip => (hs.entry ip).trans (hidle.entered_eq ip)

/-- Two slots of one address, and a third call for it that was refused but has not returned. -/
def crowdedRun : List ThrottleAction :=
  .replicate 3 (.acquire (.v4 (ipv4 10 0 0 1))) ++
    [.advance 0, .advance 1, .advance 2, .advance 1, .advance 0, .advance 2]

/-- Both slots are held, and the call that was refused still counts in the global counter. -/
theorem safe_crowded :
    (Transition.System.after next (start ⟨2, 3⟩) crowdedRun).heldSlots = 2 ∧
      (Transition.System.after next (start ⟨2, 3⟩) crowdedRun).guard.global = 3 ∧
      (Transition.System.after next (start ⟨2, 3⟩) crowdedRun).heldSlots ≤ 3 :=
  ⟨by decide +kernel, by decide +kernel,
    (@safe ⟨2, 3⟩ _ (Transition.System.reach_after (.init rfl)
      fun _ _ _ _ hnext => hnext)).1⟩

/-! ## No deadlock -/

/-- A row that has the lock is in its lock section. -/
theorem locked_of_reach {config : ThrottleConfig} {s : ThrottleState}
    (h : (system config).Reach s) :
    ∀ k, s.guard.lock = some k → ∃ c, s.calls[k]? = some c ∧ c.phase.isLocked = true := by
  refine h.invariant (I := fun s => ∀ k, s.guard.lock = some k →
    ∃ c, s.calls[k]? = some c ∧ c.phase.isLocked = true) ?_ ?_
  · rintro _ rfl k hlock
    cases hlock
  · rintro s a s' - hs hstep j hlock
    rcases next_cases hstep with ⟨ip, -, rfl⟩ | ⟨k, c, -, hc, hheld, rfl⟩ |
      ⟨k, c, phase, guard, -, hc, hupd, rfl⟩
    · obtain ⟨d, hd, hlocked⟩ := hs j hlock
      exact ⟨d, Table.getElem?_append_singleton.mpr (.inl hd), hlocked⟩
    · obtain ⟨d, hd, hlocked⟩ := hs j hlock
      refine ⟨d, (Table.getElem?_set_eq_some hc).mpr (.inr ⟨?_, hd⟩), hlocked⟩
      rintro rfl
      obtain rfl := Option.some.inj (hd.symm.trans hc)
      rw [hheld] at hlocked
      cases hlocked
    · rcases hupd.lock_cases with hfree | ⟨htaken, hlocked⟩ | ⟨hkept, hlocked⟩
      · cases hfree.symm.trans hlock
      · obtain rfl := Option.some.inj (hlock.symm.trans htaken)
        exact ⟨_, (Table.getElem?_set_eq_some hc).mpr (.inl ⟨rfl, rfl⟩), hlocked⟩
      · obtain ⟨d, hd, hrow⟩ := hs j (hkept.symm.trans hlock)
        by_cases hjk : j = k
        · subst hjk
          obtain rfl := Option.some.inj (hd.symm.trans hc)
          exact ⟨_, (Table.getElem?_set_eq_some hc).mpr (.inl ⟨rfl, rfl⟩), hlocked hrow⟩
        · exact ⟨d, (Table.getElem?_set_eq_some hc).mpr (.inr ⟨hjk, hd⟩), hrow⟩

/-- **No deadlock**: as long as a call is in progress, some call can take its next update. -/
theorem exists_advance {config : ThrottleConfig} {s : ThrottleState}
    (h : (system config).Reach s) (hbusy : ¬ s.Idle) : ∃ k s', next s (.advance k) = some s' := by
  have hgo : ∀ (k : ℕ) (c : ThrottleCall), s.calls[k]? = some c → c.phase.isIdle = false →
      s.guard.lock = none ∨ c.phase.isLocked = true → ∃ k s', next s (.advance k) = some s' := by
    intro k c hc hidle hlock
    obtain ⟨⟨phase, guard⟩, hadv⟩ :=
      Option.isSome_iff_exists.mp (SlotPhase.advance_isSome hidle hlock k c.ip)
    exact ⟨k, _, next_advance hc hadv⟩
  cases hlock : s.guard.lock with
  | none =>
    unfold Idle at hbusy
    push Not at hbusy
    obtain ⟨c, hmem, hidle⟩ := hbusy
    obtain ⟨k, hc⟩ := List.mem_iff_getElem?.mp hmem
    exact hgo k c hc (Bool.eq_false_iff.mpr hidle) (.inl hlock)
  | some k =>
    obtain ⟨c, hc, hlocked⟩ := locked_of_reach h k hlock
    refine hgo k c hc ?_ (.inr hlocked)
    cases hp : c.phase <;> simp_all [SlotPhase.isLocked, SlotPhase.isIdle]

/-! ## Calls that nobody interrupts -/

/-- The row that was just appended takes its next update. -/
theorem next_advance_last {g g' : SharedThrottle} {calls : List ThrottleCall} {ip : IpAddr}
    {p p' : SlotPhase} (h : p.advance g calls.length ip = some (p', g')) :
    next ⟨g, calls ++ [⟨ip, p⟩]⟩ (.advance calls.length) = some ⟨g', calls ++ [⟨ip, p'⟩]⟩ := by
  simp [next, h]

end ThrottleState

/-- The throttle that one thread sees. -/
def SharedThrottle.toThrottle (g : SharedThrottle) : Throttle :=
  ⟨g.config, g.perIp, g.global.toNat⟩

/-- How an acquire with this result ends. -/
def SlotPhase.ofResult : Except SynError Unit → SlotPhase
  | .ok _ => .held
  | .error e => .refused e

namespace ThrottleState

variable {config : ThrottleConfig} {s : ThrottleState}

/-- An acquire that nobody interrupts does what `Throttle.acquire` does.

**Proof sketch.** The calls to `acquire` and to `fetch_add` are followed by an undo, by a lock
section that enters the slot, or by one that refuses it, is undone and unlocked; these are the
three branches of `Throttle.acquire`. -/
theorem run_acquire (h : (system config).Reach s) (hlock : s.guard.lock = none) (ip : IpAddr) :
    ∃ tr guard, (system config).Run s tr
        ⟨guard, s.calls ++ [⟨ip, .ofResult (s.guard.toThrottle.acquire ip).1⟩]⟩ ∧
      guard.toThrottle = (s.guard.toThrottle.acquire ip).2 ∧ guard.lock = none := by
  have hnonneg := (safe h).2.2.1
  obtain ⟨⟨cfg, perIp, global, lock⟩, calls⟩ := s
  obtain rfl : lock = none := hlock
  lift global to ℕ using hnonneg
  have hcalled : next ⟨⟨cfg, perIp, global, none⟩, calls⟩ (.acquire ip) =
      some ⟨⟨cfg, perIp, global, none⟩, calls ++ [⟨ip, .called⟩]⟩ := rfl
  simp only [SharedThrottle.toThrottle, Int.toNat_natCast]
  by_cases hglobal : cfg.maxConnectionsGlobal < global + 1
  · have hadd : SlotPhase.called.advance ⟨cfg, perIp, global, none⟩ calls.length ip =
        some (.overGlobal, ⟨cfg, perIp, (global : ℤ) + 1, none⟩) :=
      if_pos (show (cfg.maxConnectionsGlobal : ℤ) < global + 1 by omega)
    rw [show Throttle.acquire ⟨cfg, perIp, global⟩ ip =
      (.error (.throttled "global".toList cfg.maxConnectionsGlobal), ⟨cfg, perIp, global⟩)
      from if_pos hglobal]
    refine ⟨_, _, .cons hcalled (.cons (next_advance_last hadd)
      (.cons (next_advance_last rfl) (.nil _))), ?_, rfl⟩
    simp
  · have hadd : SlotPhase.called.advance ⟨cfg, perIp, global, none⟩ calls.length ip =
        some (.counted, ⟨cfg, perIp, (global : ℤ) + 1, none⟩) :=
      if_neg (show ¬ (cfg.maxConnectionsGlobal : ℤ) < global + 1 by omega)
    by_cases hip : cfg.maxConnectionsPerIp < (perIp.lookup ip).getD 0 + 1
    · have henter : SlotPhase.counted.advance ⟨cfg, perIp, (global : ℤ) + 1, none⟩
          calls.length ip = some (.overIp, ⟨cfg, perIp.insert ip ((perIp.lookup ip).getD 0 + 1 - 1),
            (global : ℤ) + 1, some calls.length⟩) := by
        simp only [SlotPhase.advance, if_true, if_pos hip]
      rw [show Throttle.acquire ⟨cfg, perIp, global⟩ ip =
        (.error (.throttled "per-ip".toList cfg.maxConnectionsPerIp),
          ⟨cfg, perIp.insert ip ((perIp.lookup ip).getD 0 + 1 - 1), global⟩)
        from (if_neg hglobal).trans (if_pos hip)]
      refine ⟨_, _, .cons hcalled (.cons (next_advance_last hadd)
        (.cons (next_advance_last henter)
          (.cons (next_advance_last rfl) (.cons (next_advance_last rfl) (.nil _))))), ?_, rfl⟩
      simp
    · have henter : SlotPhase.counted.advance ⟨cfg, perIp, (global : ℤ) + 1, none⟩
          calls.length ip = some (.held, ⟨cfg, perIp.insert ip ((perIp.lookup ip).getD 0 + 1),
            (global : ℤ) + 1, none⟩) := by
        simp only [SlotPhase.advance, if_true, if_neg hip]
      rw [show Throttle.acquire ⟨cfg, perIp, global⟩ ip =
        (.ok (), ⟨cfg, perIp.insert ip ((perIp.lookup ip).getD 0 + 1), global + 1⟩)
        from (if_neg hglobal).trans (if_neg hip)]
      exact ⟨_, _, .cons hcalled (.cons (next_advance_last hadd)
        (.cons (next_advance_last henter) (.nil _))), rfl, rfl⟩

/-- A release that nobody interrupts does what `Throttle.release` does. -/
theorem run_release (h : (system config).Reach s) (hlock : s.guard.lock = none) {k : ℕ}
    {c : ThrottleCall} (hc : s.calls[k]? = some c) (hheld : c.phase = .held) :
    ∃ tr guard, (system config).Run s tr
        ⟨guard, s.calls.set k { c with phase := .released }⟩ ∧
      guard.toThrottle = s.guard.toThrottle.release c.ip ∧ guard.lock = none := by
  have hnonneg := (safe h).2.2.1
  obtain ⟨⟨cfg, perIp, global, lock⟩, calls⟩ := s
  obtain ⟨ip, phase⟩ := c
  obtain rfl : lock = none := hlock
  obtain rfl : phase = .held := hheld
  lift global to ℕ using hnonneg
  have hk : k < calls.length := (List.getElem?_eq_some_iff.mp hc).1
  have hset : ∀ c' c'' : ThrottleCall, (calls.set k c').set k c'' = calls.set k c'' := by simp
  have hrow : ∀ c' : ThrottleCall, (calls.set k c')[k]? = some c' := by simp [hk]
  have hcalled : next ⟨⟨cfg, perIp, global, none⟩, calls⟩ (.release k) =
      some ⟨⟨cfg, perIp, global, none⟩, calls.set k ⟨ip, .releasing⟩⟩ := by
    simp only [next, hc, if_true]
  have hsub : next ⟨⟨cfg, perIp, global, none⟩, calls.set k ⟨ip, .releasing⟩⟩ (.advance k) =
      some ⟨⟨cfg, perIp, (global : ℤ) - 1, none⟩, calls.set k ⟨ip, .subtracted⟩⟩ := by
    rw [next_advance (hrow _) rfl, hset]
  have hleave : SlotPhase.subtracted.advance ⟨cfg, perIp, (global : ℤ) - 1, none⟩ k ip =
      some (.released, ⟨cfg, (Throttle.release ⟨cfg, perIp, global⟩ ip).perIp,
        (global : ℤ) - 1, none⟩) := by
    simp only [SlotPhase.advance, if_true, Throttle.release]
    cases perIp.lookup ip with
    | none => rfl
    | some count =>
      dsimp only
      split_ifs <;> rfl
  have hreleased : next ⟨⟨cfg, perIp, (global : ℤ) - 1, none⟩, calls.set k ⟨ip, .subtracted⟩⟩
      (.advance k) = some ⟨⟨cfg, (Throttle.release ⟨cfg, perIp, global⟩ ip).perIp,
        (global : ℤ) - 1, none⟩, calls.set k ⟨ip, .released⟩⟩ := by
    rw [next_advance (hrow _) hleave, hset]
  refine ⟨_, _, .cons hcalled (.cons hsub (.cons hreleased (.nil _))), ?_, rfl⟩
  have hconfig := Throttle.release_config ⟨cfg, perIp, global⟩ ip
  have hglobal := Throttle.release_global ⟨cfg, perIp, global⟩ ip
  have hcount : ((global : ℤ) - 1).toNat = global - 1 := by omega
  simp only [SharedThrottle.toThrottle, Int.toNat_natCast, hcount]
  generalize Throttle.release ⟨cfg, perIp, global⟩ ip = g at hconfig hglobal ⊢
  obtain ⟨cfg', perIp', global'⟩ := g
  obtain rfl : cfg' = cfg := hconfig
  obtain rfl : global' = global - 1 := hglobal
  rfl

end ThrottleState

end Synclaire
