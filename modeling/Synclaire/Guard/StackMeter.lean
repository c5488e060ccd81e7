import Synclaire.Guard.StackLedger

set_option relaxedAutoImplicit false
set_option autoImplicit false

/-!
# Guards that count

A guard that counts one up for each reservation it accepts and one down for each close counts,
at every moment, the accepted reservations that were not closed yet. By the ledger this is at
least the number of open sessions.

## Main definitions

* `Synclaire.StackState.Meter` — a number on the state of a guard that callbacks move so.

## Main results

* `Synclaire.StackState.Meter.add_closes` — what a meter shows in a reachable state.
* `Synclaire.StackState.Meter.openSessions_le` — a meter shows at least the open sessions.
-/

namespace Synclaire

namespace StackState

variable {G : Type*} [Guard G]

/-- Guards of the kind `K` count with `m` the accepted reservations from contexts in `P`. -/
structure Meter (K : G → Prop) (m : G → ℕ) (P : GuardContext → Bool) : Prop where
  kind : KeptByCallbacks K
  onReserveOk : ∀ g ctx now, K g → (Guard.onReserve g ctx now).1 = .ok () →
    m (Guard.onReserve g ctx now).2 = m g + (P ctx).toNat
  onReserveError : ∀ g ctx now err, K g → (Guard.onReserve g ctx now).1 = .error err →
    m (Guard.onReserve g ctx now).2 = m g
  onEstablished : ∀ g ctx now, K g → m (Guard.onEstablished g ctx now).2 = m g
  onPayload : ∀ g ctx bytes now, K g → m (Guard.onPayload g ctx bytes now).2 = m g
  onActivity : ∀ g ctx now, K g → m (Guard.onActivity g ctx now).2 = m g
  onClose : ∀ g ctx now, K g → m (Guard.onClose g ctx now) = m g - (P ctx).toNat

namespace Meter

variable {K : G → Prop} {m : G → ℕ} {P : GuardContext → Bool}

/-- **A visit moves the meter by what is recorded**, as long as the meter is not at zero when
the guard is closed.

**Proof sketch.** One case for each visit: an accepted reservation adds one to the meter and to
the acceptances, a close takes one from the meter and adds one to the closes. -/
theorem visit (hm : Meter K m P) {g g' : G} {ctx : GuardContext} {now : Instant} {i : ℕ}
    {frame frame' : StackFrame} {callback : Callback} {result : Except SynError Unit}
    {events : List GuardEvent} (h : Visit g ctx now i frame callback result g' events frame')
    (hK : K g) (hpos : callback = .close → (P ctx).toNat ≤ m g) :
    m g' + (P ctx && callback = .close).toNat =
      m g + (P ctx && (callback = .reserve && result = .ok ())).toNat := by
  cases h with
  | reserveOk hr =>
    have := hm.onReserveOk g ctx now hK (by rw [hr])
    rw [hr] at this
    simpa using this
  | reserveError hr =>
    have := hm.onReserveError g ctx now _ hK (by rw [hr])
    rw [hr] at this
    simpa using this
  | establishedOk hr | establishedError hr =>
    have := hm.onEstablished g ctx now hK
    rw [hr] at this
    simpa using this
  | payloadTouch hr | payloadTouchError hr | activityOk hr | activityError hr =>
    have := hm.onActivity g ctx now hK
    rw [hr] at this
    simpa using this
  | @payloadOk _ bytes hr =>
    have := hm.onPayload g ctx bytes now hK
    rw [hr] at this
    simpa using this
  | @payloadError _ bytes _ hr =>
    have := hm.onPayload g ctx bytes now hK
    rw [hr] at this
    simpa using this
  | rollback | close =>
    have := hm.onClose g ctx now hK
    have := hpos rfl
    simp
    omega

/-- A call that closes a guard owed it the close. -/
theorem owing_of_close {s : StackState G} {c i : ℕ} {call : StackCall} {now : Instant}
    {g g' : G} {result : Except SynError Unit} {events : List GuardEvent} {frame : StackFrame}
    (hc : s.calls[c]? = some call)
    (h : Visit g call.context now i call.frame .close result g' events frame) :
    (P call.context).toNat ≤ s.owing P i := by
  have howes : call.frame.owes i = true := by
    generalize call.frame = before at h
    cases h <;> simp [StackFrame.owes]
  cases hP : P call.context with
  | false => exact Nat.zero_le _
  | true =>
    refine List.countP_pos_iff.mpr ⟨call, List.mem_of_getElem? hc, ?_⟩
    rw [isOwing, hP, howes]
    rfl

/-- **What a meter shows**: in every reachable state, the accepted reservations minus the
closes.

**Proof sketch.** A visit of the guard moves meter and record alike. It never closes at zero:
the visiting call owes the close, so by the ledger more reservations were accepted than
closed. -/
theorem add_closes (hm : Meter K m P) {stack : GuardStack G} {env : G → G → Prop}
    (henv : ∀ g g', env g g' → K g → K g' ∧ m g' = m g) {j : ℕ} {g₀ : G}
    (h0 : stack.guards[j]? = some g₀) (hK : K g₀) (hzero : m g₀ = 0) {s : StackState G}
    (h : (system stack env).Reach s) :
    ∀ g, s.guards[j]? = some g → K g ∧ m g + s.closes P j = s.accepted P j := by
  refine Transition.System.Reach.invariant (I := fun s : StackState G =>
    ∀ g, s.guards[j]? = some g → K g ∧ m g + s.closes P j = s.accepted P j) ?_ ?_ h
  · rintro _ rfl g hg
    obtain rfl := Option.some.inj (h0.symm.trans hg)
    exact ⟨hK, by rw [hzero]; rfl⟩
  · rintro s a s' hr hI ⟨hnext, hallowed⟩ b hb
    rcases next_effect hnext with ⟨hguards, hlog⟩ | ⟨i, g, g', rfl, hg, hguards, hlog⟩ |
      ⟨c, call, now, i, g, callback, result, g', events, frame, hc, hg, hvisit, hguards, hlog⟩
    · rw [hguards] at hb
      simpa only [closes, accepted, hlog] using hI b hb
    · rw [hguards] at hb
      simp only [closes, accepted, hlog]
      rcases (Table.getElem?_set_eq_some hg).mp hb with ⟨rfl, rfl⟩ | ⟨-, hb⟩
      · obtain ⟨hKb, hmb⟩ := henv g b (hallowed j b rfl g hg) (hI g hg).1
        exact ⟨hKb, by rw [hmb]; exact (hI g hg).2⟩
      · exact hI b hb
    · rw [hguards] at hb
      have hacc : s'.accepted P j = s.accepted P j + (P call.context &&
          (i = j && callback = .reserve && result = .ok ())).toNat := by
        rw [accepted, hlog]
        exact Table.countP_append_singleton _ _ _
      have hclose : s'.closes P j = s.closes P j +
          (P call.context && (i = j && callback = .close)).toNat := by
        rw [closes, hlog]
        exact Table.countP_append_singleton _ _ _
      rw [hacc, hclose]
      rcases (Table.getElem?_set_eq_some hg).mp hb with ⟨rfl, rfl⟩ | ⟨hne, hb⟩
      · obtain ⟨hKg, hbal⟩ := hI g hg
        have hledger := ledger hr P j (List.getElem?_eq_some_iff.mp hg).1
        have hpos : callback = .close → (P call.context).toNat ≤ m g := by
          rintro rfl
          have := owing_of_close (P := P) hc hvisit
          omega
        have hmove := hm.visit hvisit hKg hpos
        simp only [decide_true, Bool.true_and]
        exact ⟨hvisit.keeps hm.kind hKg, by omega⟩
      · simp only [Ne.symm hne, decide_false, Bool.false_and, Bool.and_false, Bool.toNat_false,
          Nat.add_zero]
        exact hI b hb

/-- **A meter shows at least the open sessions.** -/
theorem openSessions_le (hm : Meter K m P) {stack : GuardStack G} {env : G → G → Prop}
    (henv : ∀ g g', env g g' → K g → K g' ∧ m g' = m g) {j : ℕ} {g₀ : G}
    (h0 : stack.guards[j]? = some g₀) (hK : K g₀) (hzero : m g₀ = 0) {s : StackState G}
    (h : (system stack env).Reach s) {g : G} (hg : s.guards[j]? = some g) :
    s.openSessions P ≤ m g := by
  have hshown := (hm.add_closes henv h0 hK hzero h g hg).2
  have hledger := ledger h P j (List.getElem?_eq_some_iff.mp hg).1
  omega

end Meter

end StackState

end Synclaire
