import Synclaire.Lib.Table
import Synclaire.Guard.Stack

set_option relaxedAutoImplicit false
set_option autoImplicit false

/-!
# Stacks that answer alike

Two stacks whose guards are related one by one, by a relation under which every callback gives
the same answer and related guards, cannot be told apart: whatever happens to both of them,
they give the same verdicts.

## Main definitions

* `Synclaire.Bisimulation` — a relation of guards that callbacks respect.
* `Synclaire.Happening` — a callback of a guard, or a change of the allowlist.
* `Synclaire.GuardStack.SameVerdicts` — no later verdict tells two stacks apart.

## Main results

* `Synclaire.Bisimulation.sameVerdicts` — related stacks give the same verdicts.
-/

namespace Synclaire

variable {G : Type*} [Guard G]

/-- Related guards answer every callback alike and stay related. -/
structure Bisimulation (R : G → G → Prop) : Prop where
  name : ∀ g g', R g g' → Guard.name g' = Guard.name g
  onReserve : ∀ g g' ctx now, R g g' →
    (Guard.onReserve g' ctx now).1 = (Guard.onReserve g ctx now).1 ∧
      R (Guard.onReserve g ctx now).2 (Guard.onReserve g' ctx now).2
  onEstablished : ∀ g g' ctx now, R g g' →
    (Guard.onEstablished g' ctx now).1 = (Guard.onEstablished g ctx now).1 ∧
      R (Guard.onEstablished g ctx now).2 (Guard.onEstablished g' ctx now).2
  onPayload : ∀ g g' ctx bytes now, R g g' →
    (Guard.onPayload g' ctx bytes now).1 = (Guard.onPayload g ctx bytes now).1 ∧
      R (Guard.onPayload g ctx bytes now).2 (Guard.onPayload g' ctx bytes now).2
  onActivity : ∀ g g' ctx now, R g g' →
    (Guard.onActivity g' ctx now).1 = (Guard.onActivity g ctx now).1 ∧
      R (Guard.onActivity g ctx now).2 (Guard.onActivity g' ctx now).2
  onClose : ∀ g g' ctx now, R g g' → R (Guard.onClose g ctx now) (Guard.onClose g' ctx now)

/-! ## What may happen to a stack -/

/-- The answer of a guard to a callback. -/
def answerTo (g : G) (callback : Callback) (ctx : GuardContext) (now : Instant) :
    Except SynError Unit × G :=
  match callback with
  | .reserve => Guard.onReserve g ctx now
  | .established => Guard.onEstablished g ctx now
  | .payload bytes => Guard.onPayload g ctx bytes now
  | .activity => Guard.onActivity g ctx now
  | .close => (.ok (), Guard.onClose g ctx now)

/-- Something that happens to a stack: a callback of guard `i`, from whatever call, or a new
allowlist. -/
inductive Happening
  | callback (i : ℕ) (callback : Callback) (context : GuardContext) (now : Instant)
  | allowlist (l : Allowlist)

namespace GuardStack

/-- The answer, and the stack after it. -/
def happen (stack : GuardStack G) : Happening → Except SynError Unit × GuardStack G
  | .callback i callback ctx now =>
    match stack.guards[i]? with
    | some g =>
      let (result, g) := answerTo g callback ctx now
      (result, { stack with guards := stack.guards.set i g })
    | none => (.ok (), stack)
  | .allowlist l => (.ok (), { stack with allowlist := l })

/-- The answers to a sequence of happenings, and the stack after it. -/
def happenAll (stack : GuardStack G) :
    List Happening → List (Except SynError Unit) × GuardStack G
  | [] => ([], stack)
  | h :: rest =>
    let (result, stack) := stack.happen h
    let (results, stack) := stack.happenAll rest
    (result :: results, stack)

/-- No later verdict tells the stacks apart: after the same happenings, which are answered
alike, a reservation is decided alike. -/
def SameVerdicts (stack stack' : GuardStack G) : Prop :=
  ∀ (happenings : List Happening),
    (stack'.happenAll happenings).1 = (stack.happenAll happenings).1 ∧
    ∀ (ctx : GuardContext) (clock : ℕ → Instant) (now : Instant),
      ((stack'.happenAll happenings).2.reserve ctx clock now).1 =
        ((stack.happenAll happenings).2.reserve ctx clock now).1

/-- Two stacks with related guards and the same allowlist. -/
structure Related (R : G → G → Prop) (stack stack' : GuardStack G) : Prop where
  guards : List.Forall₂ R stack.guards stack'.guards
  allowlist : stack'.allowlist = stack.allowlist

end GuardStack

namespace Bisimulation

variable {R : G → G → Prop} {stack stack' : GuardStack G}

/-- Related guards answer any callback alike. -/
theorem answerTo (hR : Bisimulation R) {g g' : G} (h : R g g') (callback : Callback)
    (ctx : GuardContext) (now : Instant) :
    (answerTo g' callback ctx now).1 = (Synclaire.answerTo g callback ctx now).1 ∧
      R (Synclaire.answerTo g callback ctx now).2 (Synclaire.answerTo g' callback ctx now).2 := by
  cases callback with
  | reserve => exact hR.onReserve g g' ctx now h
  | established => exact hR.onEstablished g g' ctx now h
  | payload bytes => exact hR.onPayload g g' ctx bytes now h
  | activity => exact hR.onActivity g g' ctx now h
  | close => exact ⟨rfl, hR.onClose g g' ctx now h⟩

/-- The loop of `reserve` decides alike over related guards.

**Proof sketch.** Induction on the related guards still to ask; the verdict does not depend on
the guards that accepted, only their number does, which sets the clock. -/
theorem reserveLoop_fst (hR : Bisimulation R) {ctx : GuardContext} {clock : ℕ → Instant}
    {now : Instant} {rest rest' : List G} (h : List.Forall₂ R rest rest') :
    ∀ {accepted accepted' : List G}, accepted'.length = accepted.length →
      (GuardStack.reserveLoop ctx clock now accepted' rest').1 =
        (GuardStack.reserveLoop ctx clock now accepted rest).1 := by
  induction h with
  | nil => exact fun _ => rfl
  | @cons g g' rest rest' hg _ ih =>
    intro accepted accepted' hlen
    obtain ⟨hres, hnext⟩ := hR.onReserve g g' ctx (clock accepted.length) hg
    rw [GuardStack.reserveLoop, GuardStack.reserveLoop, hlen]
    rcases hr : Guard.onReserve g ctx (clock accepted.length) with ⟨res, b⟩
    rcases hr' : Guard.onReserve g' ctx (clock accepted.length) with ⟨res', b'⟩
    rw [hr, hr'] at hres hnext
    obtain rfl : res' = res := hres
    cases res' with
    | error err =>
      show Except.error (SynError.guardRejected (Guard.name b') _) =
        Except.error (SynError.guardRejected (Guard.name b) _)
      rw [hR.name b b' hnext]
    | ok _ => exact ih (by simp [hlen])

/-- Related stacks stay related. -/
theorem happen (hR : Bisimulation R) (h : stack.Related R stack') (x : Happening) :
    (stack'.happen x).1 = (stack.happen x).1 ∧
      (stack.happen x).2.Related R (stack'.happen x).2 := by
  cases x with
  | allowlist l => exact ⟨rfl, h.guards, rfl⟩
  | callback i callback ctx now =>
    have hi := Table.forall₂_getElem? h.guards i
    unfold GuardStack.happen
    dsimp only
    cases hg : stack.guards[i]? with
    | none =>
      cases hg' : stack'.guards[i]? with
      | none => exact ⟨rfl, h⟩
      | some g' => rw [hg, hg'] at hi; cases hi
    | some g =>
      cases hg' : stack'.guards[i]? with
      | none => rw [hg, hg'] at hi; cases hi
      | some g' =>
        rw [hg, hg'] at hi
        cases hi with
        | some hgg =>
          obtain ⟨hres, hnext⟩ := hR.answerTo hgg callback ctx now
          exact ⟨hres, Table.forall₂_set h.guards i hnext, h.allowlist⟩

/-- **Related stacks give the same verdicts.** -/
theorem sameVerdicts (hR : Bisimulation R) (h : stack.Related R stack') :
    stack.SameVerdicts stack' := by
  intro happenings
  induction happenings generalizing stack stack' with
  | nil =>
    refine ⟨rfl, fun ctx clock now => ?_⟩
    show (stack'.reserve ctx clock now).1 = (stack.reserve ctx clock now).1
    unfold GuardStack.reserve
    rw [h.allowlist]
    by_cases hlisted : stack.allowlist.contains ctx.peerIp = true
    · rw [if_pos hlisted, if_pos hlisted]
    · rw [if_neg hlisted, if_neg hlisted]
      exact congrArg (Except.map _) (hR.reserveLoop_fst h.guards rfl)
  | cons x rest ih =>
    obtain ⟨hres, hnext⟩ := hR.happen h x
    obtain ⟨hrest, hverdict⟩ := ih hnext
    exact ⟨congrArg₂ List.cons hres hrest, hverdict⟩

end Bisimulation

end Synclaire
