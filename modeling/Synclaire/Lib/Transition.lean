import Mathlib.Data.List.Basic
import Mathlib.Tactic.Common

set_option relaxedAutoImplicit false
set_option autoImplicit false

/-!
# Labelled transition systems: reachable states and recorded runs

A program whose operations interleave is a transition system: states, initial states and
labelled steps. An invariant is proved once per step and holds in every reachable state
(`System.Reach.invariant`). A property that survives only *some* steps is treated by
recording the run: the property holds all along a run exactly when every recorded step is
harmless (`System.Run.forall_target_iff`).

## Main definitions

* `Transition.System` — states, initial states and labelled steps.
* `Transition.System.Reach` — the reachable states.
* `Transition.System.restrict` — the same system with only the steps that satisfy a guard.
* `Transition.System.Run` — a run together with the list of steps it took.

## Main results

* `Transition.System.Reach.invariant` — the invariant rule.
* `Transition.System.Run.forall_target_iff` — a property that a harmless step preserves and
  every other step destroys holds all along a run iff the run takes harmless steps only.
* `Transition.System.Run.invariant_taken` — the invariant rule for a run with its record.
* `Transition.System.Run.forall_or_exists` — a run without faults keeps the invariant, a run
  with one ends where no step repairs it.
* `Transition.System.Run.simulate` — a step-by-step simulation lifts to runs.
* `Transition.System.exists_foldlM_of_invariant` — actions that are possible wherever the invariant
  holds, one after the other.
* `Transition.System.Run.length_add_le` — a run whose steps all lower a measure is no longer than
  the measure at its start.
-/

namespace Transition

/-- A labelled transition system. -/
structure System (S L : Type*) where
  /-- The initial states. -/
  init : S → Prop
  /-- `step s l s'`: in state `s` the action `l` may lead to `s'`. -/
  step : S → L → S → Prop

/-- A step as it is recorded in a run. -/
structure Taken (S L : Type*) where
  /-- The state before the step. -/
  source : S
  /-- The action. -/
  label : L
  /-- The state after the step. -/
  target : S

namespace System

variable {S L : Type*}

/-- The states that some run from an initial state reaches. -/
inductive Reach (M : System S L) : S → Prop
  | init {s : S} : M.init s → Reach M s
  | step {s s' : S} {l : L} : Reach M s → M.step s l s' → Reach M s'

/-- **The invariant rule**: what holds initially and survives every step holds in every
reachable state. The step premise may use that its source is reachable. -/
theorem Reach.invariant {M : System S L} {I : S → Prop} (h0 : ∀ s, M.init s → I s)
    (hs : ∀ s l s', M.Reach s → I s → M.step s l s' → I s') {s : S} (h : M.Reach s) : I s := by
  induction h with
  | init hi => exact h0 _ hi
  | step hr hst ih => exact hs _ _ _ hr ih hst

/-- The system that takes only the steps satisfying `G`. -/
def restrict (M : System S L) (G : S → L → S → Prop) : System S L where
  init := M.init
  step s l s' := M.step s l s' ∧ G s l s'

/-- Restricting the steps reaches no new state. -/
theorem Reach.of_restrict {M : System S L} {G : S → L → S → Prop} {s : S}
    (h : (M.restrict G).Reach s) : M.Reach s := by
  induction h with
  | init hi => exact .init hi
  | step _ hst ih => exact .step ih hst.1

/-- The deterministic system of a partial step function started in `s₀`. -/
def ofFn (s₀ : S) (f : S → L → Option S) : System S L where
  init s := s = s₀
  step s l s' := f s l = some s'

/-- A run from the first state to the last, with the steps it took in order. -/
inductive Run (M : System S L) : S → List (Taken S L) → S → Prop
  | nil (s : S) : Run M s [] s
  | cons {s s' s'' : S} {l : L} {tr : List (Taken S L)} :
      M.step s l s' → Run M s' tr s'' → Run M s (⟨s, l, s'⟩ :: tr) s''

/-- Two runs, one after the other. -/
theorem Run.append {M : System S L} {s s' s'' : S} {tr tr' : List (Taken S L)}
    (h : M.Run s tr s') (h' : M.Run s' tr' s'') : M.Run s (tr ++ tr') s'' := by
  induction h with
  | nil => exact h'
  | cons hst _ ih => exact .cons hst (ih h')

/-- A run of restricted steps is a run. -/
theorem Run.of_restrict {M : System S L} {G : S → L → S → Prop} {s s' : S} {tr : List (Taken S L)}
    (h : (M.restrict G).Run s tr s') : M.Run s tr s' := by
  induction h with
  | nil => exact .nil _
  | cons hst _ ih => exact .cons hst.1 ih

/-- A run from a reachable state ends in one. -/
theorem Run.reach {M : System S L} {s s' : S} {tr : List (Taken S L)} (h : M.Run s tr s')
    (hr : M.Reach s) : M.Reach s' := by
  induction h with
  | nil => exact hr
  | cons hst _ ih => exact ih (.step hr hst)

/-- **The invariant rule for runs**: what survives every step survives a run. -/
theorem Run.invariant {M : System S L} {I : S → Prop}
    (hstep : ∀ s l s', M.Reach s → I s → M.step s l s' → I s') {s s' : S} {tr : List (Taken S L)}
    (h : M.Run s tr s') (hr : M.Reach s) (hI : I s) : I s' := by
  induction h with
  | nil => exact hI
  | cons hst _ ih => exact ih (.step hr hst) (hstep _ _ _ hr hI hst)

/-- **The invariant rule for recorded runs**: what survives every step as the record grows by it
survives a run. -/
theorem Run.invariant_taken {M : System S L} {I : List (Taken S L) → S → Prop}
    (hstep : ∀ tr s l s', M.Reach s → I tr s → M.step s l s' → I (tr ++ [⟨s, l, s'⟩]) s')
    {s s' : S} {tr₀ tr : List (Taken S L)} (h : M.Run s tr s') (hr : M.Reach s) (hI : I tr₀ s) :
    I (tr₀ ++ tr) s' := by
  induction h generalizing tr₀ with
  | nil => rwa [List.append_nil]
  | cons hst _ ih =>
    have hrest := ih (.step hr hst) (hstep tr₀ _ _ _ hr hI hst)
    rwa [List.append_assoc] at hrest

/-- The source of every step recorded in a run from a reachable state is reachable, and the
recorded step is a step of the system. -/
theorem Run.taken {M : System S L} {s s' : S} {tr : List (Taken S L)} (h : M.Run s tr s')
    (hr : M.Reach s) {x : Taken S L} (hx : x ∈ tr) :
    M.Reach x.source ∧ M.step x.source x.label x.target := by
  induction h with
  | nil => simp at hx
  | cons hst _ ih =>
    rcases List.mem_cons.mp hx with rfl | hx
    · exact ⟨hr, hst⟩
    · exact ih (.step hr hst) hx

/-- **The measure rule**: a run whose steps all lower a measure is no longer than what they take
from it. -/
theorem Run.length_add_le {M : System S L} {μ : S → ℕ}
    (hstep : ∀ s l s', M.step s l s' → μ s' < μ s) {s s' : S} {tr : List (Taken S L)}
    (h : M.Run s tr s') : tr.length + μ s' ≤ μ s := by
  induction h with
  | nil => exact Nat.le_of_eq (Nat.zero_add _)
  | cons hst _ ih =>
    have hlt := hstep _ _ _ hst
    rw [List.length_cons]
    omega

/-- **The rule for termination**: if in every state with the invariant that is not final some step
lowers a measure and keeps the invariant, then some run ends in a final state. -/
theorem exists_run_of_measure {M : System S L} {μ : S → ℕ} {I D : S → Prop}
    (hstep : ∀ s, I s → ¬D s → ∃ l s', M.step s l s' ∧ I s' ∧ μ s' < μ s) {s : S} (h : I s) :
    ∃ tr s', M.Run s tr s' ∧ I s' ∧ D s' := by
  induction hn : μ s using Nat.strongRecOn generalizing s with
  | ind n ih =>
    by_cases hD : D s
    · exact ⟨[], s, .nil s, h, hD⟩
    · obtain ⟨l, t, hst, hI, hlt⟩ := hstep s h hD
      obtain ⟨tr, s', hrun, hend⟩ := ih (μ t) (hn ▸ hlt) hI rfl
      exact ⟨⟨s, l, t⟩ :: tr, s', .cons hst hrun, hend⟩

/-- **Exactness of a step condition.** If, from a reachable state that satisfies `P`, a step
leads to a state satisfying `P` exactly when it satisfies `G`, then `P` holds in every state
of a run iff every step of the run satisfies `G`.

**Proof sketch.** Induction on the run. The head step is judged by the equivalence, and the
tail by the induction hypothesis, which applies as long as `P` holds after the head. -/
theorem Run.forall_target_iff {M : System S L} {P : S → Prop} {G : S → L → S → Prop}
    (hstep : ∀ s l s', M.Reach s → P s → M.step s l s' → (P s' ↔ G s l s'))
    {s s' : S} {tr : List (Taken S L)} (h : M.Run s tr s') (hr : M.Reach s) (hP : P s) :
    (∀ x ∈ tr, P x.target) ↔ ∀ x ∈ tr, G x.source x.label x.target := by
  induction h with
  | nil => simp
  | cons hst _ ih =>
    have hhead := hstep _ _ _ hr hP hst
    simp only [List.forall_mem_cons]
    constructor
    · rintro ⟨hp, htl⟩
      exact ⟨hhead.mp hp, (ih (.step hr hst) hp).mp htl⟩
    · rintro ⟨hg, htl⟩
      have hp := hhead.mpr hg
      exact ⟨hp, (ih (.step hr hst) hp).mpr htl⟩

/-- What holds at the start and after every step holds before every step. -/
theorem Run.forall_source {M : System S L} {P : S → Prop} {s s' : S} {tr : List (Taken S L)}
    (h : M.Run s tr s') (hP : P s) (htarget : ∀ x ∈ tr, P x.target) : ∀ x ∈ tr, P x.source := by
  induction h with
  | nil => exact fun x hx => absurd hx List.not_mem_nil
  | cons _ _ ih =>
    obtain ⟨hhead, htail⟩ := List.forall_mem_cons.mp htarget
    exact List.forall_mem_cons.mpr ⟨hP, ih hhead htail⟩

/-- **A fault is for good.** If the steps satisfying `G` keep `P`, every other step leads from
`P` to `Q`, and no step leaves `Q`, then a run from a state in `P` stays in `P` when all its
steps satisfy `G`, and ends in `Q` when one of them does not.

**Proof sketch.** Induction on the run. From the first step that does not satisfy `G` on, the
invariant is `Q`, and the tail is a run inside `Q`. -/
theorem Run.forall_or_exists {M : System S L} {P Q : S → Prop} {G : S → L → Prop}
    (hgood : ∀ s l s', P s → M.step s l s' → G s l → P s')
    (hbad : ∀ s l s', P s → M.step s l s' → ¬ G s l → Q s')
    (hlost : ∀ s l s', Q s → M.step s l s' → Q s') {s s' : S} {tr : List (Taken S L)}
    (h : M.Run s tr s') (hP : P s) :
    ((∀ x ∈ tr, G x.source x.label) ∧ P s') ∨ ((∃ x ∈ tr, ¬ G x.source x.label) ∧ Q s') := by
  have hkeep : ∀ {s s' : S} {tr : List (Taken S L)}, M.Run s tr s' → Q s → Q s' := by
    intro s s' tr h hQ
    induction h with
    | nil => exact hQ
    | cons hst _ ih => exact ih (hlost _ _ _ hQ hst)
  induction h with
  | nil => exact .inl ⟨by simp, hP⟩
  | @cons s s₁ s' l tr hst htail ih =>
    by_cases hG : G s l
    · rcases ih (hgood _ _ _ hP hst hG) with ⟨hall, hend⟩ | ⟨⟨x, hx, hxG⟩, hend⟩
      · exact .inl ⟨List.forall_mem_cons.mpr ⟨hG, hall⟩, hend⟩
      · exact .inr ⟨⟨x, .tail _ hx, hxG⟩, hend⟩
    · exact .inr ⟨⟨_, .head _, hG⟩, hkeep htail (hbad _ _ _ hP hst hG)⟩

/-- **Stuttering simulation.** If every step from a state related to `t` either leaves it related
to `t`, or is matched by a step of the other system, then a run is matched by a run. A marked
step must be matched by a marked one and an unmarked step by an unmarked one, so that the first
run has a marked step iff the second has. -/
theorem Run.simulate {T K : Type*} {M : System S L} {N : System T K} {R : S → T → Prop}
    {p : S → L → Prop} {q : T → K → Prop}
    (hstep : ∀ s l s' t, M.Reach s → R s t → M.step s l s' → (R s' t ∧ ¬ p s l) ∨
      ∃ k t', N.step t k t' ∧ R s' t' ∧ (p s l ↔ q t k))
    {s s' : S} {tr : List (Taken S L)} (h : M.Run s tr s') (hr : M.Reach s) {t : T}
    (hR : R s t) :
    ∃ tr' t', N.Run t tr' t' ∧ R s' t' ∧
      ((∃ x ∈ tr, p x.source x.label) ↔ ∃ x ∈ tr', q x.source x.label) := by
  induction h generalizing t with
  | nil => exact ⟨[], t, .nil t, hR, by simp⟩
  | cons hst _ ih =>
    rcases hstep _ _ _ _ hr hR hst with ⟨hR', hp⟩ | ⟨k, t₁, hmatch, hR', hpq⟩
    · obtain ⟨tr', t', hrun, hend, hmarked⟩ := ih (.step hr hst) hR'
      refine ⟨tr', t', hrun, hend, ?_⟩
      rw [← hmarked, List.exists_mem_cons_iff]
      exact or_iff_right hp
    · obtain ⟨tr', t', hrun, hend, hmarked⟩ := ih (.step hr hst) hR'
      refine ⟨⟨t, k, t₁⟩ :: tr', t', .cons hmatch hrun, hend, ?_⟩
      rw [List.exists_mem_cons_iff, List.exists_mem_cons_iff, hmarked]
      exact or_congr_left hpq

/-- The state after a list of actions of a step function; the first state if one of them is not
possible. -/
def after (f : S → L → Option S) (s₀ : S) (actions : List L) : S :=
  (actions.foldlM f s₀).getD s₀

/-- The state after a list of actions that are steps of the system is reachable. -/
theorem reach_after {M : System S L} {f : S → L → Option S} {s₀ : S} {actions : List L}
    (h0 : M.Reach s₀) (hstep : ∀ l ∈ actions, ∀ s s', f s l = some s' → M.step s l s') :
    M.Reach (after f s₀ actions) := by
  have hfold : ∀ {s s' : S}, M.Reach s → actions.foldlM f s = some s' → M.Reach s' := by
    intro s s' hs h
    induction actions generalizing s with
    | nil =>
      obtain rfl := Option.some.inj h
      exact hs
    | cons l rest ih =>
      rw [List.foldlM_cons] at h
      obtain ⟨t, ht, hrest⟩ := Option.bind_eq_some_iff.mp h
      exact ih (fun l hl => hstep l (.tail _ hl)) (.step hs (hstep l (.head _) s t ht)) hrest
  unfold after
  cases h : actions.foldlM f s₀ with
  | none => exact h0
  | some s => exact hfold h0 h

/-- **The rule for sequences of actions**: if from every state with the invariant every action is
possible and keeps it, then so is every sequence of actions. -/
theorem exists_foldlM_of_invariant {f : S → L → Option S} {I : S → Prop}
    (hstep : ∀ s l, I s → ∃ s', f s l = some s' ∧ I s') (actions : List L) {s : S} (h : I s) :
    ∃ s', actions.foldlM f s = some s' ∧ I s' := by
  induction actions generalizing s with
  | nil => exact ⟨s, rfl, h⟩
  | cons l rest ih =>
    obtain ⟨t, ht, hI⟩ := hstep s l h
    obtain ⟨s', hrest, hI'⟩ := ih hI
    refine ⟨s', ?_, hI'⟩
    rw [List.foldlM_cons, ht]
    exact hrest

/-- The steps that a step function takes along a list of actions, up to the first that is not
possible, and the state after them. -/
def follow (f : S → L → Option S) (s : S) : List L → List (Taken S L) × S
  | [] => ([], s)
  | l :: rest =>
    match f s l with
    | some s' => (⟨s, l, s'⟩ :: (follow f s' rest).1, (follow f s' rest).2)
    | none => ([], s)

/-- The steps taken along a list of actions have their labels in it. -/
theorem label_mem_of_follow {f : S → L → Option S} {actions : List L} {s : S} {x : Taken S L}
    (h : x ∈ (follow f s actions).1) : x.label ∈ actions := by
  induction actions generalizing s with
  | nil => cases h
  | cons l rest ih =>
    unfold follow at h
    cases hl : f s l with
    | none => rw [hl] at h; cases h
    | some s' =>
      rw [hl] at h
      rcases List.mem_cons.mp h with rfl | h
      · exact .head _
      · exact .tail _ (ih h)

/-- Following actions is a run. -/
theorem run_follow {M : System S L} {f : S → L → Option S}
    (hstep : ∀ s l s', f s l = some s' → M.step s l s') (actions : List L) (s : S) :
    M.Run s (follow f s actions).1 (follow f s actions).2 := by
  induction actions generalizing s with
  | nil => exact .nil s
  | cons l rest ih =>
    unfold follow
    cases h : f s l with
    | none => exact .nil s
    | some s' => exact .cons (hstep s l s' h) (ih s')

end System

end Transition
