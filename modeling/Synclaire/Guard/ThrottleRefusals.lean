import Synclaire.Guard.ThrottleConcurrent

set_option relaxedAutoImplicit false
set_option autoImplicit false

/-!
# When a refusal of the throttle has a cause

An acquire adds to the counter before it knows whether it will succeed. Until it takes its
increment back, other acquires count it as a slot, so an acquire can be refused with the scope
`global` although slots are free, because of attempts that are refused themselves.

## Main definitions

* `Synclaire.ThrottleState.attempts` — the increments in the counter that are not held slots.
* `Synclaire.ThrottleState.RefusalsFull` — a refused acquire was in progress at a moment when
  all slots were held.
* `Synclaire.ThrottleState.UnmovedByDoomed` — no acquire finds the counter at the cap because
  of attempts of other addresses that end at the cap of their address.
* `Synclaire.ThrottleState.FindsHeldSlots` — a step that finds the counter at the cap finds it
  there without the attempts.

## Main results

* `Synclaire.ThrottleState.refusals_have_cause` — in the runs of such steps every refusal has a
  cause; and an acquire alone in time is refused without one in no other states.
* `Synclaire.ThrottleState.not_forall_refusalsFull` — a refusal with a free slot.
-/

namespace Synclaire

namespace SlotPhase

/-- The increment of the row is in the counter and the acquire has not succeeded. -/
def isAttempt : SlotPhase → Bool
  | overGlobal | counted | overIp => true
  | _ => false

/-- The acquire of the row was called and has not returned. -/
def isAcquiring : SlotPhase → Bool
  | called | overGlobal | counted | overIp | undone => true
  | _ => false

end SlotPhase

namespace ThrottleState

open Transition (Taken)

/-! ## Refusals and their causes -/

/-- The phase of row `k`. -/
def phase (s : ThrottleState) (k : ℕ) : Option SlotPhase := s.calls[k]?.map (·.phase)

/-- The acquires that are in the counter without having succeeded. -/
def attempts (s : ThrottleState) : ℕ := s.calls.countP fun c => c.phase.isAttempt

/-- The step takes back the increment of row `k`, whose acquire returns the error with the scope
`global`. -/
def RefusesGlobal (x : Taken ThrottleState ThrottleAction) (k : ℕ) : Prop :=
  x.label = .advance k ∧ x.source.phase k = some .overGlobal

/-- The step is the `fetch_add` of row `k`, and it finds the counter at the cap or over it. -/
def FindsFull (x : Taken ThrottleState ThrottleAction) (k : ℕ) : Prop :=
  x.label = .advance k ∧ x.source.phase k = some .called ∧
    (x.source.guard.config.maxConnectionsGlobal : ℤ) ≤ x.source.guard.global

/-- The acquire of row `k` is in progress before the step, and all slots are held. -/
def FullDuring (x : Taken ThrottleState ThrottleAction) (k : ℕ) : Prop :=
  (x.source.phase k).any SlotPhase.isAcquiring = true ∧
    x.source.heldSlots = x.source.guard.config.maxConnectionsGlobal

/-- Every acquire that is refused with the scope `global` was in progress at a moment at which
all slots were held. -/
def RefusalsFull (tr : List (Taken ThrottleState ThrottleAction)) : Prop :=
  ∀ x ∈ tr, ∀ k, RefusesGlobal x k → ∃ y ∈ tr, FullDuring y k

/-- Row `k` has returned the error with the scope `per-ip`. -/
def refusedPerIp (s : ThrottleState) (k : ℕ) : Prop :=
  ∃ limit, s.phase k = some (.refused (.throttled "per-ip".toList limit))

open Classical in
/-- The attempts of addresses other than `ip` that have returned the error with the scope
`per-ip` by the state `final`. -/
noncomputable def doomed (s final : ThrottleState) (ip : IpAddr) : ℕ :=
  s.calls.zipIdx.countP fun (c, k) =>
    c.phase.isAttempt && decide (c.ip ≠ ip) && decide (final.refusedPerIp k)

/-- An acquire that finds the counter at the cap finds it there also without the attempts of
other addresses that end, by the state `final`, at the cap of their address. -/
def UnmovedByDoomed (tr : List (Taken ThrottleState ThrottleAction)) (final : ThrottleState) :
    Prop :=
  ∀ x ∈ tr, ∀ (k : ℕ) (c : ThrottleCall), FindsFull x k → x.source.calls[k]? = some c →
    (x.source.guard.config.maxConnectionsGlobal : ℤ) ≤
      x.source.guard.global - x.source.doomed final c.ip

/-- If the step finds the counter at the cap, the counter is there also without the attempts. -/
def FindsHeldSlots (x : Taken ThrottleState ThrottleAction) : Prop :=
  ∀ k, FindsFull x k →
    (x.source.guard.config.maxConnectionsGlobal : ℤ) ≤ x.source.guard.global - x.source.attempts

/-! ## Where a refusal comes from -/

variable {config : ThrottleConfig}

/-- The counter counts the held slots and the attempts. -/
theorem added_eq (s : ThrottleState) : s.added = s.heldSlots + s.attempts := by
  unfold added heldSlots attempts
  induction s.calls with
  | nil => rfl
  | cons c rest ih =>
    simp only [List.countP_cons, ih]
    cases c.phase <;> simp [SlotPhase.isAdded, SlotPhase.isHeld, SlotPhase.isAttempt] <;> omega

/-- A row over the cap was so before the step, or the step is its `fetch_add`, which found the
counter at the cap. -/
theorem overGlobal_cases {s s' : ThrottleState} {a : ThrottleAction} (h : next s a = some s')
    {k : ℕ} (hk : s'.phase k = some .overGlobal) :
    s.phase k = some .overGlobal ∨ FindsFull ⟨s, a, s'⟩ k := by
  unfold phase at *
  obtain ⟨d, hd, hphase⟩ := Option.map_eq_some_iff.mp hk
  rcases next_cases h with ⟨ip, -, rfl⟩ | ⟨j, c, -, hc, hheld, rfl⟩ |
    ⟨j, c, p, guard, rfl, hc, hupd, rfl⟩
  · rcases Table.getElem?_append_singleton.mp hd with hd | ⟨-, rfl⟩
    · exact .inl (Option.map_eq_some_iff.mpr ⟨d, hd, hphase⟩)
    · cases hphase
  · rcases (Table.getElem?_set_eq_some hc).mp hd with ⟨rfl, rfl⟩ | ⟨-, hd⟩
    · cases hphase
    · exact .inl (Option.map_eq_some_iff.mpr ⟨d, hd, hphase⟩)
  · rcases (Table.getElem?_set_eq_some hc).mp hd with ⟨rfl, rfl⟩ | ⟨-, hd⟩
    · right
      obtain rfl : p = .overGlobal := hphase
      obtain ⟨ip, q⟩ := c
      cases hupd with
      | addOver hcap =>
        refine ⟨rfl, ?_, ?_⟩
        · simp only [phase, hc, Option.map_some]
        · show (s.guard.config.maxConnectionsGlobal : ℤ) ≤ s.guard.global
          omega
    · exact .inl (Option.map_eq_some_iff.mpr ⟨d, hd, hphase⟩)

/-- In a run, a row that is over the cap before some step was so at the start, or a step of the
run is its `fetch_add`, which found the counter at the cap. -/
theorem findsFull_of_overGlobal {s s' : ThrottleState}
    {tr : List (Taken ThrottleState ThrottleAction)} (h : (system config).Run s tr s')
    {x : Taken ThrottleState ThrottleAction} (hx : x ∈ tr) {k : ℕ}
    (hk : x.source.phase k = some .overGlobal) :
    s.phase k = some .overGlobal ∨ ∃ y ∈ tr, FindsFull y k := by
  induction h with
  | nil => cases hx
  | cons hst hrest ih =>
    rcases List.mem_cons.mp hx with rfl | hx
    · exact .inl hk
    · rcases ih hx with hover | ⟨y, hy, hfull⟩
      · rcases overGlobal_cases hst hover with hover | hfull
        · exact .inl hover
        · exact .inr ⟨_, .head _, hfull⟩
      · exact .inr ⟨y, .tail _ hy, hfull⟩

/-- A `fetch_add` that finds the counter at the cap without the attempts finds all slots
held. -/
theorem heldSlots_eq {s : ThrottleState} (h : (system config).Reach s)
    (hfull : (s.guard.config.maxConnectionsGlobal : ℤ) ≤ s.guard.global - s.attempts) :
    s.heldSlots = s.guard.config.maxConnectionsGlobal := by
  have hs := accounted_of_reach h
  have hle := (safe h).1
  have hglobal := hs.global
  rw [added_eq] at hglobal
  rw [hs.config_eq] at hfull ⊢
  omega

/-- The doomed attempts are attempts. -/
theorem doomed_le_attempts (s final : ThrottleState) (ip : IpAddr) :
    s.doomed final ip ≤ s.attempts := by
  have hcount : s.attempts = s.calls.zipIdx.countP fun (c, _) => c.phase.isAttempt := by
    have hmap := List.countP_map (p := fun c : ThrottleCall => c.phase.isAttempt)
      (f := Prod.fst) (l := s.calls.zipIdx)
    rw [List.zipIdx_map_fst] at hmap
    exact hmap
  rw [hcount]
  refine List.countP_mono_left fun y _ hy => ?_
  simp only [Bool.and_eq_true] at hy
  exact hy.1.1

/-- If the counter is never found at the cap because of attempts, a refused acquire was in
progress when all slots were held: at its own `fetch_add`. -/
theorem refusalsFull_of_findsHeldSlots {s : ThrottleState}
    {tr : List (Taken ThrottleState ThrottleAction)}
    (h : (system config).Run (start config) tr s) (hG : ∀ x ∈ tr, FindsHeldSlots x) :
    RefusalsFull tr := by
  intro x hx k hrefuse
  rcases findsFull_of_overGlobal h hx hrefuse.2 with hstart | ⟨y, hy, hfull⟩
  · cases hstart
  · refine ⟨y, hy, by rw [hfull.2.1]; rfl, ?_⟩
    exact heldSlots_eq (h.taken (.init rfl) hy).1 (hG y hy k hfull)

/-- If the counter is never found at the cap because of attempts, the doomed ones among them
move no verdict. -/
theorem unmovedByDoomed_of_findsHeldSlots {tr : List (Taken ThrottleState ThrottleAction)}
    (hG : ∀ x ∈ tr, FindsHeldSlots x) (s : ThrottleState) : UnmovedByDoomed tr s := by
  intro x hx k c hfull hc
  have hcap := hG x hx k hfull
  have hle := doomed_le_attempts x.source s c.ip
  omega

/-! ## An acquire that is alone in time -/

/-- An acquire up to its second update, the first that nobody interrupts. -/
def soloAcquire (s : ThrottleState) (ip : IpAddr) : List ThrottleAction :=
  [.acquire ip, .advance s.calls.length, .advance s.calls.length]

/-- A new row holds no slot. -/
theorem heldSlots_append {g : SharedThrottle} {calls : List ThrottleCall} {ip : IpAddr}
    {p : SlotPhase} (hp : p.isHeld = false) :
    heldSlots ⟨g, calls ++ [⟨ip, p⟩]⟩ = calls.countP fun c => c.phase.isHeld := by
  rw [heldSlots, Table.countP_append_singleton, hp]
  rfl

/-- The phase of the row that was appended last. -/
theorem phase_append (g : SharedThrottle) (calls : List ThrottleCall) (c : ThrottleCall) :
    phase ⟨g, calls ++ [c]⟩ calls.length = some c.phase := by
  simp [phase]

/-- The three steps of an acquire that nobody interrupts: the call, the `fetch_add`, and one
more. -/
theorem solo_cases {g : SharedThrottle} {calls : List ThrottleCall} {s' : ThrottleState}
    {ip : IpAddr} {tr : List (Taken ThrottleState ThrottleAction)}
    (hrun : (system config).Run ⟨g, calls⟩ tr s')
    (hlabels : tr.map (·.label) = soloAcquire ⟨g, calls⟩ ip) :
    ∃ p, p = (if (g.config.maxConnectionsGlobal : ℤ) < g.global + 1 then SlotPhase.overGlobal
        else .counted) ∧
      tr = [⟨⟨g, calls⟩, .acquire ip, ⟨g, calls ++ [⟨ip, .called⟩]⟩⟩,
        ⟨⟨g, calls ++ [⟨ip, .called⟩]⟩, .advance calls.length,
          ⟨{ g with global := g.global + 1 }, calls ++ [⟨ip, p⟩]⟩⟩,
        ⟨⟨{ g with global := g.global + 1 }, calls ++ [⟨ip, p⟩]⟩, .advance calls.length, s'⟩] := by
  cases hrun with
  | nil => cases hlabels
  | cons hst₁ hrun =>
  cases hrun with
  | nil => cases hlabels
  | cons hst₂ hrun =>
  cases hrun with
  | nil => cases hlabels
  | cons hst₃ hrun =>
  cases hrun with
  | cons _ _ => cases hlabels
  | nil =>
  simp only [List.map_cons, List.map_nil, soloAcquire, List.cons.injEq, and_true] at hlabels
  obtain ⟨rfl, rfl, rfl⟩ := hlabels
  obtain rfl := Option.some.inj hst₁
  have hadd : SlotPhase.called.advance g calls.length ip =
      some (if (g.config.maxConnectionsGlobal : ℤ) < g.global + 1 then .overGlobal else .counted,
        { g with global := g.global + 1 }) := by
    simp only [SlotPhase.advance]
    split_ifs <;> rfl
  obtain rfl := Option.some.inj ((next_advance_last hadd).symm.trans hst₂)
  exact ⟨_, rfl, rfl⟩

/-- An acquire that nobody interrupts is refused without a cause exactly if it finds the counter
at the cap because of attempts.

**Proof sketch.** Nothing else moves, so the held slots are the same throughout the call. It is
refused with the scope `global` exactly if the counter is at the cap before it. -/
theorem refusalsFull_solo_iff {s s' : ThrottleState} (h : (system config).Reach s) {ip : IpAddr}
    {tr : List (Taken ThrottleState ThrottleAction)} (hrun : (system config).Run s tr s')
    (hlabels : tr.map (·.label) = soloAcquire s ip) :
    RefusalsFull tr ↔ ((s.guard.config.maxConnectionsGlobal : ℤ) ≤ s.guard.global →
      (s.guard.config.maxConnectionsGlobal : ℤ) ≤ s.guard.global - s.attempts) := by
  have hs := accounted_of_reach h
  have hglobal := hs.global
  rw [added_eq] at hglobal
  have hle := hs.config_eq ▸ (safe h).1
  clear hs h
  obtain ⟨g, calls⟩ := s
  obtain ⟨p, hp, rfl⟩ := solo_cases hrun hlabels
  have hcalled := phase_append g calls ⟨ip, .called⟩
  have hrow := phase_append { g with global := g.global + 1 } calls ⟨ip, p⟩
  simp only at hle hglobal ⊢
  -- a refusal is the third step, of the new row, after the counter went over the cap
  have hrefuse : ∀ x ∈ [Taken.mk ⟨g, calls⟩ (.acquire ip) ⟨g, calls ++ [⟨ip, .called⟩]⟩,
      ⟨⟨g, calls ++ [⟨ip, .called⟩]⟩, .advance calls.length,
        ⟨{ g with global := g.global + 1 }, calls ++ [⟨ip, p⟩]⟩⟩,
      ⟨⟨{ g with global := g.global + 1 }, calls ++ [⟨ip, p⟩]⟩, .advance calls.length, s'⟩],
      ∀ k, RefusesGlobal x k → k = calls.length ∧ p = .overGlobal := by
    rintro x hx k ⟨hlabel, hphase⟩
    simp only [List.mem_cons, List.not_mem_nil, or_false] at hx
    rcases hx with rfl | rfl | rfl
    · cases hlabel
    · cases hlabel
      cases hcalled.symm.trans hphase
    · cases hlabel
      exact ⟨rfl, Option.some.inj (hrow.symm.trans hphase)⟩
  by_cases hcap : (g.config.maxConnectionsGlobal : ℤ) < g.global + 1
  · obtain rfl : p = .overGlobal := hp.trans (if_pos hcap)
    refine Iff.trans (b := heldSlots ⟨g, calls⟩ = g.config.maxConnectionsGlobal) ⟨?_, ?_⟩ ?_
    · intro hfull
      obtain ⟨y, hy, -, hslots⟩ :=
        hfull _ (.tail _ (.tail _ (.head _))) calls.length ⟨rfl, hrow⟩
      simp only [List.mem_cons, List.not_mem_nil, or_false] at hy
      rcases hy with rfl | rfl | rfl
      · exact hslots
      · exact (heldSlots_append rfl).symm.trans hslots
      · exact (heldSlots_append rfl).symm.trans hslots
    · intro hslots x hx k hk
      obtain ⟨rfl, -⟩ := hrefuse x hx k hk
      exact ⟨_, .tail _ (.head _), by rw [hcalled]; rfl, (heldSlots_append rfl).trans hslots⟩
    · omega
  · obtain rfl : p = .counted := hp.trans (if_neg hcap)
    refine iff_of_true ?_ fun hfull => absurd hfull (by omega)
    intro x hx k hk
    cases (hrefuse x hx k hk).2

/-- **When a refusal has a cause.** In every run in which no `fetch_add` finds the counter at
the cap only because of attempts, an acquire that is refused with the scope `global` was in
progress at a moment at which all slots were held, and attempts that end at the cap of their
address move no verdict about another. From every reachable state, an acquire that nobody
interrupts is refused without such a moment in exactly the other case. -/
theorem refusals_have_cause (config : ThrottleConfig) :
    (∀ (tr : List (Taken ThrottleState ThrottleAction)) (s : ThrottleState),
      (system config).Run (start config) tr s → (∀ x ∈ tr, FindsHeldSlots x) →
        RefusalsFull tr ∧ UnmovedByDoomed tr s) ∧
    ∀ s, (system config).Reach s → ∀ (ip : IpAddr)
      (tr : List (Taken ThrottleState ThrottleAction)) (s' : ThrottleState),
      (system config).Run s tr s' → tr.map (·.label) = soloAcquire s ip →
        (RefusalsFull tr ↔ ((s.guard.config.maxConnectionsGlobal : ℤ) ≤ s.guard.global →
          (s.guard.config.maxConnectionsGlobal : ℤ) ≤ s.guard.global - s.attempts)) :=
  ⟨fun _ s hrun hG =>
      ⟨refusalsFull_of_findsHeldSlots hrun hG, unmovedByDoomed_of_findsHeldSlots hG s⟩,
    fun _ h _ _ _ hrun hlabels => refusalsFull_solo_iff h hrun hlabels⟩

/-- A slot is acquired, and another acquire finds it held and is refused. -/
def refusedRun : List ThrottleAction :=
  [.acquire (.v4 (ipv4 10 0 0 1)), .advance 0, .advance 0,
    .acquire (.v4 (ipv4 10 0 0 2)), .advance 1, .advance 1]

/-- The only slot is held while another acquire is refused. -/
theorem refusals_have_cause_one_slot :
    (Transition.System.follow next (start ⟨1, 1⟩) refusedRun).2.phase 1 =
        some (.refused (.throttled "global".toList 1)) ∧
      RefusalsFull (Transition.System.follow next (start ⟨1, 1⟩) refusedRun).1 := by
  refine ⟨by decide +kernel, ((refusals_have_cause ⟨1, 1⟩).1 _ _
    (Transition.System.run_follow (fun _ _ _ hnext => hnext) refusedRun _) ?_).1⟩
  have hall : ∀ x ∈ (Transition.System.follow next (start ⟨1, 1⟩) refusedRun).1,
      (x.source.guard.config.maxConnectionsGlobal : ℤ) ≤ x.source.guard.global →
        (x.source.guard.config.maxConnectionsGlobal : ℤ) ≤
          x.source.guard.global - x.source.attempts ∨
        ∃ k ∈ List.range 2, x.label = .advance k ∧ x.source.phase k ≠ some .called := by
    decide +kernel
  intro x hx k ⟨hlabel, hphase, hfull⟩
  rcases hall x hx hfull with hcap | ⟨j, -, hlabel', hne⟩
  · exact hcap
  · cases hlabel.symm.trans hlabel'
    exact absurd hphase hne

/-- One slot for each address and two in total. The first slot is acquired by `10.0.0.1`, whose
second acquire enters the counter; the acquire of `10.0.0.2` finds it there and is refused, and
then the second acquire of `10.0.0.1` is. -/
def contendedRun : List ThrottleAction :=
  [.acquire (.v4 (ipv4 10 0 0 1)), .advance 0, .advance 0, .acquire (.v4 (ipv4 10 0 0 1)),
    .advance 1, .acquire (.v4 (ipv4 10 0 0 2)), .advance 2, .advance 2, .advance 1, .advance 1,
    .advance 1]

/-- **A refusal with a free slot**: `10.0.0.2` is refused because of an attempt of `10.0.0.1`
that will be refused itself, while one of the two slots is free. -/
theorem not_forall_refusalsFull :
    ¬ ∀ (config : ThrottleConfig) (tr : List (Taken ThrottleState ThrottleAction))
      (s : ThrottleState), (system config).Run (start config) tr s →
        RefusalsFull tr ∧ UnmovedByDoomed tr s := by
  intro hall
  obtain ⟨hfull, -⟩ := hall ⟨1, 2⟩ _ _
    (Transition.System.run_follow (fun _ _ _ hnext => hnext) contendedRun _)
  have hrefuse : ∃ x ∈ (Transition.System.follow next (start ⟨1, 2⟩) contendedRun).1,
      x.label = .advance 2 ∧ x.source.phase 2 = some .overGlobal := by decide +kernel
  obtain ⟨x, hx, hrow⟩ := hrefuse
  obtain ⟨y, hy, hduring⟩ := hfull x hx 2 hrow
  have hnone : ∀ y ∈ (Transition.System.follow next (start ⟨1, 2⟩) contendedRun).1,
      ¬ FullDuring y 2 := by
    unfold FullDuring
    decide +kernel
  exact hnone y hy hduring

end ThrottleState

end Synclaire
