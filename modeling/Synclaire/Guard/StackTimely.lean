import Synclaire.Guard.StackLifecycle

set_option relaxedAutoImplicit false
set_option autoImplicit false

/-!
# Sessions that are used in time

A stack is used in time if the calls on a session come one after the other and none of them reaches
the guards after the close. Then every session lives a timely life, at every moment of the run, and
when it is closed each guard has received an expected word for it.

## Main definitions

* `Synclaire.StackState.InTime` — the step begins no call next to another one, and no late one.

## Main results

* `Synclaire.StackState.timely_of_reach` — every session lives a timely life.
* `Synclaire.StackState.lifecycle_of_reach` — the words of a closed session.
-/

namespace Synclaire

/-- A timely session that is closed, and on which no call runs, has given an expected word to each
guard. -/
theorem SessionLife.Timely.lifecycle {n : ℕ} {v : SessionLife} (h : Timely n v)
    (hclosed : v.slot.session.closed = true) (hframe : v.frame = none) :
    ∀ j < n, Lifecycle (v.word j) := by
  intro j hj
  cases h with
  | serving _ hopen _ _ => rw [hclosed] at hopen; cases hopen
  | establishing _ hopen _ _ _ => rw [hclosed] at hopen; cases hopen
  | closing _ hrunning _ _ => rw [hframe] at hrunning; cases hrunning
  | closed _ _ hstage => exact mem_accepts_lifecycle_iff.mp (hstage j hj)

namespace StackState

variable {G : Type*}

/-- The calls on every session come one after the other, and none is late. -/
def InTime (s : StackState G) (a : StackAction G) (s' : StackState G) : Prop :=
  ∀ k, OneCall k s a s' ∧ ¬IsLate k s a

/-- Steps that begin no call on a session are in time. -/
theorem inTime_of_not_begins {s s' : StackState G} {a : StackAction G} (h : a.begins = none) :
    InTime s a s' := by
  refine fun k => ⟨fun hk => ?_, not_isLate fun call hk => ?_⟩
  · rw [h] at hk
    cases hk
  · rw [h] at hk
    cases hk

/-- A call that begins on a session on which none runs, and that is not late there, is in time. -/
theorem inTime_of_begins {s s' : StackState G} {a : StackAction G} {k : ℕ} {call : SessionCall}
    {slot : SessionSlot} (hbegins : a.begins = some (k, call)) (hslot : s.sessions[k]? = some slot)
    (hfree : ∀ c ∈ s.calls, c.borrows k = false) (hlate : call.isLate slot = false) :
    InTime s a s' := by
  intro k'
  constructor
  · intro hk
    rw [hbegins] at hk
    obtain rfl := Option.some.inj hk
    exact hfree
  · rintro ⟨call', slot', hbegins', hslot', hlate'⟩
    obtain ⟨rfl, rfl⟩ := Prod.mk.inj (Option.some.inj (hbegins.symm.trans hbegins'))
    obtain rfl := Option.some.inj (hslot.symm.trans hslot')
    rw [hlate] at hlate'
    cases hlate'

/-- The session lives a timely life, if it is guarded. -/
def IsTimely (n : ℕ) (s : StackState G) (k : ℕ) : Prop :=
  ∃ v, Views s k v ∧ (v.slot.session.allowed = false → SessionLife.Timely n v)

variable [Guard G]

/-- **Every session of a stack that is used in time lives a timely life.**

**Proof sketch.** A session begins its life in time (`born_step`). A step of the machine is a step
of the life of each session or leaves it alone (`views_step`), and it is not late. -/
theorem timely_of_reach {stack : GuardStack G} {env : G → G → Prop} {s : StackState G}
    (h : ((system stack env).restrict InTime).Reach s) :
    ∀ k < s.sessions.length, IsTimely stack.guards.length s k := by
  refine Transition.System.Reach.invariant (I := fun s : StackState G =>
    ∀ k < s.sessions.length, IsTimely stack.guards.length s k) ?_ ?_ h
  · rintro _ rfl k hk
    cases hk
  · rintro s a s' hr hs ⟨⟨hnext, -⟩, hintime⟩ k hk
    have hreach := hr.of_restrict
    obtain ⟨hown, hasked⟩ := owned_asked_of_reach hreach
    have hguards := length_guards_of_reach hreach
    have hsteps := steps_of_next hnext
    rcases Nat.lt_or_ge k s.sessions.length with hold | hnew
    · obtain ⟨v, hv, htimely⟩ := hs k hold
      rcases views_step hown (hintime k).1 hv hsteps with ⟨hv', -⟩ | ⟨m, v', hst, hv', hlate⟩
      · exact ⟨v, hv', htimely⟩
      · rw [hguards] at hst
        refine ⟨v', hv', fun hguarded => ?_⟩
        have hbefore := hst.allowed.symm.trans hguarded
        refine (htimely hbefore).step hbefore hst ?_
        simpa [(hintime k).2] using hlate
    · obtain ⟨v, hborn, hv⟩ := born_step hown hasked hsteps hnew (List.getElem?_eq_getElem hk)
      rw [hguards] at hborn
      exact ⟨v, hv, hborn.timely⟩

/-- **The words of a closed session**: if a stack is used in time, each guard has received a
reservation for it, then service with at most one establishment, then one close, and nothing after
it. -/
theorem lifecycle_of_reach {stack : GuardStack G} {env : G → G → Prop} {s : StackState G}
    (h : ((system stack env).restrict InTime).Reach s) {k : ℕ} {slot : SessionSlot}
    (hslot : s.sessions[k]? = some slot) (hguarded : slot.session.allowed = false)
    (hclosed : slot.session.closed = true) (hidle : ∀ call ∈ s.calls, call.borrows k = false) :
    ∀ j < stack.guards.length, Lifecycle (s.word slot.owner j) := by
  obtain ⟨v, hv, htimely⟩ := timely_of_reach h k (List.getElem?_eq_some_iff.mp hslot).1
  obtain rfl := Option.some.inj (hv.slot.symm.trans hslot)
  rw [← hv.word]
  exact (htimely hguarded).lifecycle hclosed (hv.frame.eq_none hidle)

end StackState

end Synclaire
