import Mathlib.Algebra.Order.Field.Basic
import Mathlib.Tactic.Common
import Mathlib.Tactic.Linarith
import Mathlib.Tactic.Ring

set_option relaxedAutoImplicit false
set_option autoImplicit false

/-!
# Token buckets

A bucket holds at most `cap` tokens and gains `rate` tokens in each unit of time. Whoever asks it
may be granted something only for a token. However often it is asked, in any interval of time it
grants no more than its capacity and what it gains in the interval.

## Main definitions

* `Bucket.grants` — how much is granted in an interval.
* `Bucket.refill` — the level after some time.
* `Bucket.Fill` — a level and the time since which it holds.
* `Bucket.Spends` — a sequence of events in which grants are paid for.

## Main results

* `Bucket.refill_refill` — the level does not depend on when it was looked at.
* `Bucket.Spends.grants_le` — the bound for any interval.
-/

namespace Bucket

/-! ## Counting grants -/

section Grants

variable {K E : Type*} [LinearOrder K] {time : E → K} {granted : E → Prop}
  [DecidablePred granted] {s t : K} {e : E} {events : List E}

/-- The number of events from `s` to `t` that are granted something. -/
def grants (time : E → K) (granted : E → Prop) [DecidablePred granted] (s t : K)
    (events : List E) : ℕ :=
  events.countP fun e => s ≤ time e ∧ time e ≤ t ∧ granted e

/-- An event outside the interval, or one that is granted nothing, does not count. -/
theorem grants_cons_of_not (h : ¬(s ≤ time e ∧ time e ≤ t ∧ granted e)) :
    grants time granted s t (e :: events) = grants time granted s t events :=
  List.countP_cons_of_neg (by simpa using h)

/-- An event counts at most once. -/
theorem grants_cons_le :
    grants time granted s t (e :: events) ≤ grants time granted s t events + 1 := by
  unfold grants
  rw [List.countP_cons]
  split_ifs <;> omega

/-- Nothing counts when all is later. -/
theorem grants_of_lt (h : ∀ e ∈ events, t < time e) : grants time granted s t events = 0 := by
  apply List.countP_eq_zero.mpr
  intro e he
  have := not_le_of_gt (h e he)
  simp [this]

end Grants

variable {K : Type*} [Field K] [LinearOrder K] {cap rate level elapsed elapsed' : K}

/-! ## Levels -/

/-- The level after a time in which nothing was taken. -/
def refill (cap rate level elapsed : K) : K := min (level + elapsed * rate) cap

/-- A level is not above the capacity. -/
theorem refill_le_cap : refill cap rate level elapsed ≤ cap := min_le_right _ _

/-- A level is not above what time alone would make of it. -/
theorem refill_le_add : refill cap rate level elapsed ≤ level + elapsed * rate := min_le_left _ _

variable [IsStrictOrderedRing K]

/-- A level is not negative. -/
theorem refill_nonneg (hcap : 0 ≤ cap) (hrate : 0 ≤ rate) (hlevel : 0 ≤ level)
    (helapsed : 0 ≤ elapsed) : 0 ≤ refill cap rate level elapsed := by
  have := mul_nonneg helapsed hrate
  exact le_min (by linarith) hcap

/-- The level does not depend on when it was looked at in between. -/
theorem refill_refill (hrate : 0 ≤ rate) (helapsed' : 0 ≤ elapsed') :
    refill cap rate (refill cap rate level elapsed) elapsed' =
      refill cap rate level (elapsed + elapsed') := by
  have hgain := mul_nonneg helapsed' hrate
  unfold refill
  rcases le_total (level + elapsed * rate) cap with h | h
  · rw [min_eq_left h, add_mul, add_assoc]
  · rw [min_eq_right h, min_eq_right (by linarith), min_eq_right (by linarith)]

/-! ## Spending tokens -/

/-- A level, and the time since which nothing was taken. -/
structure Fill (K : Type*) where
  level : K
  since : K

/-- The level of a bucket at a time; a bucket that does not exist yet will be full. -/
def Fill.levelAt (cap rate : K) (time : K) : Option (Fill K) → K
  | some fill => refill cap rate fill.level (time - fill.since)
  | none => cap

omit [IsStrictOrderedRing K] in
/-- A level is not above the capacity. -/
theorem Fill.levelAt_le_cap (time : K) (fill : Option (Fill K)) :
    Fill.levelAt cap rate time fill ≤ cap := by
  cases fill with
  | none => exact le_rfl
  | some fill => exact refill_le_cap

/-- A level is not negative. -/
theorem Fill.levelAt_nonneg {time : K} {fill : Option (Fill K)} (hcap : 0 ≤ cap) (hrate : 0 ≤ rate)
    (h : ∀ f ∈ fill, 0 ≤ f.level ∧ f.since ≤ time) : 0 ≤ Fill.levelAt cap rate time fill := by
  cases fill with
  | none => exact hcap
  | some fill =>
    obtain ⟨hlevel, hsince⟩ := h fill rfl
    exact refill_nonneg hcap hrate hlevel (sub_nonneg.mpr hsince)

/-- The level does not depend on when the bucket was looked at before. -/
theorem Fill.levelAt_look {time time' : K} (hrate : 0 ≤ rate) (h : time ≤ time')
    (fill : Option (Fill K)) :
    Fill.levelAt cap rate time' (some ⟨Fill.levelAt cap rate time fill, time⟩) =
      Fill.levelAt cap rate time' fill := by
  have hgain := mul_nonneg (sub_nonneg.mpr h) hrate
  cases fill with
  | none => exact min_eq_right (by simp only [Fill.levelAt]; linarith)
  | some fill =>
    simp only [Fill.levelAt]
    rw [refill_refill hrate (sub_nonneg.mpr h)]
    congr 1
    ring

/-- A sequence of events that a bucket with the given fill goes through. It is left alone by some
events, which are granted nothing. The others look at its level. They are granted something only
if they take a token, and take one only from a level of at least one. -/
inductive Spends {E : Type*} (cap rate : K) (time : E → K) (granted : E → Prop) :
    Option (Fill K) → List E → Prop
  | nil (fill : Option (Fill K)) : Spends cap rate time granted fill []
  | skip {fill : Option (Fill K)} {e : E} {events : List E} (hgranted : ¬granted e)
      (htail : Spends cap rate time granted fill events) :
      Spends cap rate time granted fill (e :: events)
  | look {fill : Option (Fill K)} {e : E} {events : List E} (hgranted : ¬granted e)
      (htail : Spends cap rate time granted (some ⟨Fill.levelAt cap rate (time e) fill, time e⟩)
        events) :
      Spends cap rate time granted fill (e :: events)
  | take {fill : Option (Fill K)} {e : E} {events : List E}
      (hlevel : 1 ≤ Fill.levelAt cap rate (time e) fill)
      (htail : Spends cap rate time granted (some ⟨Fill.levelAt cap rate (time e) fill - 1, time e⟩)
        events) :
      Spends cap rate time granted fill (e :: events)

namespace Spends

variable {E : Type*} {time : E → K} {granted : E → Prop} [DecidablePred granted] {s t : K}
  {events : List E}

/-- What is granted up to `t` is at most the level and what the bucket gains until `t`.

**Proof sketch.** Induction on the events. A token that is taken pays for its event, and the rest
of the level and the gain pay for the later ones. -/
theorem grants_le_level {fill : Fill K} (hcap : 0 ≤ cap) (hrate : 0 ≤ rate)
    (h : Spends cap rate time granted (some fill) events) (hlevel : 0 ≤ fill.level)
    (hsince : ∀ e ∈ events, fill.since ≤ time e)
    (hsorted : events.Pairwise (time · ≤ time ·)) (ht : fill.since ≤ t) :
    (grants time granted s t events : K) ≤ fill.level + rate * (t - fill.since) := by
  induction events generalizing fill with
  | nil =>
    have := mul_nonneg hrate (sub_nonneg.mpr ht)
    simp only [grants, List.countP_nil, Nat.cast_zero]
    linarith
  | cons e events ih =>
    obtain ⟨hle, hrest⟩ := List.forall_mem_cons.mp hsince
    obtain ⟨hfirst, hsorted⟩ := List.pairwise_cons.mp hsorted
    have hgain := mul_nonneg hrate (sub_nonneg.mpr ht)
    by_cases hte : t < time e
    · -- nothing counts any more
      rw [grants_of_lt (List.forall_mem_cons.mpr ⟨hte, fun e' he' => hte.trans_le (hfirst e' he')⟩)]
      simp only [Nat.cast_zero]
      linarith
    have hte := le_of_not_gt hte
    have hnonneg := refill_nonneg hcap hrate hlevel (sub_nonneg.mpr hle)
    have hadd : refill cap rate fill.level (time e - fill.since) ≤
        fill.level + (time e - fill.since) * rate := refill_le_add
    cases h with
    | skip hgranted htail =>
      rw [grants_cons_of_not fun h => hgranted h.2.2]
      exact ih htail hlevel hrest hsorted ht
    | look hgranted htail =>
      rw [grants_cons_of_not fun h => hgranted h.2.2]
      have := ih htail hnonneg hfirst hsorted hte
      simp only [Fill.levelAt] at this
      linarith
    | take htoken htail =>
      have := ih htail (sub_nonneg.mpr htoken) hfirst hsorted hte
      have hone : (grants time granted s t (e :: events) : K) ≤
          grants time granted s t events + 1 := mod_cast grants_cons_le
      simp only [Fill.levelAt] at this
      linarith

/-- **What is granted from `s` to `t`** is at most the capacity and what the bucket gains from `s`
to `t`.

**Proof sketch.** Induction on the events up to the first one in the interval. The level there is
at most the capacity, and pays for what follows. -/
theorem grants_le {fill : Option (Fill K)} (hcap : 0 ≤ cap) (hrate : 0 ≤ rate)
    (h : Spends cap rate time granted fill events)
    (hfill : ∀ f ∈ fill, 0 ≤ f.level ∧ ∀ e ∈ events, f.since ≤ time e)
    (hsorted : events.Pairwise (time · ≤ time ·)) (hst : s ≤ t) :
    (grants time granted s t events : K) ≤ cap + rate * (t - s) := by
  have hgain := mul_nonneg hrate (sub_nonneg.mpr hst)
  induction events generalizing fill with
  | nil =>
    simp only [grants, List.countP_nil, Nat.cast_zero]
    linarith
  | cons e events ih =>
    obtain ⟨hfirst, hsorted⟩ := List.pairwise_cons.mp hsorted
    by_cases hte : t < time e
    · rw [grants_of_lt (List.forall_mem_cons.mpr ⟨hte, fun e' he' => hte.trans_le (hfirst e' he')⟩)]
      simp only [Nat.cast_zero]
      linarith
    have hte := le_of_not_gt hte
    have hnonneg : 0 ≤ Fill.levelAt cap rate (time e) fill :=
      Fill.levelAt_nonneg hcap hrate fun f hf =>
        ⟨(hfill f hf).1, (hfill f hf).2 e List.mem_cons_self⟩
    have hle : Fill.levelAt cap rate (time e) fill ≤ cap := Fill.levelAt_le_cap (time e) fill
    cases h with
    | skip hgranted htail =>
      rw [grants_cons_of_not fun h => hgranted h.2.2]
      exact ih htail (fun f hf => ⟨(hfill f hf).1,
        fun e' he' => (hfill f hf).2 e' (List.mem_cons_of_mem e he')⟩) hsorted
    | look hgranted htail =>
      rw [grants_cons_of_not fun h => hgranted h.2.2]
      by_cases hs : s ≤ time e
      · have hrest := htail.grants_le_level (s := s) hcap hrate hnonneg hfirst hsorted hte
        have := mul_le_mul_of_nonneg_left (sub_le_sub_left hs t) hrate
        simp only at hrest
        linarith
      · exact ih htail (by simpa using ⟨hnonneg, hfirst⟩) hsorted
    | take htoken htail =>
      have hnonneg := sub_nonneg.mpr htoken
      by_cases hs : s ≤ time e
      · have hrest := htail.grants_le_level (s := s) hcap hrate hnonneg hfirst hsorted hte
        have := mul_le_mul_of_nonneg_left (sub_le_sub_left hs t) hrate
        have hone : (grants time granted s t (e :: events) : K) ≤
            grants time granted s t events + 1 := mod_cast grants_cons_le
        simp only at hrest
        linarith
      · rw [grants_cons_of_not fun h => hs h.1]
        exact ih htail (by simpa using ⟨htoken, hfirst⟩) hsorted

end Spends

end Bucket
