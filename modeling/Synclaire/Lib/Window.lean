import Mathlib.Algebra.Order.Monoid.Defs
import Mathlib.Data.List.Induction
import Mathlib.Tactic.Common
import Synclaire.Lib.Log

set_option relaxedAutoImplicit false
set_option autoImplicit false

/-!
# Sliding windows

A log of the times at which something was admitted. What is admitted at a time may depend on how
many entries are at most the width of the window old; older entries need not be kept.

## Main definitions

* `Window.recent` — the entries at most the width of the window before a time.

## Main results

* `Window.dropWhile_eq_recent` — in a log that is in order, old entries leave at the front.
* `Window.recent_recent` — what has left the window is never recent again.
* `Window.length_interval_le` — a limit on the recent entries is one on every interval.
-/

namespace Window

variable {T : Type*} [AddCommMonoid T] [LinearOrder T]

/-- The entries that are at most `width` before `now`. -/
def recent (width now : T) (log : List T) : List T := log.filter fun x => now ≤ x + width

/-- The recent entries of two logs, one after the other. -/
theorem recent_append (width now : T) (log log' : List T) :
    recent width now (log ++ log') = recent width now log ++ recent width now log' :=
  List.filter_append log log'

/-- What has left the window is never recent again. -/
theorem recent_recent {width now now' : T} (h : now ≤ now') (log : List T) :
    recent width now' (recent width now log) = recent width now' log := by
  unfold recent
  rw [List.filter_filter]
  refine List.filter_congr fun x _ => ?_
  rw [← Bool.decide_and, decide_eq_decide]
  exact and_iff_left_of_imp h.trans

section Ordered

variable [IsOrderedAddMonoid T]

/-- The old entries of a log that is in order leave at the front. -/
theorem dropWhile_eq_recent {width now : T} {log : List T} (h : log.Pairwise (· ≤ ·)) :
    log.dropWhile (fun x => x + width < now) = recent width now log := by
  have hdue : log.Pairwise fun x y => decide (y + width < now) → decide (x + width < now) := by
    refine h.imp fun {x y} hle hlate => ?_
    rw [decide_eq_true_iff] at hlate ⊢
    exact (add_le_add_left hle width).trans_lt hlate
  rw [Log.dropWhile_eq_filter hdue]
  refine List.filter_congr fun x _ => ?_
  rw [← decide_not, decide_eq_decide, not_lt]

/-- **A limit on the recent entries is one on every interval**: if less than `limit` entries were
recent whenever one was added, no closed interval of the width of the window has more than `limit`.

**Proof sketch.** Induction on the log from its end. If the last entry is in the interval, all
others in it are recent then. -/
theorem length_interval_le {width : T} {limit : ℕ} {log : List T}
    (h : Log.AtEach (fun before x => (recent width x before).length < limit) log) (a : T) :
    (log.filter fun x => a ≤ x ∧ x ≤ a + width).length ≤ limit := by
  induction log using List.reverseRecOn with
  | nil => exact Nat.zero_le _
  | append_singleton log x ih =>
    obtain ⟨hlog, hlast⟩ := Log.atEach_append.mp h
    have hrecent := (Log.atEach_cons.mp hlast).1
    rw [List.append_nil] at hrecent
    rw [List.filter_append]
    by_cases hin : a ≤ x ∧ x ≤ a + width
    · have hsub : (log.filter fun y => a ≤ y ∧ y ≤ a + width).Sublist (recent width x log) := by
        refine List.monotone_filter_right log fun y hy => ?_
        rw [decide_eq_true_iff] at hy ⊢
        exact hin.2.trans (add_le_add_left hy.1 width)
      calc _ = (log.filter fun y => a ≤ y ∧ y ≤ a + width).length + 1 := by
            rw [List.length_append, List.filter_singleton, decide_eq_true hin]
            rfl
        _ ≤ (recent width x log).length + 1 := Nat.succ_le_succ hsub.length_le
        _ ≤ limit := hrecent
    · rw [List.filter_singleton, decide_eq_false hin, cond_false, List.append_nil]
      exact ih hlog

end Ordered

end Window
