import Mathlib.Data.List.Basic
import Mathlib.Tactic.Common

set_option relaxedAutoImplicit false
set_option autoImplicit false

/-!
# Queues with repeated entries

A queue that is cleaned up lazily may hold an entry several times. What counts for who leaves
first is the first entry of each.

## Main definitions

* `Queue.Ahead` — the first entry of one element is in front of the first entry of another.

## Main results

* `Queue.ahead_append_of_notMem`, `Queue.ahead_append_of_mem` — the queue loses entries at its
  front, and gains some at its end.
* `Queue.not_ahead_of_first` — nobody who is not in front of an entry is ahead of it.
-/

namespace Queue

variable {α : Type*} [DecidableEq α] {l l' : List α} {x y z : α}

/-- The first entry of `y` is in front of the first entry of `z`, if there is one. -/
def Ahead (l : List α) (y z : α) : Prop := l.idxOf y < l.idxOf z

instance (l : List α) (y z : α) : Decidable (Ahead l y z) :=
  inferInstanceAs (Decidable (l.idxOf y < l.idxOf z))

/-- The entry at the front is ahead of all others. -/
theorem ahead_cons_self (h : x ≠ z) : Ahead (x :: l) x z := by
  unfold Ahead
  rw [List.idxOf_cons_self, List.idxOf_cons_ne l h]
  exact Nat.succ_pos _

/-- Nobody is ahead of the entry at the front. -/
theorem not_ahead_cons_self : ¬Ahead (x :: l) y x := by
  unfold Ahead
  rw [List.idxOf_cons_self]
  exact Nat.not_lt_zero _

/-- An entry of a third one at the front does not matter. -/
theorem ahead_cons_of_ne (hy : x ≠ y) (hz : x ≠ z) : Ahead (x :: l) y z ↔ Ahead l y z := by
  unfold Ahead
  rw [List.idxOf_cons_ne l hy, List.idxOf_cons_ne l hz]
  exact Nat.succ_lt_succ_iff

/-- Entries of others at the front do not matter. -/
theorem ahead_append_of_notMem (hy : y ∉ l) (hz : z ∉ l) :
    Ahead (l ++ l') y z ↔ Ahead l' y z := by
  induction l with
  | nil => rfl
  | cons a l ih =>
    obtain ⟨hya, hy⟩ := not_or.mp (mt List.mem_cons.mpr hy)
    obtain ⟨hza, hz⟩ := not_or.mp (mt List.mem_cons.mpr hz)
    rw [List.cons_append, ahead_cons_of_ne (Ne.symm hya) (Ne.symm hza), ih hy hz]

/-- Later entries do not matter for those who are there already. -/
theorem ahead_append_of_mem (hy : y ∈ l) (hz : z ∈ l) : Ahead (l ++ l') y z ↔ Ahead l y z := by
  unfold Ahead
  rw [List.idxOf_append_of_mem hy, List.idxOf_append_of_mem hz]

/-- A new entry of `z` is behind the others, but an older one may not be. -/
theorem ahead_concat_self (hy : y ∈ l) : Ahead (l ++ [z]) y z ↔ Ahead l y z := by
  have hz : (l ++ [z]).idxOf z = l.idxOf z := by
    by_cases hmem : z ∈ l
    · exact List.idxOf_append_of_mem hmem
    · rw [List.idxOf_append_of_notMem hmem, List.idxOf_cons_self, List.idxOf_of_notMem hmem]
      rfl
  unfold Ahead
  rw [List.idxOf_append_of_mem hy, hz]

/-- Nobody who is not in front of an entry is ahead of it. -/
theorem not_ahead_of_first (hy : y ∉ l) : ¬Ahead (l ++ x :: l') y x := by
  by_cases hx : x ∈ l
  · unfold Ahead
    rw [List.idxOf_append_of_mem hx, List.idxOf_append_of_notMem hy]
    have := List.idxOf_lt_length_iff.mpr hx
    omega
  · rw [ahead_append_of_notMem hy hx]
    exact not_ahead_cons_self

end Queue
