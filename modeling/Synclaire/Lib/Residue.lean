import Mathlib.Data.Int.CardIntervalMod

set_option relaxedAutoImplicit false
set_option autoImplicit false

/-!
# Dealing numbers by their residue

A counter that deals turns to `n` places gives the turn with number `k` to place `k % n`. Over any
stretch of numbers the places are served equally often up to one.

## Main results

* `Residue.count_add_le` — over any stretch two residues occur equally often up to one.
* `Residue.count_add_mul` — over whole rounds each occurs once a round.
-/

namespace Residue

variable {n i j : ℕ}

/-- How many numbers below `c` have a residue. -/
theorem count_eq (hi : i < n) (c : ℕ) :
    Nat.count (fun k => k % n = i) c = c / n + if i < c % n then 1 else 0 := by
  have h := Nat.count_modEq_card c (Nat.zero_lt_of_lt hi) i
  rw [Nat.mod_eq_of_lt hi] at h
  rw [← h]
  simp only [Nat.ModEq, Nat.mod_eq_of_lt hi]

/-- **Over any stretch of numbers, two residues occur equally often up to one.** -/
theorem count_add_le (hi : i < n) (hj : j < n) (a b : ℕ) :
    Nat.count (fun k => k % n = i) b + Nat.count (fun k => k % n = j) a ≤
      Nat.count (fun k => k % n = j) b + Nat.count (fun k => k % n = i) a + 1 := by
  rw [count_eq hi, count_eq hj, count_eq hi, count_eq hj]
  split_ifs <;> omega

/-- **Over whole rounds each residue occurs once a round.** -/
theorem count_add_mul (hi : i < n) (c rounds : ℕ) :
    Nat.count (fun k => k % n = i) (c + n * rounds) =
      Nat.count (fun k => k % n = i) c + rounds := by
  rw [count_eq hi, count_eq hi, Nat.add_mul_mod_self_left,
    Nat.add_mul_div_left _ _ (Nat.zero_lt_of_lt hi)]
  omega

end Residue
