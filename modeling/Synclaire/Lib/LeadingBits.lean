import Mathlib.Order.Basic

set_option relaxedAutoImplicit false
set_option autoImplicit false

/-!
# The leading bits of words

Two words agree on their first bits, counted from the most significant one, exactly when a mask of
these bits makes them equal. This is how prefixes of addresses are compared.

## Main definitions

* `LeadingBits.Agree` — two words have the same first bits.
* `LeadingBits.mask` — the word whose first bits are set.

## Main results

* `LeadingBits.and_mask_eq_iff` — masked words are equal where the words agree.
* `LeadingBits.Agree.trans_of_le` — a prefix of a prefix.
-/

namespace LeadingBits

variable {w : ℕ} {x y z : BitVec w} {m n : ℕ}

/-- The first `n` bits are the same. -/
def Agree (n : ℕ) (x y : BitVec w) : Prop := ∀ i < n, x.getMsbD i = y.getMsbD i

instance : Decidable (Agree n x y) :=
  inferInstanceAs (Decidable (∀ i < n, x.getMsbD i = y.getMsbD i))

/-- The word whose first `n` bits are set, for `n ≤ w`. -/
def mask (w n : ℕ) : BitVec w := BitVec.allOnes w <<< (w - n)

/-- The bits of the mask. -/
theorem getMsbD_mask (h : n ≤ w) (i : ℕ) : (mask w n).getMsbD i = decide (i < n) := by
  rw [mask, BitVec.getMsbD_shiftLeft, BitVec.getMsbD_allOnes]
  exact decide_eq_decide.mpr (by omega)

/-- Where fewer bits are compared, words still agree. -/
theorem Agree.mono (h : Agree n x y) (hmn : m ≤ n) : Agree m x y := fun i hi =>
  h i (Nat.lt_of_lt_of_le hi hmn)

/-- Agreement is transitive. -/
theorem Agree.trans (h : Agree n x y) (h' : Agree n y z) : Agree n x z := fun i hi =>
  (h i hi).trans (h' i hi)

/-- **A prefix of a prefix**: what agrees on more bits with a word agrees with what that word agrees
with on fewer. -/
theorem Agree.trans_of_le (h : Agree m x y) (h' : Agree n y z) (hmn : m ≤ n) : Agree m x z :=
  h.trans (h'.mono hmn)

/-- **Masked words are equal where the words agree.** -/
theorem and_mask_eq_iff (h : n ≤ w) : x &&& mask w n = y &&& mask w n ↔ Agree n x y := by
  constructor
  · intro heq i hi
    have hbit := congrArg (BitVec.getMsbD · i) heq
    simpa [getMsbD_mask h, hi] using hbit
  · intro hagree
    refine BitVec.eq_of_getMsbD_eq fun i _ => ?_
    rw [BitVec.getMsbD_and, BitVec.getMsbD_and, getMsbD_mask h]
    by_cases hi : i < n
    · rw [hagree i hi]
    · simp [hi]

end LeadingBits
