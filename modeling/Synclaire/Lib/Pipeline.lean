import Mathlib.Data.List.Basic

set_option relaxedAutoImplicit false
set_option autoImplicit false

/-!
# Pipelines

Items go through the stages of a pipeline in order, and each stops at the first stage that does not
let it pass. A list of items with the number of stages each has passed says what every stage saw.

## Main definitions

* `Synclaire.Pipeline.past` — the items that passed the first stages.

## Main results

* `Synclaire.Pipeline.past_sublist_past` — what passed more stages also passed fewer.
* `Synclaire.Pipeline.past_append_singleton` — one more item.
-/

namespace Synclaire.Pipeline

variable {α : Type*}

/-- The items that passed the first `n` stages, in order. -/
def past (n : ℕ) (items : List (α × ℕ)) : List α :=
  (items.filter fun x => n ≤ x.2).map Prod.fst

/-- Every item passed no stages. -/
theorem past_zero (items : List (α × ℕ)) : past 0 items = items.map Prod.fst := by
  simp [past]

/-- What passed more stages also passed fewer. -/
theorem past_sublist_past {m n : ℕ} (h : m ≤ n) (items : List (α × ℕ)) :
    (past n items).Sublist (past m items) := by
  refine List.Sublist.map Prod.fst (List.monotone_filter_right items fun x hx => ?_)
  exact decide_eq_true (Nat.le_trans h (of_decide_eq_true hx))

/-- What passed of two lists, one after the other. -/
theorem past_append (n : ℕ) (items items' : List (α × ℕ)) :
    past n (items ++ items') = past n items ++ past n items' := by
  rw [past, List.filter_append, List.map_append]
  rfl

/-- One more item. -/
theorem past_append_singleton (n : ℕ) (items : List (α × ℕ)) (x : α) (m : ℕ) :
    past n (items ++ [(x, m)]) = past n items ++ if n ≤ m then [x] else [] := by
  rw [past_append]
  split_ifs with hle <;> simp [past, hle]

/-- One more item that has not come so far. -/
theorem past_append_of_lt {n m : ℕ} (h : m < n) (items : List (α × ℕ)) (x : α) :
    past n (items ++ [(x, m)]) = past n items := by
  rw [past_append_singleton, if_neg (Nat.not_le.mpr h), List.append_nil]

end Synclaire.Pipeline
