import Mathlib.Algebra.BigOperators.Group.List.Basic
import Mathlib.Algebra.GroupWithZero.Nat
import Mathlib.Algebra.Order.BigOperators.Group.List
import Mathlib.Combinatorics.Enumerative.DoubleCounting
import Mathlib.Tactic.Common

set_option relaxedAutoImplicit false
set_option autoImplicit false

/-!
# Tables: lists that only grow and whose rows change in place

Sessions, calls in progress and connections are kept in a list whose rows are appended and
overwritten but never removed, so that an index names its row for ever. A *tally* weighs
every row by a natural number; appending a row adds its weight, and overwriting a row
exchanges the old weight for the new one.

## Main definitions

* `Table.tally` — the total weight of the rows.
* `Table.Grows` — a later state of a table.

## Main results

* `Table.getElem?_append_singleton`, `Table.getElem?_set_eq_some` — the rows after an update.
* `Table.tally_append_singleton`, `Table.tally_set` — how the tally moves.
* `Table.le_tally` — no row outweighs the tally.
* `Table.countP_le_countP` — rows that have partners of their own are no more than these.
* `Table.countP_zip_le_tally`, `Table.tally_add_countP_le` — what a later state weighs, from below
  and from above.
-/

namespace Table

variable {α β : Type*}

/-- The rows after one was appended: the old ones, and the new one at the end. -/
theorem getElem?_append_singleton {l : List α} {x y : α} {i : ℕ} :
    (l ++ [x])[i]? = some y ↔ l[i]? = some y ∨ i = l.length ∧ y = x := by
  rcases Nat.lt_or_ge i l.length with hi | hi
  · rw [List.getElem?_append_left hi]
    exact ⟨.inl, fun h => h.resolve_right fun h' => absurd h'.1 hi.ne⟩
  · rw [List.getElem?_append_right hi, List.getElem?_eq_none hi]
    rcases Nat.eq_or_lt_of_le hi with rfl | hlt
    · simp [eq_comm]
    · rw [List.getElem?_eq_none (by simp; omega)]
      simp only [reduceCtorEq, false_or, false_iff]
      omega

/-- The rows after row `i` was overwritten. -/
theorem getElem?_set_eq_some {l : List α} {i j : ℕ} {x y z : α} (h : l[i]? = some x) :
    (l.set i y)[j]? = some z ↔ j = i ∧ z = y ∨ j ≠ i ∧ l[j]? = some z := by
  have hi : i < l.length := (List.getElem?_eq_some_iff.mp h).1
  by_cases hij : i = j
  · subst hij
    simp [hi, eq_comm]
  · simp [hij, Ne.symm hij]

/-- The row after a reversed prefix. -/
theorem getElem?_reverse_append (pre post : List α) (x : α) :
    (pre.reverse ++ x :: post)[pre.length]? = some x := by
  rw [List.getElem?_append_right (by simp), List.length_reverse, Nat.sub_self]
  rfl

/-- Overwriting the row after a reversed prefix. -/
theorem set_reverse_append (pre post : List α) (x y : α) :
    (pre.reverse ++ x :: post).set pre.length y = pre.reverse ++ y :: post := by
  rw [List.set_append_right _ _ (by simp), List.length_reverse, Nat.sub_self]
  rfl

/-- Overwriting a row in two related tables. -/
theorem forall₂_set {β : Type*} {R : α → β → Prop} {l : List α} {l' : List β}
    (h : List.Forall₂ R l l') (i : ℕ) {x : α} {y : β} (hxy : R x y) :
    List.Forall₂ R (l.set i x) (l'.set i y) := by
  induction h generalizing i with
  | nil => exact .nil
  | cons hab htl ih =>
    cases i with
    | zero => exact .cons hxy htl
    | succ i => exact .cons hab (ih i)

/-- Overwriting a row in the first of two related tables. -/
theorem forall₂_set_left {β : Type*} {R : α → β → Prop} {l : List α} {l' : List β}
    (h : List.Forall₂ R l l') {i : ℕ} {x x' : α} (hx : l[i]? = some x)
    (hR : ∀ y, R x y → R x' y) : List.Forall₂ R (l.set i x') l' := by
  induction h generalizing i with
  | nil => exact .nil
  | cons hab htl ih =>
    cases i with
    | zero =>
      obtain rfl := Option.some.inj hx
      exact .cons (hR _ hab) htl
    | succ i => exact .cons hab (ih hx)

/-- Overwriting a row in the second of two related tables. -/
theorem forall₂_set_right {β : Type*} {R : α → β → Prop} {l : List α} {l' : List β}
    (h : List.Forall₂ R l l') {i : ℕ} {y y' : β} (hy : l'[i]? = some y)
    (hR : ∀ x, l[i]? = some x → R x y → R x y') : List.Forall₂ R l (l'.set i y') := by
  induction h generalizing i with
  | nil => exact .nil
  | cons hab htl ih =>
    cases i with
    | zero =>
      obtain rfl := Option.some.inj hy
      exact .cons (hR _ rfl hab) htl
    | succ i => exact .cons hab (ih hy hR)

/-- The rows at one place in two related tables. -/
theorem forall₂_getElem? {β : Type*} {R : α → β → Prop} {l : List α} {l' : List β}
    (h : List.Forall₂ R l l') (i : ℕ) : Option.Rel R l[i]? l'[i]? := by
  induction h generalizing i with
  | nil => exact .none
  | cons hab _ ih =>
    cases i with
    | zero => exact .some hab
    | succ i => exact ih i

/-- The total weight of the rows of `l` under `f`. -/
def tally (f : α → ℕ) (l : List α) : ℕ := (l.map f).sum

/-- An empty table has no weight. -/
@[simp] theorem tally_nil (f : α → ℕ) : tally f [] = 0 := rfl

/-- The first row adds its weight. -/
@[simp] theorem tally_cons (f : α → ℕ) (x : α) (l : List α) :
    tally f (x :: l) = f x + tally f l := by simp [tally]

/-- A new row adds its weight. -/
@[simp] theorem tally_append_singleton (f : α → ℕ) (l : List α) (x : α) :
    tally f (l ++ [x]) = tally f l + f x := by simp [tally]

/-- Overwriting row `i` exchanges its weight. -/
theorem tally_set (f : α → ℕ) {l : List α} {i : ℕ} {x : α} (h : l[i]? = some x) (y : α) :
    tally f (l.set i y) + f x = tally f l + f y := by
  induction l generalizing i with
  | nil => simp at h
  | cons a l ih =>
    cases i with
    | zero =>
      obtain rfl : a = x := by simpa using h
      simp only [List.set_cons_zero, tally_cons]
      omega
    | succ i =>
      have := ih (i := i) (by simpa using h)
      simp only [List.set_cons_succ, tally_cons]
      omega

/-- A row that keeps its weight leaves the tally alone. -/
theorem tally_set_of_eq (f : α → ℕ) {l : List α} {i : ℕ} {x y : α} (h : l[i]? = some x)
    (hxy : f y = f x) : tally f (l.set i y) = tally f l := by
  have := tally_set f h y
  omega

/-- No row outweighs the tally. -/
theorem le_tally (f : α → ℕ) {l : List α} {i : ℕ} {x : α} (h : l[i]? = some x) :
    f x ≤ tally f l := by
  induction l generalizing i with
  | nil => simp at h
  | cons a l ih =>
    cases i with
    | zero =>
      obtain rfl : a = x := by simpa using h
      simp
    | succ i =>
      have := ih (i := i) (by simpa using h)
      simp only [tally_cons]
      omega

/-- Rows of equal weight make equal tallies. -/
theorem tally_congr {f g : α → ℕ} {l : List α} (h : ∀ x ∈ l, f x = g x) :
    tally f l = tally g l := by
  unfold tally
  rw [List.map_congr_left h]

/-- Weights add up row by row. -/
theorem tally_add (f g : α → ℕ) (l : List α) :
    tally (fun x => f x + g x) l = tally f l + tally g l := by
  induction l with
  | nil => rfl
  | cons a l ih =>
    simp only [tally_cons, ih]
    omega

/-- Heavier rows make a heavier tally. -/
theorem tally_le_tally {f g : α → ℕ} {l : List α} (h : ∀ x ∈ l, f x ≤ g x) :
    tally f l ≤ tally g l := by
  induction l with
  | nil => exact Nat.le_refl 0
  | cons a l ih =>
    obtain ⟨ha, hl⟩ := List.forall_mem_cons.mp h
    simp only [tally_cons]
    exact Nat.add_le_add ha (ih hl)

/-- One row that is heavier by `d` makes the tally heavier by `d`. -/
theorem tally_add_le_tally {f g : α → ℕ} {l : List α} {i d : ℕ} {x : α} (hi : l[i]? = some x)
    (h : ∀ y ∈ l, f y ≤ g y) (hx : f x + d ≤ g x) : tally f l + d ≤ tally g l := by
  induction l generalizing i with
  | nil => simp at hi
  | cons a l ih =>
    obtain ⟨ha, hl⟩ := List.forall_mem_cons.mp h
    cases i with
    | zero =>
      obtain rfl : a = x := by simpa using hi
      have := tally_le_tally hl
      simp only [tally_cons]
      omega
    | succ i =>
      have := ih (i := i) (by simpa using hi) hl
      simp only [tally_cons]
      omega

/-- The tally of two tables, one after the other. -/
theorem tally_append (f : α → ℕ) (l l' : List α) : tally f (l ++ l') = tally f l + tally f l' := by
  simp [tally]

/-- A count is the tally of `0`/`1` weights. -/
theorem countP_eq_tally (p : α → Bool) (l : List α) :
    l.countP p = tally (fun x => (p x).toNat) l := by
  induction l with
  | nil => rfl
  | cons a l ih =>
    rw [tally_cons, ← ih, List.countP_cons]
    cases p a <;> simp [Nat.add_comm]

/-- A proposition weighs one where it holds. -/
theorem toNat_decide (p : Prop) [Decidable p] : (decide p).toNat = if p then 1 else 0 := by
  split_ifs with h <;> simp [h]

/-- A new row adds its share to the count. -/
theorem countP_append_singleton (p : α → Bool) (l : List α) (x : α) :
    (l ++ [x]).countP p = l.countP p + (p x).toNat := by
  simp only [countP_eq_tally, tally_append_singleton]

/-- Overwriting row `i` exchanges its share of the count. -/
theorem countP_set (p : α → Bool) {l : List α} {i : ℕ} {x : α} (h : l[i]? = some x) (y : α) :
    (l.set i y).countP p + (p x).toNat = l.countP p + (p y).toNat := by
  simpa only [countP_eq_tally] using tally_set (fun a => (p a).toNat) h y

/-- A row that keeps its share leaves the count alone. -/
theorem countP_set_of_eq (p : α → Bool) {l : List α} {i : ℕ} {x y : α} (h : l[i]? = some x)
    (hxy : p y = p x) : (l.set i y).countP p = l.countP p := by
  have := countP_set p h y
  rw [hxy] at this
  omega

/-- A count is the number of places where the predicate holds. -/
theorem countP_eq_card (p : α → Bool) (l : List α) :
    l.countP p = ((Finset.range l.length).filter fun i => (l[i]?).any p = true).card := by
  induction l using List.reverseRecOn with
  | nil => rfl
  | append_singleton l x ih =>
    have hold : ((Finset.range l.length).filter fun i => ((l ++ [x])[i]?).any p = true) =
        (Finset.range l.length).filter fun i => (l[i]?).any p = true := by
      refine Finset.filter_congr fun i hi => ?_
      rw [List.getElem?_append_left (Finset.mem_range.mp hi)]
    rw [countP_append_singleton, List.length_append, List.length_singleton, Finset.range_add_one,
      Finset.filter_insert, hold, List.getElem?_append_right le_rfl, Nat.sub_self, ih]
    cases hx : p x with
    | false => simp [hx]
    | true => simp [hx]

/-- **Rows that have partners of their own** in another table are no more than these. -/
theorem countP_le_countP {p : α → Bool} {q : β → Bool} {l : List α} {l' : List β}
    (r : ℕ → ℕ → Prop)
    (hex : ∀ i x, l[i]? = some x → p x = true → ∃ j y, l'[j]? = some y ∧ q y = true ∧ r i j)
    (hown : ∀ i i' x x' j, l[i]? = some x → l[i']? = some x' → r i j → r i' j → i = i') :
    l.countP p ≤ l'.countP q := by
  rw [countP_eq_card, countP_eq_card]
  refine Finset.card_le_card_of_forall_subsingleton r (fun i hi => ?_) fun j _ => ?_
  · obtain ⟨x, hx, hpx⟩ := Option.any_eq_true _ _ |>.mp (Finset.mem_filter.mp hi).2
    obtain ⟨j, y, hy, hqy, hij⟩ := hex i x hx hpx
    have hlt := (List.getElem?_eq_some_iff.mp hy).1
    exact ⟨j, Finset.mem_filter.mpr ⟨Finset.mem_range.mpr hlt, by simp [hy, hqy]⟩, hij⟩
  · rintro i ⟨hi, hij⟩ i' ⟨hi', hij'⟩
    obtain ⟨x, hx, -⟩ := Option.any_eq_true _ _ |>.mp (Finset.mem_filter.mp hi).2
    obtain ⟨x', hx', -⟩ := Option.any_eq_true _ _ |>.mp (Finset.mem_filter.mp hi').2
    exact hown i i' x x' j hx hx' hij hij'

/-! ### Later states of a table -/

/-- Every row of `l` is still in `l'`, as `R` allows it to have changed. -/
def Grows (R : α → α → Prop) (l l' : List α) : Prop :=
  ∀ (i : ℕ) (x : α), l[i]? = some x → ∃ y, l'[i]? = some y ∧ R x y

section Grows

variable {R : α → α → Prop} {l l' l'' : List α}

/-- A table is a later state of itself. -/
theorem Grows.refl (hR : ∀ x, R x x) (l : List α) : Grows R l l := fun _ x hx => ⟨x, hx, hR x⟩

/-- A later state of a later state. -/
theorem Grows.trans (hR : ∀ x y z, R x y → R y z → R x z) (h : Grows R l l')
    (h' : Grows R l' l'') : Grows R l l'' := by
  intro i x hx
  obtain ⟨y, hy, hxy⟩ := h i x hx
  obtain ⟨z, hz, hyz⟩ := h' i y hy
  exact ⟨z, hz, hR x y z hxy hyz⟩

/-- A row is appended. -/
theorem grows_append (hR : ∀ x, R x x) (l : List α) (x : α) : Grows R l (l ++ [x]) :=
  fun _ y hy => ⟨y, getElem?_append_singleton.mpr (.inl hy), hR y⟩

/-- A row changes as `R` allows. -/
theorem grows_set (hR : ∀ x, R x x) {i : ℕ} {x y : α} (hi : l[i]? = some x) (hxy : R x y) :
    Grows R l (l.set i y) := by
  intro k z hz
  by_cases hk : k = i
  · subst hk
    obtain rfl := Option.some.inj (hi.symm.trans hz)
    exact ⟨y, (getElem?_set_eq_some hi).mpr (.inl ⟨rfl, rfl⟩), hxy⟩
  · exact ⟨z, (getElem?_set_eq_some hi).mpr (.inr ⟨hk, hz⟩), hR z⟩

/-- The first row, and the others. -/
theorem Grows.cons {x : α} (h : Grows R (x :: l) l') :
    ∃ y rest, l' = y :: rest ∧ R x y ∧ Grows R l rest := by
  obtain ⟨y, hy, hxy⟩ := h 0 x rfl
  cases l' with
  | nil => cases hy
  | cons z rest =>
    obtain rfl : z = y := Option.some.inj hy
    exact ⟨z, rest, rfl, hxy, fun i x hx => h (i + 1) x hx⟩

/-- **From below**: rows that outlast the change weigh one each. -/
theorem countP_zip_le_tally {p : α → α → Bool} {f : α → ℕ} (h : Grows R l l')
    (hrow : ∀ x y, R x y → y ∈ l' → p x y = true → 1 ≤ f y) :
    ((l.zip l').countP fun xy => p xy.1 xy.2) ≤ tally f l' := by
  induction l generalizing l' with
  | nil => exact Nat.zero_le _
  | cons x l ih =>
    obtain ⟨y, rest, rfl, hxy, hrest⟩ := h.cons
    have htail := ih hrest fun x' y' hR hmem => hrow x' y' hR (.tail _ hmem)
    have hhead := hrow x y hxy (.head _)
    rw [List.zip_cons_cons, List.countP_cons, tally_cons]
    split_ifs with hp
    · have := hhead hp
      omega
    · omega

/-- **From above**: the rows weigh no more than one each, and those that were over before
nothing. -/
theorem tally_add_countP_le {p q : α → Bool} {f : α → ℕ} (h : Grows R l l')
    (hold : ∀ x y, R x y → y ∈ l' → f y + (q x).toNat ≤ (p y).toNat)
    (hnew : ∀ y ∈ l', f y ≤ (p y).toNat) : tally f l' + l.countP q ≤ l'.countP p := by
  induction l generalizing l' with
  | nil =>
    rw [List.countP_nil, Nat.add_zero, countP_eq_tally]
    exact tally_le_tally hnew
  | cons x l ih =>
    obtain ⟨y, rest, rfl, hxy, hrest⟩ := h.cons
    have htail := ih hrest (fun x' y' hR hmem => hold x' y' hR (.tail _ hmem))
      fun y' hmem => hnew y' (.tail _ hmem)
    have hhead := hold x y hxy (.head _)
    simp only [countP_eq_tally, tally_cons] at htail ⊢
    omega

/-- Rows of one sort that stay of that sort are no fewer later. -/
theorem Grows.countP_le {p : α → Bool} (h : Grows R l l')
    (hrow : ∀ x y, R x y → p x = true → p y = true) : l.countP p ≤ l'.countP p := by
  have hold : ∀ x y, R x y → y ∈ l' → 0 + (p x).toNat ≤ (p y).toNat := by
    intro x y hxy _
    cases hx : p x with
    | false => exact Nat.zero_le _
    | true => exact (Nat.zero_add _).trans_le (by rw [hrow x y hxy hx])
  have hall := tally_add_countP_le (f := fun _ => 0) h hold fun _ _ => Nat.zero_le _
  omega

/-- Rows that outlast a longer change are no more than those that outlast a part of it. -/
theorem countP_zip_le_countP_zip {p : α → α → Bool} (h : Grows R l l') (h' : Grows R l' l'')
    (hrow : ∀ x y z, R y z → p x z = true → p x y = true) :
    ((l.zip l'').countP fun xy => p xy.1 xy.2) ≤ (l.zip l').countP fun xy => p xy.1 xy.2 := by
  induction l generalizing l' l'' with
  | nil => exact Nat.zero_le _
  | cons x l ih =>
    obtain ⟨y, rest, rfl, -, hrest⟩ := h.cons
    obtain ⟨z, rest', rfl, hyz, hrest'⟩ := h'.cons
    have htail := ih hrest hrest'
    have hhead := hrow x y z hyz
    simp only [List.zip_cons_cons, List.countP_cons]
    split_ifs with hz hy
    · omega
    · exact absurd (hhead hz) hy
    · omega
    · omega

/-- The weight of a table as a sum over what is weighed. -/
theorem tally_sum {ι : Type*} (S : Finset ι) (f : ι → α → ℕ) (l : List α) :
    tally (fun x => ∑ k ∈ S, f k x) l = ∑ k ∈ S, tally (f k) l := by
  induction l with
  | nil => exact (Finset.sum_const_zero).symm
  | cons x l ih =>
    simp only [tally_cons]
    rw [ih, Finset.sum_add_distrib]

end Grows

end Table
