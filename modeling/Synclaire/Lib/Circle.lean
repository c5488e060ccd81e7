import Mathlib.Data.List.Sort
import Mathlib.Order.Basic
import Mathlib.Tactic.Common

set_option relaxedAutoImplicit false
set_option autoImplicit false

/-!
# Successors on a circle of points

A key is served by the first point at or above it, and by the least point of all when there
is none above: the points lie on a circle. The served point depends on the set of points
only, and taking points away does not change it as long as it stays.

## Main definitions

* `Circle.IsSucc` — the point of a set that serves a key.
* `Circle.Serves` — the label of that point, when the points carry labels.
* `Circle.partitionPoint` — the number of leading elements that satisfy a predicate.

## Main results

* `Circle.IsSucc.unique` — at most one point serves a key.
* `Circle.IsSucc.subset` — the serving point of a set serves in every subset it belongs to.
* `Circle.Serves.unique`, `Circle.Serves.subset` — the same for labels.
* `Circle.isSucc_getElem_partitionPoint` — the search in a sorted list finds it.
-/

namespace Circle

section Order

variable {K : Type*} [LinearOrder K] {S T : Set K} {k x y : K}

/-- `x` serves `k` in `S`: it is the least point of `S` at or above `k`, or the least point of
all if every point is below `k`. -/
def IsSucc (S : Set K) (k x : K) : Prop :=
  x ∈ S ∧ ((k ≤ x ∧ ∀ y ∈ S, k ≤ y → x ≤ y) ∨ (∀ y ∈ S, y < k) ∧ ∀ y ∈ S, x ≤ y)

/-- At most one point serves a key. -/
theorem IsSucc.unique (hx : IsSucc S k x) (hy : IsSucc S k y) : x = y := by
  obtain ⟨hxS, ⟨hkx, hminx⟩ | ⟨hbelow, hminx⟩⟩ := hx
  · obtain ⟨hyS, ⟨hky, hminy⟩ | ⟨hbelow, -⟩⟩ := hy
    · exact le_antisymm (hminx y hyS hky) (hminy x hxS hkx)
    · exact absurd hkx (not_le_of_gt (hbelow x hxS))
  · obtain ⟨hyS, ⟨hky, -⟩ | ⟨-, hminy⟩⟩ := hy
    · exact absurd hky (not_le_of_gt (hbelow y hyS))
    · exact le_antisymm (hminx y hyS) (hminy x hxS)

/-- A point that serves a key serves it in every subset it belongs to. -/
theorem IsSucc.subset (hx : IsSucc T k x) (hST : S ⊆ T) (hxS : x ∈ S) : IsSucc S k x := by
  obtain ⟨-, ⟨hkx, hmin⟩ | ⟨hbelow, hmin⟩⟩ := hx
  · exact ⟨hxS, .inl ⟨hkx, fun y hy => hmin y (hST hy)⟩⟩
  · exact ⟨hxS, .inr ⟨fun y hy => hbelow y (hST hy), fun y hy => hmin y (hST hy)⟩⟩

end Order

section Labels

variable {K A : Type*} {P Q : Set (K × A)}

/-- No point carries two labels. -/
def NoTie (P : Set (K × A)) : Prop :=
  ∀ x a b, (x, a) ∈ P → (x, b) ∈ P → a = b

/-- Taking points away makes no tie. -/
theorem NoTie.mono (h : NoTie Q) (hPQ : P ⊆ Q) : NoTie P := by
  intro x a b ha hb
  exact h x a b (hPQ ha) (hPQ hb)

variable [LinearOrder K] {k : K} {a b : A}

/-- `a` labels the point of `P` that serves `k`. -/
def Serves (P : Set (K × A)) (k : K) (a : A) : Prop :=
  ∃ x, IsSucc (Prod.fst '' P) k x ∧ (x, a) ∈ P

/-- Without ties the label that serves a key is unique. -/
theorem Serves.unique (hP : NoTie P) (ha : Serves P k a) (hb : Serves P k b) : a = b := by
  obtain ⟨x, hx, hxa⟩ := ha
  obtain ⟨y, hy, hyb⟩ := hb
  obtain rfl : x = y := hx.unique hy
  exact hP x a b hxa hyb

/-- **A label keeps its keys**: taking other labelled points away leaves a serving label in
place. -/
theorem Serves.subset (h : Serves Q k a) (hPQ : P ⊆ Q) (hkeep : ∀ x, (x, a) ∈ Q → (x, a) ∈ P) :
    Serves P k a := by
  obtain ⟨x, hx, hxa⟩ := h
  exact ⟨x, hx.subset (Set.image_mono hPQ) ⟨_, hkeep x hxa, rfl⟩, hkeep x hxa⟩

/-- A label served from a union that does not come from the second part is already served
from the first. -/
theorem Serves.of_union (h : Serves (P ∪ Q) k a) : Serves P k a ∨ ∃ x, (x, a) ∈ Q := by
  obtain ⟨x, hx, hxa⟩ := h
  rcases hxa with hxa | hxa
  · exact .inl ⟨x, hx.subset (Set.image_mono Set.subset_union_left) ⟨_, hxa, rfl⟩, hxa⟩
  · exact .inr ⟨x, hxa⟩

end Labels

section Search

variable {α K : Type*} [LinearOrder K] {key : α → K} {l : List α} {k : K}

/-- The index of the first element that does not satisfy `p`, in a list whose elements
satisfying `p` come first. -/
def partitionPoint (p : α → Bool) (l : List α) : ℕ := (l.takeWhile p).length

/-- The partition point cuts the list into elements that satisfy `p` and a rest that is empty
or starts with one that does not. -/
theorem exists_split (p : α → Bool) (l : List α) :
    ∃ pre post, l = pre ++ post ∧ pre.length = partitionPoint p l ∧
      (∀ a ∈ pre, p a = true) ∧ ∀ z ∈ post.head?, p z = false := by
  refine ⟨l.takeWhile p, l.dropWhile p, List.takeWhile_append_dropWhile.symm, rfl, ?_, ?_⟩
  · exact fun a ha => List.all_eq_true.mp List.all_takeWhile a ha
  · intro z hz
    have := List.head?_dropWhile_not p l
    rw [Option.mem_def.mp hz] at this
    exact this

/-- In a list sorted by `key`, the element at the partition point of the keys below `k`,
counted modulo the length, serves `k`.

**Proof sketch.** The elements before the partition point are below `k`. If the partition
point lies in the list, its element is not below `k`, and every later one is at least as
large. Otherwise all elements are below `k`, and index `0` has the least key. -/
theorem isSucc_getElem_partitionPoint (hsorted : l.Pairwise fun a b => key a ≤ key b)
    {x : α} (hx : l[partitionPoint (fun a => key a < k) l % l.length]? = some x) :
    IsSucc { h | ∃ a ∈ l, key a = h } k (key x) := by
  refine ⟨⟨x, List.mem_of_getElem? hx, rfl⟩, ?_⟩
  obtain ⟨pre, post, hl, hlen, hpre, hpost⟩ := exists_split (fun a => decide (key a < k)) l
  rw [← hlen] at hx
  subst hl
  cases post with
  | nil =>
    -- every key is below `k`, and the search wraps around to the first element
    rw [List.append_nil] at hx hsorted ⊢
    refine .inr ⟨?_, ?_⟩
    · rintro _ ⟨a, ha, rfl⟩
      simpa using hpre a ha
    · rintro _ ⟨a, ha, rfl⟩
      rw [Nat.mod_self] at hx
      cases pre with
      | nil => simp at ha
      | cons z rest =>
        obtain rfl : z = x := by simpa using hx
        rcases List.mem_cons.mp ha with rfl | ha
        · exact le_rfl
        · exact List.rel_of_pairwise_cons hsorted ha
  | cons z rest =>
    have hz : ¬key z < k := by simpa using hpost z rfl
    obtain rfl : z = x := by
      rw [Nat.mod_eq_of_lt (by simp), List.getElem?_append_right le_rfl] at hx
      simpa using hx
    refine .inl ⟨le_of_not_gt hz, ?_⟩
    rintro _ ⟨a, ha, rfl⟩ hka
    rcases List.mem_append.mp ha with ha | ha
    · exact absurd hka (not_le_of_gt (by simpa using hpre a ha))
    · rcases List.mem_cons.mp ha with rfl | ha
      · exact le_rfl
      · exact List.rel_of_pairwise_cons (List.pairwise_append.mp hsorted).2.1 ha

end Search

end Circle
