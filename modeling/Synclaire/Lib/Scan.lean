import Mathlib.Data.List.Infix
import Mathlib.Data.Nat.Find
import Mathlib.Tactic.Common

set_option relaxedAutoImplicit false
set_option autoImplicit false

/-!
# Scanning: the first occurrence of a pattern, and lines

A reader that waits for a terminator searches its buffer after each read. It need not search
the whole buffer again: an occurrence that is not inside the old part begins less than a
pattern's length before the new one (`position_drop`).

## Main definitions

* `Scan.windows` — the stretches of a fixed length.
* `Scan.position` — the place of the first window that is the pattern.
* `Scan.IsFirst` — the pattern occurs at a place and at none before it.
* `Scan.lines` — the lines of a text, without their ends.

## Main results

* `Scan.position_eq_some_iff`, `Scan.position_eq_none_iff` — what the search finds.
* `Scan.position_drop` — the search from near the end of the old part.
* `Scan.IsFirst.append` — later bytes do not move the first occurrence.
-/

namespace Scan

variable {α : Type*}

/-! ## Windows and occurrences -/

/-- The stretches of `n` consecutive elements, from left to right. -/
def windows (n : ℕ) : List α → List (List α)
  | [] => []
  | x :: l => if n ≤ l.length + 1 then (x :: l).take n :: windows n l else []

/-- The pattern occurs at place `i`. -/
def OccursAt (p l : List α) (i : ℕ) : Prop := p <+: l.drop i

/-- The pattern occurs at place `i` and at none before it. -/
def IsFirst (p l : List α) (i : ℕ) : Prop :=
  OccursAt p l i ∧ ∀ j < i, ¬OccursAt p l j

/-- A text shorter than a window has none. -/
theorem windows_of_lt {n : ℕ} {l : List α} (h : l.length < n) : windows n l = [] := by
  cases l with
  | nil => rfl
  | cons x l => exact if_neg (Nat.not_le.mpr h)

/-- An occurrence ends inside the text. -/
theorem OccursAt.add_length_le {p l : List α} {i : ℕ} (h : OccursAt p l i) (hp : p ≠ []) :
    i + p.length ≤ l.length := by
  have hlen := h.length_le
  rw [List.length_drop] at hlen
  have := List.length_pos_iff.mpr hp
  omega

/-- An occurrence in the text from place `k` on. -/
theorem occursAt_drop {p l : List α} {k i : ℕ} :
    OccursAt p (l.drop k) i ↔ OccursAt p l (k + i) := by
  rw [OccursAt, OccursAt, List.drop_drop]

/-- Whether the pattern occurs inside `l` does not depend on what follows. -/
theorem occursAt_append_iff {p l m : List α} {i : ℕ} (h : i + p.length ≤ l.length) :
    OccursAt p (l ++ m) i ↔ OccursAt p l i := by
  rw [OccursAt, OccursAt, List.prefix_iff_eq_take, List.prefix_iff_eq_take,
    List.drop_append_of_le_length (by omega),
    List.take_append_of_le_length (by rw [List.length_drop]; omega)]

/-- **The first occurrence stays the first** when the text goes on. -/
theorem IsFirst.append {p l : List α} {i : ℕ} (h : IsFirst p l i) (hp : p ≠ []) (m : List α) :
    IsFirst p (l ++ m) i := by
  have hle := h.1.add_length_le hp
  exact ⟨(occursAt_append_iff hle).mpr h.1, fun j hj hocc =>
    h.2 j hj ((occursAt_append_iff (by omega)).mp hocc)⟩

/-- There is one first occurrence at most. -/
theorem IsFirst.unique {p l : List α} {i j : ℕ} (hi : IsFirst p l i) (hj : IsFirst p l j) :
    i = j := by
  rcases Nat.lt_trichotomy i j with hlt | heq | hgt
  · exact absurd hi.1 (hj.2 i hlt)
  · exact heq
  · exact absurd hj.1 (hi.2 j hgt)

/-! ## The search -/

variable [DecidableEq α]

/-- The place of the first window that is the pattern. -/
def position (p l : List α) : Option ℕ := (windows p.length l).findIdx? (· = p)

/-- The search looks at the first window and then at the others. -/
theorem position_cons {p l : List α} {x : α} :
    position p (x :: l) = if p <+: x :: l then some 0 else (position p l).map (· + 1) := by
  unfold position
  rw [windows]
  by_cases hlen : p.length ≤ l.length + 1
  · rw [if_pos hlen, List.findIdx?_cons]
    have hiff : (decide ((x :: l).take p.length = p)) = true ↔ p <+: x :: l := by
      rw [decide_eq_true_iff, List.prefix_iff_eq_take, eq_comm]
    by_cases hpre : p <+: x :: l
    · rw [if_pos hpre, if_pos (hiff.mpr hpre)]
    · rw [if_neg hpre, if_neg (fun h => hpre (hiff.mp h))]
  · rw [if_neg hlen, windows_of_lt (by omega), if_neg fun hpre => hlen hpre.length_le]
    rfl

/-- Nothing is found that begins with something else. -/
theorem position_cons_of_ne {p l : List α} {x y : α} (h : x ≠ y) :
    position (y :: p) (x :: l) = (position (y :: p) l).map (· + 1) := by
  rw [position_cons, if_neg fun hpre => h (List.cons_prefix_cons.mp hpre).1.symm]

/-- The search passes over a stretch in which no occurrence can begin. -/
theorem position_append_of_not_mem {p l : List α} {y : α} (h : y ∉ l) (m : List α) :
    position (y :: p) (l ++ m) = (position (y :: p) m).map (l.length + ·) := by
  induction l with
  | nil => simp
  | cons x l ih =>
    obtain ⟨hne, hmem⟩ := not_or.mp (mt List.mem_cons.mpr h)
    rw [List.cons_append, position_cons_of_ne (Ne.symm hne), ih hmem, Option.map_map]
    congr 1
    funext i
    simp only [Function.comp_apply, List.length_cons]
    omega

/-- **What the search finds**: the first occurrence.

**Proof sketch.** Induction on the text: the pattern occurs at its head, or the first
occurrence is one further than that of the tail. -/
theorem position_eq_some_iff {p l : List α} (hp : p ≠ []) {i : ℕ} :
    position p l = some i ↔ IsFirst p l i := by
  induction l generalizing i with
  | nil =>
    refine ⟨nofun, fun h => ?_⟩
    have hle := h.1.add_length_le hp
    have := List.length_pos_iff.mpr hp
    rw [List.length_nil] at hle
    omega
  | cons x l ih =>
    have hsucc : ∀ j, OccursAt p (x :: l) (j + 1) ↔ OccursAt p l j := fun _ => Iff.rfl
    rw [position_cons]
    by_cases hpre : p <+: x :: l
    · have hzero : IsFirst p (x :: l) 0 := ⟨hpre, fun j hj => absurd hj (Nat.not_lt_zero j)⟩
      rw [if_pos hpre]
      constructor
      · intro h
        obtain rfl := Option.some.inj h
        exact hzero
      · exact fun h => congrArg some (hzero.unique h)
    · rw [if_neg hpre, Option.map_eq_some_iff]
      constructor
      · rintro ⟨j, hj, rfl⟩
        obtain ⟨hocc, hnot⟩ := ih.mp hj
        refine ⟨(hsucc j).mpr hocc, fun k hk => ?_⟩
        cases k with
        | zero => exact hpre
        | succ k => exact fun h => hnot k (Nat.lt_of_succ_lt_succ hk) ((hsucc k).mp h)
      · rintro ⟨hocc, hnot⟩
        cases i with
        | zero => exact absurd hocc hpre
        | succ i =>
          exact ⟨i, ih.mpr ⟨(hsucc i).mp hocc, fun j hj h =>
            hnot (j + 1) (Nat.succ_lt_succ hj) ((hsucc j).mpr h)⟩, rfl⟩

/-- The search finds nothing where the pattern does not occur. -/
theorem position_eq_none_iff {p l : List α} (hp : p ≠ []) :
    position p l = none ↔ ∀ i, ¬OccursAt p l i := by
  classical
  constructor
  · intro h i hocc
    have hfirst : IsFirst p l (Nat.find ⟨i, hocc⟩) :=
      ⟨Nat.find_spec ⟨i, hocc⟩, fun j hj => Nat.find_min ⟨i, hocc⟩ hj⟩
    rw [(position_eq_some_iff hp).mpr hfirst] at h
    cases h
  · intro h
    cases hpos : position p l with
    | none => rfl
    | some i => exact absurd ((position_eq_some_iff hp).mp hpos).1 (h i)

/-- **Searching from near the end of the old part** finds what searching everything finds, if
the old part has no occurrence.

**Proof sketch.** The first occurrence in the whole is not inside the old part, so it ends
after it, and begins at most a pattern's length less one before its end. -/
theorem position_drop {p l m : List α} (hp : p ≠ []) (hno : ∀ i, ¬OccursAt p l i) :
    (position p ((l ++ m).drop (l.length - (p.length - 1)))).map
      (l.length - (p.length - 1) + ·) = position p (l ++ m) := by
  have hpos := List.length_pos_iff.mpr hp
  cases hall : position p (l ++ m) with
  | none =>
    have hnot := (position_eq_none_iff hp).mp hall
    rw [(position_eq_none_iff hp).mpr fun i hocc => hnot _ (occursAt_drop.mp hocc)]
    rfl
  | some i =>
    obtain ⟨hocc, hnot⟩ := (position_eq_some_iff hp).mp hall
    have hge : l.length - (p.length - 1) ≤ i := by
      by_contra hlt
      exact hno i ((occursAt_append_iff (by omega)).mp hocc)
    obtain ⟨j, rfl⟩ := Nat.exists_eq_add_of_le hge
    have hfirst : IsFirst p ((l ++ m).drop (l.length - (p.length - 1))) j :=
      ⟨occursAt_drop.mpr hocc, fun k hk h => hnot _ (by omega) (occursAt_drop.mp h)⟩
    rw [(position_eq_some_iff hp).mpr hfirst]
    rfl

/-! ## Lines -/

/-- The text without one `c` at its end. -/
def stripLast (c : α) (l : List α) : List α := if l.getLast? = some c then l.dropLast else l

/-- The lines of a text whose first line has begun with `line`. -/
def linesFrom (newline ret : α) : List α → List α → List (List α)
  | line, [] => if line = [] then [] else [line]
  | line, c :: l =>
    if c = newline then stripLast ret line :: linesFrom newline ret [] l
    else linesFrom newline ret (line ++ [c]) l

/-- The lines of a text: each ends before a `newline`, and before a `ret` in front of it. What
follows the last `newline` is a line if it is not empty. -/
def lines (newline ret : α) (l : List α) : List (List α) := linesFrom newline ret [] l

variable {newline ret : α}

/-- The line up to the first `newline`, and the lines after it. -/
theorem lines_append_cons {l : List α} (h : newline ∉ l) (m : List α) :
    lines newline ret (l ++ newline :: m) = stripLast ret l :: lines newline ret m := by
  have hfrom : ∀ line, linesFrom newline ret line (l ++ newline :: m) =
      stripLast ret (line ++ l) :: lines newline ret m := by
    induction l with
    | nil =>
      intro line
      rw [List.nil_append, List.append_nil, linesFrom, if_pos rfl]
      rfl
    | cons c l ih =>
      intro line
      obtain ⟨hne, hmem⟩ := not_or.mp (mt List.mem_cons.mpr h)
      rw [List.cons_append, linesFrom, if_neg (Ne.symm hne), ih hmem, List.append_assoc]
      rfl
  exact hfrom []

/-- A text without `newline` is one line, or none. -/
theorem lines_of_not_mem {l : List α} (h : newline ∉ l) :
    lines newline ret l = if l = [] then [] else [l] := by
  have hfrom : ∀ line, linesFrom newline ret line l =
      if line ++ l = [] then [] else [line ++ l] := by
    induction l with
    | nil =>
      intro line
      rw [List.append_nil, linesFrom]
    | cons c l ih =>
      intro line
      obtain ⟨hne, hmem⟩ := not_or.mp (mt List.mem_cons.mpr h)
      rw [linesFrom, if_neg (Ne.symm hne), ih hmem, List.append_assoc]
      rfl
  exact hfrom []

end Scan
