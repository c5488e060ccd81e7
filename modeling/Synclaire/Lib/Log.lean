import Mathlib.Data.List.Basic
import Mathlib.Tactic.Common

set_option relaxedAutoImplicit false
set_option autoImplicit false

/-!
# Logs of operations

A store whose contents are overwritten or extended by a sequence of operations is described by
what the *latest* or the *earliest* operation of some sort says. The sort of operation, and what
it says, is a partial function on operations.

## Main definitions

* `Log.latest`, `Log.earliest` — what the latest and the earliest operation of a sort says.
* `Log.AtEach` — what holds of each entry and the entries before it.

## Main results

* `Log.latest_concat`, `Log.earliest_concat` — the log grows by one operation.
* `Log.dropWhile_eq_filter` — old entries leave a log that is in order.
-/

namespace Log

variable {α β : Type*}

/-- What the latest operation on which `f` is defined says. -/
def latest (f : α → Option β) (log : List α) : Option β := log.reverse.findSome? f

/-- What the earliest operation on which `f` is defined says. -/
def earliest (f : α → Option β) (log : List α) : Option β := log.findSome? f

/-- A new operation is the latest. -/
@[simp] theorem latest_concat (f : α → Option β) (log : List α) (op : α) :
    latest f (log ++ [op]) = (f op).or (latest f log) := by
  unfold latest
  rw [List.reverse_append, List.reverse_singleton, List.singleton_append, List.findSome?_cons]
  cases f op <;> rfl

/-- A new operation is the earliest if it is the first of its sort. -/
@[simp] theorem earliest_concat (f : α → Option β) (log : List α) (op : α) :
    earliest f (log ++ [op]) = (earliest f log).or (f op) := by
  unfold earliest
  rw [List.findSome?_append, List.findSome?_cons, List.findSome?_nil]
  cases f op <;> rfl

/-- Entries that become due in order leave at the front. -/
theorem dropWhile_eq_filter {log : List α} {due : α → Bool}
    (h : log.Pairwise fun x y => due y → due x) :
    log.dropWhile due = log.filter fun x => !due x := by
  induction log with
  | nil => rfl
  | cons x log ih =>
    obtain ⟨hx, hlog⟩ := List.pairwise_cons.mp h
    by_cases hdue : due x
    · rw [List.dropWhile_cons_of_pos hdue, List.filter_cons_of_neg (by simp [hdue]), ih hlog]
    · rw [List.dropWhile_cons_of_neg hdue, eq_comm, List.filter_eq_self]
      intro y hy
      rcases List.mem_cons.mp hy with rfl | hy
      · simpa using hdue
      · have := mt (hx y hy) hdue
        simpa using this

/-- What holds of each entry and the entries before it. -/
def AtEach (P : List α → α → Prop) (log : List α) : Prop :=
  ∀ before x after, log = before ++ x :: after → P before x

/-- Nothing is claimed of an empty log. -/
theorem atEach_nil (P : List α → α → Prop) : AtEach P [] := by
  intro before x after h
  simp at h

/-- The first entry, and the others after it. -/
theorem atEach_cons {P : List α → α → Prop} {x : α} {log : List α} :
    AtEach P (x :: log) ↔ P [] x ∧ AtEach (fun before => P (x :: before)) log := by
  constructor
  · intro h
    exact ⟨h [] x log rfl, fun before y after hlog => h (x :: before) y after (by rw [hlog]; rfl)⟩
  · intro ⟨hx, hlog⟩ before y after hsplit
    cases before with
    | nil =>
      obtain ⟨rfl, -⟩ := List.cons.inj hsplit
      exact hx
    | cons z before =>
      obtain ⟨rfl, hrest⟩ := List.cons.inj hsplit
      exact hlog before y after hrest

/-- The first entries, and the others after them. -/
theorem atEach_append {P : List α → α → Prop} {log log' : List α} :
    AtEach P (log ++ log') ↔ AtEach P log ∧ AtEach (fun before => P (log ++ before)) log' := by
  induction log generalizing P with
  | nil => exact ⟨fun h => ⟨atEach_nil P, h⟩, fun h => h.2⟩
  | cons x log ih =>
    rw [List.cons_append, atEach_cons, atEach_cons, ih, and_assoc]
    rfl

/-- What holds of the entries that are kept, and of those before each that are kept. -/
theorem AtEach.filterMap {P : List α → α → Prop} {Q : List β → β → Prop} {f : α → Option β}
    {log : List α} (h : AtEach P log)
    (hkeep : ∀ before x y, f x = some y → P before x → Q (before.filterMap f) y) :
    AtEach Q (log.filterMap f) := by
  intro before y after hsplit
  obtain ⟨first, rest, rfl, rfl, hrest⟩ := List.filterMap_eq_append_iff.mp hsplit
  obtain ⟨skipped, x, last, rfl, hskipped, hx, -⟩ := List.filterMap_eq_cons_iff.mp hrest
  have hP : P (first ++ skipped) x := h _ x last (List.append_assoc _ _ _).symm
  have hQ := hkeep _ x y hx hP
  rwa [List.filterMap_append, List.filterMap_eq_nil_iff.mpr hskipped, List.append_nil] at hQ

/-- What holds of each entry, whatever is before it. -/
theorem atEach_of_forall {P : List α → α → Prop} {log : List α}
    (h : ∀ x ∈ log, ∀ before, P before x) : AtEach P log := by
  intro before x after hlog
  apply h
  rw [hlog]
  exact List.mem_append_right _ List.mem_cons_self

end Log
