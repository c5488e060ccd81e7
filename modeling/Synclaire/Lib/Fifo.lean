import Mathlib.Data.List.DropRight
import Mathlib.Data.List.Nodup
import Mathlib.Tactic.Common

set_option relaxedAutoImplicit false
set_option autoImplicit false

/-!
# Bounded first-in first-out caches

A cache with a bound on its length keeps its elements in the order in which they joined. A request
for an element that is there changes nothing; another one joins at the end, and if there is no room
the element at the front leaves for it. What is in the cache is told by the log of those who joined.

## Main definitions

* `Fifo.Recent` — the cache has the last entries of a log, without repetitions.
* `Fifo.request` — a request in the cache.
* `Fifo.number` — the number of the last entry of an element in a log.

## Main results

* `Fifo.Recent.request` — a request for a new element prolongs the log.
* `Fifo.Recent.sorted` — the cache is in the order of the last entries of its elements.
-/

namespace Fifo

variable {α : Type*} {cap : ℕ} {l log : List α} {x y : α}

/-! ## The end of a log -/

/-- The cache has the last entries of the log of those who joined, and they are different. -/
structure Recent (cap : ℕ) (log l : List α) : Prop where
  eq_rtake : l = log.rtake cap
  nodup : l.Nodup

/-- Nobody joined yet. -/
theorem recent_nil (cap : ℕ) : Recent cap ([] : List α) [] where
  eq_rtake := (List.rtake_nil cap).symm
  nodup := List.nodup_nil

/-- The cache is not longer than its bound. -/
theorem Recent.length_le (h : Recent cap log l) : l.length ≤ cap := by
  rw [h.eq_rtake, List.rtake, List.length_drop]
  omega

/-- The last entries of a log that grows: the first of them leaves if there are enough. -/
theorem rtake_concat (hcap : 0 < cap) (log : List α) (x : α) :
    (log ++ [x]).rtake cap =
      (if cap ≤ (log.rtake cap).length then (log.rtake cap).tail else log.rtake cap) ++ [x] := by
  obtain ⟨k, rfl⟩ := Nat.exists_eq_succ_of_ne_zero hcap.ne'
  rw [List.rtake_concat_succ]
  congr 1
  unfold List.rtake
  rw [List.length_drop]
  split_ifs with hfull
  · rw [List.tail_drop]
    congr 1
    omega
  · congr 1
    omega

/-! ## Requests -/

variable [DecidableEq α]

/-- A request: who is there stays, and a new one joins at the end. The front leaves if there is no
room. -/
def request (cap : ℕ) (l : List α) (x : α) : List α :=
  if x ∈ l then l else (if cap ≤ l.length then l.tail else l) ++ [x]

/-- A request for an element that is there changes nothing. -/
theorem request_of_mem (h : x ∈ l) : request cap l x = l := if_pos h

/-- With room, a new element joins the others. -/
theorem request_of_room (hnew : x ∉ l) (hroom : l.length < cap) : request cap l x = l ++ [x] := by
  unfold request
  rw [if_neg hnew, if_neg (Nat.not_le.mpr hroom)]

/-- Without room, a new element joins when the one at the front has left. -/
theorem request_of_full (hnew : x ∉ l) (hfull : cap ≤ l.length) :
    request cap l x = l.tail ++ [x] := by
  unfold request
  rw [if_neg hnew, if_pos hfull]

/-- A request for a new element prolongs the log, and the cache has its last entries again. -/
theorem Recent.request (h : Recent cap log l) (hcap : 0 < cap) (hnew : x ∉ l) :
    Recent cap (log ++ [x]) (request cap l x) where
  eq_rtake := by
    unfold Fifo.request
    rw [if_neg hnew, rtake_concat hcap, ← h.eq_rtake]
  nodup := by
    have hconcat : ∀ {l' : List α}, l'.Sublist l → (l' ++ [x]).Nodup := by
      intro l' hsub
      rw [← List.concat_eq_append]
      exact (h.nodup.sublist hsub).concat fun hx => hnew (hsub.subset hx)
    unfold Fifo.request
    rw [if_neg hnew]
    split_ifs
    · exact hconcat (List.tail_sublist l)
    · exact hconcat (List.Sublist.refl l)

/-! ## Numbers of log entries -/

/-- The number of the last entry of `x` in a log, counted from one; zero if there is none. -/
def number (log : List α) (x : α) : ℕ := log.length - log.reverse.idxOf x

/-- The entries at the end of a log are numbered one by one, if they are different.

**Proof sketch.** Read backwards, the log begins with these entries, and the place of an entry in a
list without repetitions is its index. -/
theorem number_append_getElem (first : List α) (h : l.Nodup) {i : ℕ} (hi : i < l.length) :
    number (first ++ l) l[i] = first.length + i + 1 := by
  have hj : l.length - 1 - i < l.reverse.length := by
    rw [List.length_reverse]
    omega
  have hget : l.reverse[l.length - 1 - i] = l[i] := by
    rw [List.getElem_reverse]
    congr 1
    omega
  have hidx : l.reverse.idxOf l[i] = l.length - 1 - i := by
    rw [← hget]
    exact (List.nodup_reverse.mpr h).idxOf_getElem _ hj
  have hmem : l[i] ∈ l.reverse := List.mem_reverse.mpr (List.getElem_mem hi)
  unfold number
  rw [List.reverse_append, List.idxOf_append_of_mem hmem, hidx, List.length_append]
  omega

/-- **The cache is in the order of joining**: its elements are ordered by their last entries in the
log. -/
theorem Recent.sorted (h : Recent cap log l) :
    l.Pairwise fun x y => number log x < number log y := by
  have hlog : log.rdrop cap ++ l = log := by
    rw [h.eq_rtake]
    exact List.take_append_drop _ log
  rw [List.pairwise_iff_getElem]
  intro i j hi hj hij
  rw [← hlog, number_append_getElem _ h.nodup, number_append_getElem _ h.nodup]
  omega

/-- The element at the front joined before all others. -/
theorem Recent.number_head_lt (h : Recent cap log (x :: l)) (hy : y ∈ l) :
    number log x < number log y :=
  (List.pairwise_cons.mp h.sorted).1 y hy

end Fifo
