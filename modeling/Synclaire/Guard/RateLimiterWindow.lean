import Mathlib.Algebra.Order.Group.Nat
import Synclaire.Lib.Window
import Synclaire.Guard.RateLimiter

set_option relaxedAutoImplicit false
set_option autoImplicit false

/-!
# The sliding window of the rate limiter

The window forgets the entries that are older than its width. A run of calls remembers them: the
verdict of each call is compared with all calls before it.

## Main definitions

* `Synclaire.WindowOutcome` — the time of a call and its verdict.
* `Synclaire.RateLimiter.windowOutcomes` — the calls of a run with their verdicts.
* `Synclaire.RateLimiter.Stands` — the window stands for all calls that were admitted.

## Main results

* `Synclaire.RateLimiter.windowOutcomes_exact` — a call is admitted exactly if there is room among
  all admitted calls of its window, and no interval has more than the limit.
-/

namespace Synclaire

open Window

/-- A call of `allow_global_window`: its reading of the clock and its verdict. -/
structure WindowOutcome where
  now : Instant
  admitted : Bool
  deriving DecidableEq

/-- The times of the calls that were admitted. -/
def admittedTimes (outcomes : List WindowOutcome) : List Instant :=
  outcomes.filterMap fun o => if o.admitted then some o.now else none

namespace RateLimiter

/-- The calls of a run, with their verdicts. -/
def windowOutcomes : RateLimiter → List Instant → List WindowOutcome
  | _, [] => []
  | g, now :: calls =>
    ⟨now, (g.allowGlobalWindow now).1⟩ :: (g.allowGlobalWindow now).2.windowOutcomes calls

/-- The window stands for the times `admitted` from `start` on: it is in order, not ahead, and has
the same recent entries. -/
structure Stands (g : RateLimiter) (admitted : List Instant) (start : Instant) : Prop where
  sorted : g.globalWindow.Pairwise (· ≤ ·)
  le_start : ∀ t ∈ g.globalWindow, t ≤ start
  recent_eq : ∀ now, start ≤ now → recent g.config.globalWindow.nanos now g.globalWindow =
    recent g.config.globalWindow.nanos now admitted

section Stands

variable {g : RateLimiter} {admitted : List Instant} {start now : Instant}

/-- The pruned window is the recent part of all that was admitted. -/
theorem Stands.prune_eq (h : g.Stands admitted start) (hnow : start ≤ now) :
    g.prune now = recent g.config.globalWindow.nanos now admitted := by
  rw [← h.recent_eq now hnow, ← dropWhile_eq_recent h.sorted]
  unfold prune
  congr 1
  funext front
  rw [decide_eq_decide]
  exact Nat.lt_sub_iff_add_lt'

/-- A call keeps the configuration. -/
theorem allowGlobalWindow_config (g : RateLimiter) (now : Instant) :
    (g.allowGlobalWindow now).2.config = g.config := by
  unfold allowGlobalWindow
  dsimp only
  split_ifs <;> rfl

/-- A call is admitted exactly if the pruned window has room. -/
theorem allowGlobalWindow_eq_true_iff (g : RateLimiter) (now : Instant) :
    (g.allowGlobalWindow now).1 = true ↔ (g.prune now).length < g.config.globalWindowLimit := by
  unfold allowGlobalWindow
  dsimp only
  split_ifs with hfull
  · exact iff_of_false not_false (Nat.not_lt.mpr hfull)
  · exact iff_of_true rfl (Nat.not_le.mp hfull)

/-- After a call the window is the pruned one, and the call if it was admitted. -/
theorem allowGlobalWindow_globalWindow (g : RateLimiter) (now : Instant) :
    (g.allowGlobalWindow now).2.globalWindow =
      g.prune now ++ admittedTimes [⟨now, (g.allowGlobalWindow now).1⟩] := by
  unfold allowGlobalWindow
  dsimp only
  split_ifs with hfull
  · exact (List.append_nil _).symm
  · rfl

/-- After a call the window stands for one more call, if it was admitted. -/
theorem Stands.next (h : g.Stands admitted start) (hnow : start ≤ now) :
    (g.allowGlobalWindow now).2.Stands
      (admitted ++ admittedTimes [⟨now, (g.allowGlobalWindow now).1⟩]) now := by
  have hnew : ∀ t ∈ admittedTimes [⟨now, (g.allowGlobalWindow now).1⟩], t = now := by
    intro t ht
    obtain ⟨o, ho, hsome⟩ := List.mem_filterMap.mp ht
    obtain rfl := List.mem_singleton.mp ho
    split_ifs at hsome
    exact (Option.some.inj hsome).symm
  have hold : ∀ t ∈ g.prune now, t ≤ now := fun t ht =>
    (h.le_start t ((List.dropWhile_sublist _).subset ht)).trans hnow
  refine ⟨?_, ?_, fun now' hle => ?_⟩
  · rw [allowGlobalWindow_globalWindow, List.pairwise_append]
    refine ⟨h.sorted.sublist (List.dropWhile_sublist _), ?_, fun t ht t' ht' => ?_⟩
    · refine List.pairwise_of_forall_mem_list fun t ht t' ht' => ?_
      rw [hnew t ht, hnew t' ht']
    · rw [hnew t' ht']
      exact hold t ht
  · rw [allowGlobalWindow_globalWindow]
    intro t ht
    rcases List.mem_append.mp ht with ht | ht
    · exact hold t ht
    · exact (hnew t ht).le
  · rw [allowGlobalWindow_globalWindow, allowGlobalWindow_config, recent_append, recent_append,
      h.prune_eq hnow, recent_recent hle]

/-- **Each call of a run is judged by all calls before it.**

**Proof sketch.** Induction on the calls: the window stands for all that was admitted, before and
in the run. -/
theorem Stands.atEach (h : g.Stands admitted start) {calls : List Instant}
    (hstart : ∀ t ∈ calls, start ≤ t) (hcalls : calls.Pairwise (· ≤ ·)) :
    Log.AtEach (fun before o => o.admitted = true ↔
        (recent g.config.globalWindow.nanos o.now (admitted ++ admittedTimes before)).length <
          g.config.globalWindowLimit)
      (g.windowOutcomes calls) := by
  induction calls generalizing g admitted start with
  | nil => exact Log.atEach_nil _
  | cons now calls ih =>
    have hnow := hstart now (.head _)
    obtain ⟨hlater, hrest⟩ := List.pairwise_cons.mp hcalls
    refine Log.atEach_cons.mpr ⟨?_, ?_⟩
    · rw [allowGlobalWindow_eq_true_iff, h.prune_eq hnow]
      exact iff_of_eq (by rw [show admittedTimes [] = [] from rfl, List.append_nil])
    · have htail := ih (h.next hnow) hlater hrest
      rw [allowGlobalWindow_config] at htail
      intro before o after hsplit
      have hverdict := htail before o after hsplit
      dsimp only at hverdict
      rwa [List.append_assoc, admittedTimes, admittedTimes, ← List.filterMap_append] at hverdict

end Stands

/-- **The sliding window is exact**: for calls in the order of time, a call is admitted exactly if
less than the limit of the calls before it were admitted at times no more than the width of the
window before; and no closed interval of this width has more admitted calls than the limit. -/
theorem windowOutcomes_exact (config : RateLimiterConfig) (start : Instant) {calls : List Instant}
    (h : calls.Pairwise (· ≤ ·)) :
    Log.AtEach (fun before o => o.admitted = true ↔
        ((admittedTimes before).filter fun t => o.now ≤ t + config.globalWindow.nanos).length <
          config.globalWindowLimit)
      ((new config start).windowOutcomes calls) ∧
    ∀ a : Instant, ((admittedTimes ((new config start).windowOutcomes calls)).filter
      fun t => a ≤ t ∧ t ≤ a + config.globalWindow.nanos).length ≤ config.globalWindowLimit := by
  have hstands : (new config start).Stands [] 0 :=
    ⟨.nil, fun _ ht => absurd ht List.not_mem_nil, fun _ _ => rfl⟩
  have heach := hstands.atEach (fun t _ => Nat.zero_le t) h
  refine ⟨heach, length_interval_le ?_⟩
  refine heach.filterMap fun before o t hsome hverdict => ?_
  split_ifs at hsome with hadmitted
  rw [← Option.some.inj hsome]
  exact hverdict.mp hadmitted

/-- With room for one call in a window of 10 seconds, calls at 0 and 10 seconds are in one window,
and the call right after it is admitted. -/
theorem windowOutcomes_exact_boundary :
    admittedTimes ((new { globalWindowLimit := 1 } 0).windowOutcomes
      [0, 10 * 10 ^ 9, 10 * 10 ^ 9 + 1]) = [0, 10 * 10 ^ 9 + 1] ∧
    ∀ a : Instant, ((admittedTimes ((new { globalWindowLimit := 1 } 0).windowOutcomes
      [0, 10 * 10 ^ 9, 10 * 10 ^ 9 + 1])).filter
        fun t => a ≤ t ∧ t ≤ a + (Duration.fromSecs 10).nanos).length ≤ 1 :=
  ⟨by decide +kernel, (windowOutcomes_exact { globalWindowLimit := 1 } 0 (by decide)).2⟩

end RateLimiter

end Synclaire
