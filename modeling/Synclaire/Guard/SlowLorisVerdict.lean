import Synclaire.Guard.SlowLorisRun
import Synclaire.Guard.Stack

set_option relaxedAutoImplicit false
set_option autoImplicit false

/-!
# Whom the slow-client guard fails

The slow-client guard fails an activity if too much time has passed since the last note of the
connection. The callbacks interleave in any order and at any times; the notes they make are kept
beside the guard.

## Main definitions

* `Synclaire.LorisCall`, `Synclaire.LorisWatch` — a callback, and the guard beside the notes so far.
* `Synclaire.callbacks` — the transition system of all callbacks.
* `Synclaire.Verdict` — what an activity should do.
* `Synclaire.SlowLorisConfig.SumFits` — the sum of the two durations is a duration.
* `Synclaire.BoundedActivityMap.Recycled` — a new entry would be taken for an old one.

## Main results

* `Synclaire.BoundedActivityMap.note_get_iff` — when a note makes its time the last one seen.
* `Synclaire.verdict_iff` — when an activity does what it should.
-/

namespace Synclaire

open Transition

namespace BoundedActivityMap

/-- The address is new, there is no room for it, and in front of the live entries stands an old
one of it that has the next sequence number. -/
def Recycled (m : BoundedActivityMap) (addr : SocketAddr) : Prop :=
  addr ∉ m.map ∧ m.max ≤ m.map.keys.card ∧
    m.order.find? (fun x => isLive m.map x || x = (addr, m.nextSeq + 1)) =
      some (addr, m.nextSeq + 1)

/-- Live after the note of a new address are the entries that were live, and its own. -/
theorem isLive_insert {m : BoundedActivityMap} {addr : SocketAddr} (hnew : addr ∉ m.map)
    (now : Instant) (x : SocketAddr × UInt64) :
    isLive (m.map.insert addr ⟨now, m.nextSeq + 1⟩) x =
      (isLive m.map x || x = (addr, m.nextSeq + 1)) := by
  obtain ⟨a, seq⟩ := x
  unfold isLive
  rw [FMap.lookup_insert_eq_ite]
  by_cases ha : a = addr
  · subst ha
    simp [Finmap.lookup_eq_none.mpr hnew, eq_comm]
  · simp [ha]

/-- **A note makes its time the last one seen**, unless its entry is taken for an old one. -/
theorem note_get_iff {m : BoundedActivityMap} (h : m.WellFormed) (addr : SocketAddr)
    (now : Instant) : (m.note addr now).get addr = some now ↔ ¬m.Recycled addr := by
  by_cases hroom : addr ∈ m.map ∨ m.map.keys.card < m.max
  · have hget : (m.note addr now).get addr = some now := by
      rw [get, note_map_of_room hroom, FMap.lookup_insert_eq_ite, if_pos rfl]
      rfl
    refine iff_of_true hget ?_
    rintro ⟨hnew, hfull, -⟩
    rcases hroom with hold | hlt
    · exact hnew hold
    · omega
  · obtain ⟨hnew, hfull⟩ := not_or.mp hroom
    have hfull := Nat.not_lt.mp hfull
    obtain ⟨pre, x, rest, horder, hpre, hx, hmap⟩ := note_map_of_full h hnew hfull now
    have hget : (m.note addr now).get addr = some now ↔ x.1 ≠ addr := by
      rw [get, hmap, FMap.lookup_erase_eq_ite, FMap.lookup_insert_eq_ite, if_pos rfl]
      by_cases ha : addr = x.1
      · simp [← ha]
      · simp [ha, Ne.symm ha]
    -- the first live entry is in the old queue, as some address is tracked
    have hfirst : m.order.find? (fun y => isLive m.map y || y = (addr, m.nextSeq + 1)) =
        some x := by
      have hall : (m.order ++ [(addr, m.nextSeq + 1)]).find?
          (isLive (m.map.insert addr ⟨now, m.nextSeq + 1⟩)) = some x := by
        rw [horder, List.find?_append, List.find?_eq_none.mpr hpre, Option.none_or]
        exact List.find?_cons_of_pos hx
      have hsame : isLive (m.map.insert addr ⟨now, m.nextSeq + 1⟩) =
          fun y => isLive m.map y || y = (addr, m.nextSeq + 1) :=
        funext (isLive_insert hnew now)
      rw [hsame, List.find?_append] at hall
      obtain ⟨b, hb⟩ : m.map.keys.Nonempty := Finset.card_pos.mp (h.max_pos.trans hfull)
      obtain ⟨e, he⟩ := Finmap.mem_iff.mp (Finmap.mem_keys.mp hb)
      cases hfind : m.order.find? (fun y => isLive m.map y || y = (addr, m.nextSeq + 1)) with
      | none =>
        have hstale := List.find?_eq_none.mp hfind _ (h.queued b e he)
        rw [isLive_iff.mpr ⟨e, he, rfl⟩] at hstale
        exact absurd rfl hstale
      | some y =>
        rw [hfind, Option.some_or] at hall
        exact hall
    rw [hget, Recycled, hfirst]
    refine not_congr ⟨fun ha => ⟨hnew, hfull, ?_⟩, fun hrec => ?_⟩
    · obtain ⟨e, he, hseq⟩ := isLive_iff.mp hx
      rw [ha, FMap.lookup_insert_eq_ite, if_pos rfl] at he
      rw [← Option.some.inj he] at hseq
      exact congrArg some (Prod.ext ha hseq.symm)
    · exact congrArg Prod.fst (Option.some.inj hrec.2.2)

end BoundedActivityMap

/-- With fewer than `2 ^ 64` notes, no entry is taken for an old one. -/
theorem Noted.not_recycled {bound : ℕ} {s : Noted} (h : (activities bound).Reach s)
    (hnotes : s.notes.length + 1 < 2 ^ 64) (addr : SocketAddr) : ¬s.activity.Recycled addr := by
  rintro ⟨-, -, hfind⟩
  have hnum := Noted.numbered_of_reach h ((Nat.lt_succ_self _).trans hnotes)
  have hrecent := hnum.recent _ (List.mem_of_find?_eq_some hfind)
  have hnext := hnum.next_toNat hnotes
  dsimp only at hrecent
  omega

/-! ## Callbacks -/

/-- A callback of the guard, with its context and its reading of the clock. -/
structure LorisCall where
  callback : Callback
  context : GuardContext
  now : Instant
  deriving DecidableEq

/-- The guard beside the notes so far, the latest first. -/
structure LorisWatch where
  guard : SlowLoris
  notes : List (SocketAddr × Instant)
  deriving DecidableEq

/-- A callback: a reservation, a payload and a successful activity note the connection. -/
def LorisWatch.next (s : LorisWatch) (c : LorisCall) : LorisWatch :=
  match c.callback with
  | .reserve =>
    ⟨(Guard.onReserve s.guard c.context c.now).2, (c.context.peerAddr, c.now) :: s.notes⟩
  | .established => { s with guard := (Guard.onEstablished s.guard c.context c.now).2 }
  | .payload bytes =>
    ⟨(Guard.onPayload s.guard c.context bytes c.now).2, (c.context.peerAddr, c.now) :: s.notes⟩
  | .activity =>
    match Guard.onActivity s.guard c.context c.now with
    | (.ok (), guard) => ⟨guard, (c.context.peerAddr, c.now) :: s.notes⟩
    | (.error _, guard) => { s with guard }
  | .close => { s with guard := Guard.onClose s.guard c.context c.now }

/-- The guard before its first callback. -/
def LorisWatch.start (config : SlowLorisConfig) : LorisWatch := ⟨.new config, []⟩

/-- All callbacks, in any order and at any times. -/
def callbacks (config : SlowLorisConfig) : System LorisWatch LorisCall :=
  .ofFn (.start config) fun s c => some (s.next c)

/-- The activity map beside the notes. -/
def LorisWatch.noted (s : LorisWatch) : Noted := ⟨s.guard.lastActivity, s.notes⟩

/-- The sum of the timeout and the grace period is a duration. -/
def SlowLorisConfig.SumFits (config : SlowLorisConfig) : Prop :=
  config.idleTimeout.nanos + config.gracePeriod.nanos < 2 ^ 64 * 10 ^ 9

instance (config : SlowLorisConfig) : Decidable config.SumFits :=
  inferInstanceAs (Decidable (_ < _))

/-- **What an activity should do**: it returns; it fails exactly if the connection is tracked and
more than the sum of the timeout and the grace period has passed since its last note; a failure
changes nothing, and a success makes now the last time the connection was seen. -/
structure Verdict (s : LorisWatch) (ctx : GuardContext) (now : Instant) : Prop where
  returns : ∃ result, s.guard.checkIdle ctx.peerAddr now = .ok result
  fails_iff : (∃ e, (s.guard.onActivity ctx now).1 = .error e) ↔
    ctx.peerAddr ∈ s.guard.lastActivity.map ∧ ∃ t, lastNoted s.notes ctx.peerAddr = some t ∧
      s.guard.config.idleTimeout.nanos + s.guard.config.gracePeriod.nanos < now.durationSince t
  failed : ∀ e, (s.guard.onActivity ctx now).1 = .error e → (s.guard.onActivity ctx now).2 = s.guard
  succeeded : (s.guard.onActivity ctx now).1 = .ok () →
    (s.guard.onActivity ctx now).2.lastActivity.get ctx.peerAddr = some now

section Verdict

variable {config : SlowLorisConfig} {s : LorisWatch}

/-- What a callback does to the activity map and the notes: a note, a removal, or nothing. -/
theorem LorisWatch.next_cases (s : LorisWatch) (c : LorisCall) :
    (s.next c).guard.config = s.guard.config ∧
      ((s.next c).noted = s.noted ∨ ∃ op, (s.next c).noted = s.noted.next op) := by
  obtain ⟨callback, ctx, now⟩ := c
  cases callback with
  | reserve => exact ⟨rfl, .inr ⟨.note ctx.peerAddr now, rfl⟩⟩
  | established => exact ⟨rfl, .inl rfl⟩
  | payload bytes => exact ⟨rfl, .inr ⟨.note ctx.peerAddr now, rfl⟩⟩
  | close => exact ⟨rfl, .inr ⟨.remove ctx.peerAddr, rfl⟩⟩
  | activity =>
    have hactivity : Guard.onActivity s.guard ctx now = s.guard.onActivity ctx now := rfl
    unfold LorisWatch.next
    dsimp only
    rw [hactivity]
    unfold SlowLoris.onActivity
    rcases s.guard.checkIdle ctx.peerAddr now with _ | _ | _
    · exact ⟨rfl, .inl rfl⟩
    · exact ⟨rfl, .inl rfl⟩
    · exact ⟨rfl, .inr ⟨.note ctx.peerAddr now, rfl⟩⟩

/-- The activity map of the guard takes notes and removals only. -/
theorem LorisWatch.reach_noted (h : (callbacks config).Reach s) :
    s.guard.config = config ∧ (activities config.maxTrackedConnections).Reach s.noted := by
  refine h.invariant (I := fun s => s.guard.config = config ∧
    (activities config.maxTrackedConnections).Reach s.noted) ?_ ?_
  · rintro _ rfl
    exact ⟨rfl, .init rfl⟩
  · rintro s c _ - ⟨hconfig, hr⟩ hstep
    obtain rfl := Option.some.inj hstep
    obtain ⟨hsame, heq | ⟨op, heq⟩⟩ := s.next_cases c
    · exact ⟨hsame.trans hconfig, heq ▸ hr⟩
    · exact ⟨hsame.trans hconfig, .step (l := op) hr (by rw [heq]; rfl)⟩

/-- The check of a connection that is not tracked succeeds. -/
theorem checkIdle_of_untracked {g : SlowLoris} {addr : SocketAddr} (h : addr ∉ g.lastActivity.map)
    (now : Instant) : g.checkIdle addr now = .ok (.ok ()) := by
  unfold SlowLoris.checkIdle BoundedActivityMap.get
  rw [Finmap.lookup_eq_none.mpr h]
  rfl

/-- The check of a tracked connection panics if the sum of the two durations is none. -/
theorem checkIdle_of_not_sumFits {g : SlowLoris} {addr : SocketAddr}
    (h : addr ∈ g.lastActivity.map) (hfits : ¬g.config.SumFits) (now : Instant) :
    g.checkIdle addr now = .error .arithmeticOverflow := by
  obtain ⟨e, he⟩ := Finmap.mem_iff.mp h
  have hsum : g.config.idleTimeout.checkedAdd g.config.gracePeriod = none := dif_neg hfits
  unfold SlowLoris.checkIdle BoundedActivityMap.get
  rw [he]
  dsimp only [Option.map_some]
  rw [hsum]

/-- The check of a tracked connection otherwise compares the time since it was last seen. -/
theorem checkIdle_of_sumFits {g : SlowLoris} {addr : SocketAddr} {e : ActivityEntry}
    (h : g.lastActivity.map.lookup addr = some e) (hfits : g.config.SumFits) (now : Instant) :
    g.checkIdle addr now =
      if g.config.idleTimeout.nanos + g.config.gracePeriod.nanos < now.durationSince e.lastSeen
      then .ok (.error (.timeout g.config.idleTimeout "reading from a very slow client".toList))
      else .ok (.ok ()) := by
  have hsum : g.config.idleTimeout.checkedAdd g.config.gracePeriod =
      some ⟨g.config.idleTimeout.nanos + g.config.gracePeriod.nanos, hfits⟩ := dif_pos hfits
  unfold SlowLoris.checkIdle BoundedActivityMap.get
  rw [h]
  dsimp only [Option.map_some]
  rw [hsum]

/-- A successful check is followed by a note. -/
theorem onActivity_of_ok {g : SlowLoris} {ctx : GuardContext} {now : Instant}
    (h : g.checkIdle ctx.peerAddr now = .ok (.ok ())) :
    g.onActivity ctx now = (.ok (), g.note ctx.peerAddr now) := by
  unfold SlowLoris.onActivity
  rw [h]

/-- A failed check is the end of the activity. -/
theorem onActivity_of_error {g : SlowLoris} {ctx : GuardContext} {now : Instant} {e : SynError}
    (h : g.checkIdle ctx.peerAddr now = .ok (.error e)) :
    g.onActivity ctx now = (.error e, g) := by
  unfold SlowLoris.onActivity
  rw [h]

/-- A check that fails, as it should. -/
theorem Verdict.of_error {ctx : GuardContext} {now : Instant} {e : SynError}
    (hcheck : s.guard.checkIdle ctx.peerAddr now = .ok (.error e))
    (hlate : ctx.peerAddr ∈ s.guard.lastActivity.map ∧
      ∃ t, lastNoted s.notes ctx.peerAddr = some t ∧
        s.guard.config.idleTimeout.nanos + s.guard.config.gracePeriod.nanos <
          now.durationSince t) : Verdict s ctx now := by
  have hactivity := onActivity_of_error hcheck
  refine ⟨⟨_, hcheck⟩, ?_, ?_, ?_⟩
  · rw [hactivity]
    exact iff_of_true ⟨e, rfl⟩ hlate
  · intro _ _
    rw [hactivity]
  · rw [hactivity]
    rintro ⟨⟩

/-- A check that succeeds, as it should, and is followed by a note. -/
theorem Verdict.of_ok {ctx : GuardContext} {now : Instant}
    (hcheck : s.guard.checkIdle ctx.peerAddr now = .ok (.ok ()))
    (hnoted : (s.guard.lastActivity.note ctx.peerAddr now).get ctx.peerAddr = some now)
    (hearly : ctx.peerAddr ∈ s.guard.lastActivity.map →
      ∀ t, lastNoted s.notes ctx.peerAddr = some t →
        ¬s.guard.config.idleTimeout.nanos + s.guard.config.gracePeriod.nanos <
          now.durationSince t) : Verdict s ctx now := by
  have hactivity := onActivity_of_ok hcheck
  refine ⟨⟨_, hcheck⟩, ?_, ?_, ?_⟩
  · rw [hactivity]
    refine iff_of_false (by rintro ⟨_, ⟨⟩⟩) ?_
    rintro ⟨hin, t, ht, hlate⟩
    exact hearly hin t ht hlate
  · rw [hactivity]
    rintro _ ⟨⟩
  · intro _
    rw [hactivity]
    exact hnoted

/-- **When an activity does what it should**: exactly if the sum of the two durations is a duration
or the connection is not tracked, and its new entry is not taken for an old one; the latter is so
as long as there are fewer than `2 ^ 64` notes.

**Proof sketch.** The map keeps the time of the last note of a tracked connection. A connection
that is not tracked is noted, and is tracked then by `note_get_iff`; a tracked one is checked, and
the check panics exactly if the sum overflows. -/
theorem verdict_iff (h : (callbacks config).Reach s) (ctx : GuardContext) (now : Instant) :
    (Verdict s ctx now ↔ (config.SumFits ∨ ctx.peerAddr ∉ s.guard.lastActivity.map) ∧
      ¬s.guard.lastActivity.Recycled ctx.peerAddr) ∧
      (s.notes.length + 1 < 2 ^ 64 → ¬s.guard.lastActivity.Recycled ctx.peerAddr) := by
  obtain ⟨hconfig, hr⟩ := LorisWatch.reach_noted h
  obtain ⟨hwf, -⟩ := Noted.wellFormed_of_reach hr
  have hget := BoundedActivityMap.note_get_iff hwf ctx.peerAddr now
  refine ⟨?_, fun hnotes => Noted.not_recycled hr hnotes ctx.peerAddr⟩
  by_cases hin : ctx.peerAddr ∈ s.guard.lastActivity.map
  · obtain ⟨e, he⟩ := Finmap.mem_iff.mp hin
    have hseen : lastNoted s.notes ctx.peerAddr = some e.lastSeen :=
      Noted.lastSeen_of_reach hr ctx.peerAddr e he
    have hrec : ¬s.guard.lastActivity.Recycled ctx.peerAddr := fun hrec => hrec.1 hin
    simp only [hin, not_true_eq_false, or_false, hrec, not_false_eq_true, and_true]
    rw [← hconfig]
    constructor
    · intro hverdict
      by_contra hfits
      obtain ⟨result, hresult⟩ := hverdict.returns
      rw [checkIdle_of_not_sumFits hin hfits] at hresult
      cases hresult
    · intro hfits
      have hcheck := checkIdle_of_sumFits he hfits now
      by_cases hlate : s.guard.config.idleTimeout.nanos + s.guard.config.gracePeriod.nanos <
          now.durationSince e.lastSeen
      · rw [if_pos hlate] at hcheck
        exact .of_error hcheck ⟨hin, e.lastSeen, hseen, hlate⟩
      · rw [if_neg hlate] at hcheck
        refine .of_ok hcheck (hget.mpr hrec) fun _ t ht => ?_
        rw [hseen] at ht
        rwa [← Option.some.inj ht]
  · have hcheck := checkIdle_of_untracked hin now
    simp only [hin, not_false_eq_true, or_true, true_and]
    constructor
    · intro hverdict
      have hsucceeded := hverdict.succeeded
      rw [onActivity_of_ok hcheck] at hsucceeded
      exact hget.mp (hsucceeded rfl)
    · intro hrec
      exact .of_ok hcheck (hget.mpr hrec) fun hmem => absurd hmem hin

/-- With the default durations, `10.0.0.1` connects and is failed for its activity 19 seconds
later. -/
theorem verdict_iff_late :
    ∃ s : LorisWatch, (callbacks {}).Reach s ∧
      Verdict s (.new (.v4 (ipv4 10 0 0 1) 1001) none false 0) (19 * 10 ^ 9) ∧
      ∃ e, (s.guard.onActivity (.new (.v4 (ipv4 10 0 0 1) 1001) none false 0)
        (19 * 10 ^ 9)).1 = .error e := by
  have h : (callbacks {}).Reach _ :=
    .step (l := ⟨.reserve, .new (.v4 (ipv4 10 0 0 1) 1001) none false 0, 0⟩) (.init rfl) rfl
  obtain ⟨hiff, hnew⟩ := verdict_iff h (.new (.v4 (ipv4 10 0 0 1) 1001) none false 0) (19 * 10 ^ 9)
  exact ⟨_, h, hiff.mpr ⟨.inl (by decide), hnew (by decide)⟩, _, rfl⟩

/-- The longest duration. -/
def longest : Duration := ⟨2 ^ 64 * 10 ^ 9 - 1, by decide⟩

/-- **Not every activity does what it should**: with the longest idle timeout, the first activity
of a connection panics. -/
theorem not_forall_verdict :
    ¬∀ (config : SlowLorisConfig) (s : LorisWatch), (callbacks config).Reach s →
      ∀ ctx now, Verdict s ctx now := by
  intro hall
  have h : (callbacks { idleTimeout := longest }).Reach _ :=
    .step (l := ⟨.reserve, .new (.v4 (ipv4 10 0 0 1) 1001) none false 0, 0⟩) (.init rfl) rfl
  obtain ⟨result, hresult⟩ :=
    (hall _ _ h (.new (.v4 (ipv4 10 0 0 1) 1001) none false 0) 1).returns
  cases hresult

end Verdict

end Synclaire
