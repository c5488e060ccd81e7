import Synclaire.Lib.Transition
import Synclaire.Guard.Throttle

set_option relaxedAutoImplicit false
set_option autoImplicit false

/-!
# The addresses the throttle keeps

`acquire` makes the entry of an address before it checks the limit of the address, and a refusal
takes back the count but not the entry. The calls come in any order; the slots that were granted
and not given back yet are kept beside the guard, so that a release is one of a held slot.

## Main definitions

* `Synclaire.SlotWatch` — the throttle beside the slots held.
* `Synclaire.slotCalls` — the transition system of acquires and paired releases.
* `Synclaire.SlotWatch.Exact` — the map has an entry for exactly the addresses that hold a slot.

## Main results

* `Synclaire.SlotWatch.counted_of_reach` — the counters are those of the held slots.
* `Synclaire.exact_iff` — when the map is exact all along a run.
-/

namespace Synclaire

open Transition

/-- A call of the throttle. -/
inductive SlotCall
  | acquire (ip : IpAddr)
  | release (ip : IpAddr)
  deriving DecidableEq

/-- The throttle, and the address of every slot that is held. -/
structure SlotWatch where
  guard : Throttle
  slots : List IpAddr
  deriving DecidableEq

namespace SlotWatch

/-- A call: an acquire takes a slot if it succeeds, and a release needs a slot to give back. -/
def next (s : SlotWatch) : SlotCall → Option SlotWatch
  | .acquire ip =>
    match s.guard.acquire ip with
    | (.ok (), guard) => some ⟨guard, ip :: s.slots⟩
    | (.error _, guard) => some { s with guard }
  | .release ip => if ip ∈ s.slots then some ⟨s.guard.release ip, s.slots.erase ip⟩ else none

/-- The throttle before its first call. -/
def start (config : ThrottleConfig) : SlotWatch := ⟨.new config, []⟩

/-- The map has an entry for exactly the addresses that hold a slot, and no more entries than
there may be connections. -/
structure Exact (s : SlotWatch) : Prop where
  mem_iff : ∀ ip, ip ∈ s.guard.perIp ↔ ip ∈ s.slots
  card_le : s.guard.perIp.keys.card ≤ s.guard.config.maxConnectionsGlobal

end SlotWatch

/-- All acquires, and the releases of slots that are held, in any order. -/
def slotCalls (config : ThrottleConfig) : System SlotWatch SlotCall :=
  .ofFn (.start config) SlotWatch.next

/-- A refused acquire leaves no trace in the throttle. -/
def RefusalTraceless (x : Taken SlotWatch SlotCall) : Prop :=
  ∀ ip e, x.label = .acquire ip → (x.source.guard.acquire ip).1 = .error e →
    x.target.guard = x.source.guard

/-! ## The counters -/

/-- The counters are those of the held slots, and within the caps. -/
structure SlotWatch.Counted (config : ThrottleConfig) (s : SlotWatch) : Prop where
  config_eq : s.guard.config = config
  global : s.guard.global = s.slots.length
  heldBy : ∀ ip, s.guard.heldBy ip = s.slots.count ip
  within : s.guard.WithinCaps
  noZero : s.guard.NoZeroEntry

section Counted

variable {config : ThrottleConfig} {s s' : SlotWatch} {ip : IpAddr}

/-- What a call does. -/
theorem SlotWatch.next_cases {a : SlotCall} (h : s.next a = some s') :
    (∃ ip, a = .acquire ip ∧ (s.guard.acquire ip).1 = .ok () ∧
      s' = ⟨(s.guard.acquire ip).2, ip :: s.slots⟩) ∨
    (∃ ip e, a = .acquire ip ∧ (s.guard.acquire ip).1 = .error e ∧
      s' = ⟨(s.guard.acquire ip).2, s.slots⟩) ∨
    (∃ ip, a = .release ip ∧ ip ∈ s.slots ∧ s' = ⟨s.guard.release ip, s.slots.erase ip⟩) := by
  cases a with
  | acquire ip =>
    unfold SlotWatch.next at h
    dsimp only at h
    rcases hacquire : s.guard.acquire ip with ⟨_ | _, guard⟩
    · rw [hacquire] at h
      refine .inr (.inl ⟨ip, _, rfl, congrArg Prod.fst hacquire, ?_⟩)
      rw [hacquire]
      exact (Option.some.inj h).symm
    · rw [hacquire] at h
      refine .inl ⟨ip, rfl, congrArg Prod.fst hacquire, ?_⟩
      rw [hacquire]
      exact (Option.some.inj h).symm
  | release ip =>
    unfold SlotWatch.next at h
    dsimp only at h
    split_ifs at h with hheld
    exact .inr (.inr ⟨ip, rfl, hheld, (Option.some.inj h).symm⟩)

/-- The counters stay those of the held slots. -/
theorem SlotWatch.Counted.next {a : SlotCall} (h : s.Counted config) (hnext : s.next a = some s') :
    s'.Counted config := by
  obtain ⟨ip, rfl, hok, rfl⟩ | ⟨ip, e, rfl, herror, rfl⟩ | ⟨ip, rfl, hheld, rfl⟩ :=
    SlotWatch.next_cases hnext
  · refine ⟨(Throttle.acquire_config _ _).trans h.config_eq, ?_, fun a => ?_,
      h.within.acquire ip, h.noZero.acquire ip⟩
    · rw [Throttle.acquire_ok hok, List.length_cons, h.global]
    · rw [Throttle.acquire_ok_heldBy hok, h.heldBy, List.count_cons]
      exact congrArg _ (if_congr (by rw [beq_iff_eq, eq_comm]) rfl rfl)
  · obtain ⟨hglobal, hsame⟩ := Throttle.acquire_error_counts herror
    exact ⟨(Throttle.acquire_config _ _).trans h.config_eq, hglobal.trans h.global,
      fun a => (hsame a).trans (h.heldBy a), h.within.acquire ip, h.noZero.acquire ip⟩
  · refine ⟨(Throttle.release_config _ _).trans h.config_eq, ?_, fun a => ?_,
      h.within.release ip, h.noZero.release ip⟩
    · rw [Throttle.release_global, h.global, List.length_erase_of_mem hheld]
    · rw [Throttle.release_heldBy, h.heldBy, List.count_erase]
      exact congrArg _ (if_congr (by rw [beq_iff_eq, eq_comm]) rfl rfl)

/-- In every reachable state the counters are those of the held slots. -/
theorem SlotWatch.counted_of_reach (h : (slotCalls config).Reach s) : s.Counted config := by
  refine h.invariant (I := SlotWatch.Counted config) ?_ fun _ _ _ _ hs hstep => hs.next hstep
  rintro _ rfl
  exact ⟨rfl, rfl, fun _ => rfl, ⟨Nat.zero_le _, fun _ => Nat.zero_le _⟩, .inr fun _ => nofun⟩

/-- Without a cap of zero for each address, the map is exact: no entry counts nothing.

**Proof sketch.** An entry is there exactly if it counts a slot. So the entries are no more than
the slots, and these are as many as the total counts. -/
theorem SlotWatch.Counted.exact (h : s.Counted config) (hcap : 0 < config.maxConnectionsPerIp) :
    s.Exact := by
  have hmem : ∀ ip, ip ∈ s.guard.perIp ↔ ip ∈ s.slots := by
    intro ip
    have hheld := h.heldBy ip
    rw [← List.count_pos_iff, ← hheld, Throttle.heldBy, Finmap.mem_iff]
    cases hlookup : s.guard.perIp.lookup ip with
    | none => simp
    | some count =>
      have hpos : count ≠ 0 := by
        rintro rfl
        rcases h.noZero with hzero | hzero
        · rw [h.config_eq] at hzero
          omega
        · exact hzero ip hlookup
      simpa using Nat.pos_of_ne_zero hpos
  refine ⟨hmem, ?_⟩
  calc s.guard.perIp.keys.card
      ≤ s.slots.toFinset.card := Finset.card_le_card fun ip hip =>
        List.mem_toFinset.mpr ((hmem ip).mp (Finmap.mem_keys.mp hip))
    _ ≤ s.slots.length := s.slots.toFinset_card_le
    _ = s.guard.global := h.global.symm
    _ ≤ s.guard.config.maxConnectionsGlobal := h.within.global

/-- With a cap of zero for each address, no slot is ever held. -/
theorem SlotWatch.Counted.slots_eq_nil (h : s.Counted config)
    (hcap : config.maxConnectionsPerIp = 0) : s.slots = [] := by
  refine List.eq_nil_iff_forall_not_mem.mpr fun ip hip => ?_
  have hle := h.within.perIp ip
  rw [h.heldBy, h.config_eq, hcap] at hle
  exact absurd (List.count_pos_iff.mpr hip) (by omega)

/-- Refusals leave the throttle as it was, unless the cap for each address is zero. -/
theorem SlotWatch.Counted.acquire_error {e : SynError} (h : s.Counted config)
    (hcap : 0 < config.maxConnectionsPerIp) (herror : (s.guard.acquire ip).1 = .error e) :
    (s.guard.acquire ip).2 = s.guard := by
  rcases Throttle.acquire_error herror with heq | ⟨hfull, heq⟩
  · exact heq
  · rw [h.config_eq] at hfull
    -- the entry that the refusal writes is there already
    have hlookup : s.guard.perIp.lookup ip = some (s.guard.heldBy ip) := by
      unfold Throttle.heldBy at hfull ⊢
      cases hentry : s.guard.perIp.lookup ip with
      | none =>
        rw [hentry, Option.getD_none] at hfull
        omega
      | some count => rfl
    rw [heq, FMap.insert_of_lookup hlookup]

end Counted

/-! ## The exact condition -/

section Exact

variable {config : ThrottleConfig} {s s' : SlotWatch}

/-- The total cap of zero refuses before anything is touched. -/
theorem acquire_of_global_zero {g : Throttle} (h : g.config.maxConnectionsGlobal = 0)
    (ip : IpAddr) : ∃ e, g.acquire ip = (.error e, g) := by
  refine ⟨.throttled "global".toList g.config.maxConnectionsGlobal, ?_⟩
  unfold Throttle.acquire
  dsimp only
  rw [if_pos (by omega)]

/-- With a cap of zero for each address only, an acquire leaves an entry that counts nothing. -/
theorem SlotWatch.Counted.not_exact_acquire {ip : IpAddr} (h : s.Counted config)
    (hcap : config.maxConnectionsPerIp = 0) (hglobal : 0 < config.maxConnectionsGlobal)
    (hnext : s.next (.acquire ip) = some s') : ¬s'.Exact := by
  have hnone := h.slots_eq_nil hcap
  have htotal : s.guard.global = 0 := by rw [h.global, hnone]; rfl
  have hacquire : (s.guard.acquire ip).2.perIp = s.guard.perIp.insert ip (s.guard.heldBy ip) := by
    unfold Throttle.acquire
    dsimp only
    rw [htotal, h.config_eq, if_neg (by omega), if_pos (by omega)]
    rfl
  have hslots := (h.next hnext).slots_eq_nil hcap
  have hguard : s'.guard = (s.guard.acquire ip).2 := by
    obtain ⟨_, hlabel, -, rfl⟩ | ⟨_, _, hlabel, -, rfl⟩ | ⟨_, hlabel, -, -⟩ :=
      SlotWatch.next_cases hnext
    · cases hlabel
      rfl
    · cases hlabel
      rfl
    · cases hlabel
  intro hexact
  have hmem : ip ∈ s'.guard.perIp := by
    rw [hguard, hacquire]
    exact Finmap.mem_insert.mpr (.inl rfl)
  have hslot := (hexact.mem_iff ip).mp hmem
  rw [hslots] at hslot
  cases hslot

/-- A run that makes no acquire, or none that passes the total cap, changes nothing. -/
theorem SlotWatch.target_eq_start {tr : List (Taken SlotWatch SlotCall)}
    (h : (slotCalls config).Run s tr s') (hs : s = .start config)
    (hidle : config.maxConnectionsGlobal = 0 ∨ ∀ x ∈ tr, ∀ ip, x.label ≠ .acquire ip) :
    ∀ x ∈ tr, x.source = .start config ∧ x.target = .start config := by
  induction h with
  | nil => exact fun x hx => absurd hx List.not_mem_nil
  | @cons s t u a tr hstep _ ih =>
    have ht : t = .start config := by
      subst hs
      obtain ⟨ip, rfl, hok, -⟩ | ⟨ip, e, rfl, -, rfl⟩ | ⟨ip, rfl, hheld, -⟩ :=
        SlotWatch.next_cases hstep
      · rcases hidle with hzero | hnone
        · obtain ⟨e, he⟩ := acquire_of_global_zero (g := (SlotWatch.start config).guard) hzero ip
          rw [he] at hok
          cases hok
        · exact absurd rfl (hnone _ (.head _) ip)
      · rcases hidle with hzero | hnone
        · obtain ⟨e, he⟩ := acquire_of_global_zero (g := (SlotWatch.start config).guard) hzero ip
          rw [he]
        · exact absurd rfl (hnone _ (.head _) ip)
      · cases hheld
    refine List.forall_mem_cons.mpr ⟨⟨hs, ht⟩, ih ht ?_⟩
    exact hidle.imp_right fun hnone => (List.forall_mem_cons.mp hnone).2

/-- **When the map is exact**: after every call of a run the map has an entry for exactly the
addresses that hold a slot, at most as many as the total cap, and no refusal leaves a trace, if and
only if the cap for each address is not zero, or the total cap is, or nothing is ever acquired.

**Proof sketch.** If the cap for each address is positive, an entry always counts a slot. If it is
zero, no slot is ever held, and the first acquire that passes the total cap leaves an entry. -/
theorem exact_iff {tr : List (Taken SlotWatch SlotCall)}
    (h : (slotCalls config).Run (.start config) tr s) :
    (∀ x ∈ tr, x.target.Exact ∧ RefusalTraceless x) ↔
      0 < config.maxConnectionsPerIp ∨ config.maxConnectionsGlobal = 0 ∨
        ∀ x ∈ tr, ∀ ip, x.label ≠ .acquire ip := by
  have hcounted : ∀ x ∈ tr, x.source.Counted config ∧ x.source.next x.label = some x.target :=
    fun x hx => (h.taken (.init rfl) hx).imp_left SlotWatch.counted_of_reach
  constructor
  · intro hall
    by_contra hcon
    obtain ⟨hcap, hrest⟩ := not_or.mp hcon
    obtain ⟨hglobal, hacquire⟩ := not_or.mp hrest
    push Not at hacquire
    obtain ⟨x, hx, ip, hlabel⟩ := hacquire
    obtain ⟨hcount, hnext⟩ := hcounted x hx
    rw [hlabel] at hnext
    exact hcount.not_exact_acquire (by omega) (by omega) hnext (hall x hx).1
  · rintro (hcap | hidle) x hx
    · obtain ⟨hcount, hnext⟩ := hcounted x hx
      refine ⟨(hcount.next hnext).exact hcap, fun ip e hlabel herror => ?_⟩
      obtain ⟨ip', hlabel', hok, -⟩ | ⟨ip', e', hlabel', -, heq⟩ | ⟨ip', hlabel', -, -⟩ :=
        SlotWatch.next_cases hnext
      · cases hlabel.symm.trans hlabel'
        rw [hok] at herror
        cases herror
      · cases hlabel.symm.trans hlabel'
        rw [heq]
        exact hcount.acquire_error hcap herror
      · cases hlabel.symm.trans hlabel'
    · obtain ⟨hsource, htarget⟩ := SlotWatch.target_eq_start h rfl hidle x hx
      rw [htarget]
      refine ⟨⟨fun ip => iff_of_false Finmap.notMem_empty List.not_mem_nil, Nat.zero_le _⟩, ?_⟩
      rintro - - - -
      rw [hsource, htarget]

/-- With one slot for each address, a second acquire of `10.0.0.1` is refused, `10.0.0.2` takes a
slot and the first is given back. -/
theorem exact_iff_three :
    ∃ tr s, (slotCalls ⟨1, 2⟩).Run (.start ⟨1, 2⟩) tr s ∧
      s.guard.perIp.keys = {.v4 (ipv4 10 0 0 2)} ∧
      ∀ x ∈ tr, x.target.Exact ∧ RefusalTraceless x := by
  have h : (slotCalls ⟨1, 2⟩).Run (.start ⟨1, 2⟩) _ _ :=
    .cons (l := .acquire (.v4 (ipv4 10 0 0 1))) (by rfl)
      (.cons (l := .acquire (.v4 (ipv4 10 0 0 1))) (by rfl)
        (.cons (l := .acquire (.v4 (ipv4 10 0 0 2))) (by rfl)
          (.cons (l := .release (.v4 (ipv4 10 0 0 1))) (by rfl) (.nil _))))
  exact ⟨_, _, h, by decide +kernel, (exact_iff h).mpr (.inl (by decide))⟩

/-- **The map is not always exact**: with a cap of zero for each address, a refused acquire leaves
an entry. -/
theorem not_forall_exact :
    ¬∀ (config : ThrottleConfig) (tr : List (Taken SlotWatch SlotCall)) (s : SlotWatch),
      (slotCalls config).Run (.start config) tr s →
        ∀ x ∈ tr, x.target.Exact ∧ RefusalTraceless x := by
  intro hall
  have h : (slotCalls ⟨0, 2⟩).Run (.start ⟨0, 2⟩) _ _ :=
    .cons (l := .acquire (.v4 (ipv4 10 0 0 1))) (by rfl) (.nil _)
  have hmem := ((hall _ _ _ h _ (.head _)).1.mem_iff (.v4 (ipv4 10 0 0 1))).mp (by decide +kernel)
  cases hmem

end Exact

end Synclaire
