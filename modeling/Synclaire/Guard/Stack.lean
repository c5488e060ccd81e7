import Mathlib.Data.Finset.Basic
import Synclaire.Guard.Basic

set_option relaxedAutoImplicit false
set_option autoImplicit false

/-!
# The guard stack

A stack asks its guards in order whether a connection may be admitted. A refusal closes the
guards that had accepted, in reverse order, and fails the reservation. This module has the
data of a stack and its sessions, and a reservation in one go; the calls as they interleave
are in `Synclaire.Guard.StackMachine`.

## Main definitions

* `Synclaire.Allowlist` — the addresses that pass unguarded.
* `Synclaire.GuardStack` — guards, observer flag and allowlist.
* `Synclaire.GuardSession` — an admitted connection with its three flags.
* `Synclaire.GuardStack.reserve` — a reservation that runs alone and to its end.

## Main results

* `Synclaire.GuardStack.reserveLoop_error` — what a failed reservation did to each guard.

## Implementation notes

The guards of one stack share the type `G`: a sum of guard types stands for `dyn Guard`. A
call reads the clock anew for each guard, so it takes the readings as a function of the
position of the guard; the event about a guard carries the reading its callback took.
-/

namespace Synclaire

/-! ## The allowlist -/

/-- `Allowlist`. -/
structure Allowlist where
  ips : Finset IpAddr
  deriving DecidableEq

namespace Allowlist

/-- `Allowlist::new`. -/
def new : Allowlist := ⟨∅⟩

/-- `Allowlist::allow`. -/
def allow (l : Allowlist) (ip : IpAddr) : Allowlist := ⟨insert ip l.ips⟩

/-- `Allowlist::remove`: also whether the address was listed. -/
def remove (l : Allowlist) (ip : IpAddr) : Bool × Allowlist :=
  (ip ∈ l.ips, ⟨l.ips.erase ip⟩)

/-- `Allowlist::contains`. -/
def contains (l : Allowlist) (ip : IpAddr) : Bool := ip ∈ l.ips

/-- `Allowlist::clear`. -/
def clear (_ : Allowlist) : Allowlist := ⟨∅⟩

end Allowlist

/-! ## Events -/

/-- A callback of a guard. -/
inductive Callback
  | reserve
  | established
  | payload (bytes : List UInt8)
  | activity
  | close
  deriving DecidableEq

/-- The kind of event that reports a callback. -/
def Callback.kind : Callback → GuardEventKind
  | .reserve => .reserve
  | .established => .established
  | .payload _ => .payload
  | .activity => .activity
  | .close => .close

/-- The detail of the event that reports an accepted callback. -/
def Callback.detail (guard : Str) : Callback → Str
  | .reserve => guard ++ " allowed reservation".toList
  | .established => guard ++ " saw connection established".toList
  | .payload bytes =>
    guard ++ " inspected ".toList ++ decimal bytes.length ++ " payload bytes".toList
  | .activity => guard ++ " saw connection activity".toList
  | .close => guard ++ " saw connection close".toList

/-- The event of an accepted callback. -/
def acceptedEvent (guard : Str) (ctx : GuardContext) (callback : Callback) (now : Instant) :
    GuardEvent :=
  ⟨guard, callback.kind, ctx.peerAddr, .allow, callback.detail guard, now⟩

/-- The event of a refused reservation. -/
def rejectedEvent (guard : Str) (ctx : GuardContext) (err : SynError) (now : Instant) :
    GuardEvent :=
  ⟨guard, .reserve, ctx.peerAddr, .deny (.guardRejected guard err.toStr),
    guard ++ " rejected reservation".toList, now⟩

/-! ## Stacks and sessions -/

/-- `GuardStack`: the guards, whether an observer listens, and the allowlist. -/
structure GuardStack (G : Type*) where
  guards : List G
  observer : Bool
  allowlist : Allowlist
  deriving DecidableEq

/-- `GuardSession`, next to the stack it belongs to. -/
structure GuardSession where
  context : GuardContext
  closed : Bool
  established : Bool
  allowed : Bool
  deriving DecidableEq

/-- A session as `reserve` returns it. -/
def GuardSession.fresh (context : GuardContext) (allowed : Bool) : GuardSession :=
  ⟨context, false, false, allowed⟩

variable {G : Type*} [Guard G]

namespace GuardStack

/-- The loop of `reserve`, over the guards that accepted so far (latest first) and those still
to ask. -/
def reserveLoop (ctx : GuardContext) (clock : ℕ → Instant) (now : Instant) :
    List G → List G → Except SynError Unit × List G × List GuardEvent
  | accepted, [] => (.ok (), accepted.reverse, [])
  | accepted, g :: rest =>
    match Guard.onReserve g ctx (clock accepted.length) with
    | (.ok (), g) =>
      let (result, guards, events) := reserveLoop ctx clock now (g :: accepted) rest
      (result, guards,
        acceptedEvent (Guard.name g) ctx .reserve (clock accepted.length) :: events)
    | (.error err, g) =>
      -- the accepted guards are closed latest first
      (.error (.guardRejected (Guard.name g) err.toStr),
        (accepted.map fun a => Guard.onClose a ctx now).reverse ++ g :: rest,
        [rejectedEvent (Guard.name g) ctx err now])

/-- `GuardStack::reserve`; `now` is the reading a rollback takes. -/
def reserve (stack : GuardStack G) (ctx : GuardContext) (clock : ℕ → Instant) (now : Instant) :
    Except SynError GuardSession × GuardStack G × List GuardEvent :=
  if stack.allowlist.contains ctx.peerIp then (.ok (.fresh ctx true), stack, [])
  else
    let (result, guards, events) := reserveLoop ctx clock now [] stack.guards
    (result.map fun _ => .fresh ctx false, { stack with guards },
      if stack.observer then events else [])

/-! ## What a failed reservation did -/

/-- The state of a guard that accepted and was then closed. -/
def undone (ctx : GuardContext) (reserved closed : Instant) (g : G) : G :=
  Guard.onClose (Guard.onReserve g ctx reserved).2 ctx closed

/-- **A failed loop** stopped at one guard: the ones before it accepted and were closed again,
the guard itself refused, and the later ones were not asked. The guards in `accepted` were
accepted before the loop reached its present position.

**Proof sketch.** Induction on the guards still to ask. If the first of them accepts, it joins
the accepted ones and the induction hypothesis describes the rest; if it refuses, it is the
guard at which the loop stops. -/
theorem reserveLoop_error {ctx : GuardContext} {clock : ℕ → Instant} {now : Instant}
    {accepted rest : List G} {err : SynError} {guards : List G} {events : List GuardEvent}
    (h : reserveLoop ctx clock now accepted rest = (.error err, guards, events)) :
    ∃ pre g post refusal g', rest = pre ++ g :: post ∧
      (∀ i a, pre[i]? = some a →
        (Guard.onReserve a ctx (clock (accepted.length + i))).1 = .ok ()) ∧
      Guard.onReserve g ctx (clock (accepted.length + pre.length)) = (.error refusal, g') ∧
      err = .guardRejected (Guard.name g') refusal.toStr ∧
      guards = (accepted.map fun a => Guard.onClose a ctx now).reverse ++
        pre.mapIdx (fun i a => undone ctx (clock (accepted.length + i)) now a) ++ g' :: post := by
  induction rest generalizing accepted err guards events with
  | nil => simp [reserveLoop] at h
  | cons g rest ih =>
    rw [reserveLoop] at h
    rcases hg : Guard.onReserve g ctx (clock accepted.length) with ⟨_ | _, g'⟩
    · rename_i refusal
      simp only [hg, Prod.mk.injEq, Except.error.injEq] at h
      obtain ⟨rfl, rfl, -⟩ := h
      exact ⟨[], g, rest, refusal, g', rfl, by simp, by simpa using hg, rfl, by simp⟩
    · simp only [hg, Prod.mk.injEq] at h
      obtain ⟨hres, hguards, -⟩ := h
      obtain ⟨pre, b, post, refusal, b', hrest, hacc, hb, herr, hout⟩ :=
        @ih (g' :: accepted) _ _ _ (Prod.ext hres (Prod.ext hguards rfl))
      refine ⟨g :: pre, b, post, refusal, b', by rw [hrest, List.cons_append], ?_, ?_, herr, ?_⟩
      · intro i a hi
        cases i with
        | zero =>
          obtain rfl : g = a := by simpa using hi
          simp [hg]
        | succ i =>
          have := hacc i a (by simpa using hi)
          rwa [List.length_cons, show accepted.length + 1 + i = accepted.length + (i + 1) by
            omega] at this
      · rwa [List.length_cons, show accepted.length + 1 + pre.length =
          accepted.length + (g :: pre).length by simp; omega] at hb
      · rw [hout, List.mapIdx_cons]
        have hundone :
            Guard.onClose g' ctx now = undone ctx (clock (accepted.length + 0)) now g := by
          rw [undone, Nat.add_zero, hg]
        simp only [List.map_cons, List.reverse_cons, List.append_assoc, List.nil_append,
          List.length_cons, hundone, Nat.add_assoc, Nat.add_comm 1, List.cons_append]

end GuardStack

end Synclaire
