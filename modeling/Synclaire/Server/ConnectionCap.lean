import Synclaire.Guard.StackMeter
import Synclaire.Server.Admission

set_option relaxedAutoImplicit false
set_option autoImplicit false

/-!
# The throttle caps the connections that handlers hold

A throttle counts the guarded sessions that are open. A handler that keeps its `Connection` as
long as it has the stream keeps its session open, so the throttle's caps bound the connections
held by running handlers. A handler that calls `into_stream` keeps the stream and closes the
session, and is not counted any more.

## Main definitions

* `Synclaire.ServerState.KeepsConnection` — a step gives up no `Connection` whose stream it
  keeps.
* `Synclaire.ServerState.Kept` — the invariant of the runs of such steps.

## Main results

* `Synclaire.openSessions_le_caps` — the caps bound the open sessions of a built stack.
* `Synclaire.ServerState.held_le_openSessions` — a held connection has an open session.
* `Synclaire.ServerState.held_le_caps` — the caps bound the held connections, in runs of such
  steps.
-/

namespace Synclaire

/-! ## The meter of a throttle -/

/-- The guard is a throttle with this configuration, within its caps. -/
def BuiltinGuard.IsThrottle (config : ThrottleConfig) : BuiltinGuard → Prop
  | .throttle g => g.config = config ∧ g.WithinCaps
  | _ => False

/-- The context belongs to the IP address `ip`. -/
def ofIp (ip : IpAddr) (ctx : GuardContext) : Bool := ctx.peerIp = ip

/-- The context belongs to any address. -/
def ofAny (_ : GuardContext) : Bool := true

/-- The slots a throttle counts for an address. -/
def BuiltinGuard.heldBy (ip : IpAddr) : BuiltinGuard → ℕ
  | .throttle g => g.heldBy ip
  | _ => 0

/-- The slots a throttle counts in total. -/
def BuiltinGuard.global : BuiltinGuard → ℕ
  | .throttle g => g.global
  | _ => 0

/-- Callbacks keep a throttle within its caps. -/
theorem keptByCallbacks_isThrottle (config : ThrottleConfig) :
    StackState.KeptByCallbacks (BuiltinGuard.IsThrottle config) where
  onReserve g ctx now h := by
    cases g with
    | throttle g => exact ⟨(g.acquire_config ctx.peerIp).trans h.1, h.2.acquire ctx.peerIp⟩
    | _ => exact h
  onEstablished g ctx now h := by cases g <;> exact h
  onPayload g ctx bytes now h := by cases g <;> exact h
  onActivity g ctx now h := by cases g <;> exact h
  onClose g ctx now h := by
    cases g with
    | throttle g => exact ⟨(g.release_config ctx.peerIp).trans h.1, h.2.release ctx.peerIp⟩
    | _ => exact h

/-- A throttle counts its sessions, for each address. -/
theorem meter_heldBy (config : ThrottleConfig) (ip : IpAddr) :
    StackState.Meter (BuiltinGuard.IsThrottle config) (BuiltinGuard.heldBy ip) (ofIp ip) where
  kind := keptByCallbacks_isThrottle config
  onReserveOk g ctx now h hr := by
    cases g with
    | throttle g =>
      show (g.acquire ctx.peerIp).2.heldBy ip = _
      rw [Throttle.acquire_ok_heldBy hr]
      simp only [BuiltinGuard.heldBy, ofIp, Table.toNat_decide, eq_comm]
    | _ => exact absurd h id
  onReserveError g ctx now err h hr := by
    cases g with
    | throttle g => exact (Throttle.acquire_error_counts hr).2 ip
    | _ => exact absurd h id
  onEstablished g ctx now h := by cases g <;> rfl
  onPayload g ctx bytes now h := by cases g <;> rfl
  onActivity g ctx now h := by cases g <;> rfl
  onClose g ctx now h := by
    cases g with
    | throttle g =>
      show (g.release ctx.peerIp).heldBy ip = _
      rw [Throttle.release_heldBy]
      simp only [BuiltinGuard.heldBy, ofIp, Table.toNat_decide, eq_comm]
    | _ => exact absurd h id

/-- A throttle counts its sessions, in total. -/
theorem meter_global (config : ThrottleConfig) :
    StackState.Meter (BuiltinGuard.IsThrottle config) BuiltinGuard.global ofAny where
  kind := keptByCallbacks_isThrottle config
  onReserveOk g ctx now h hr := by
    cases g with
    | throttle g =>
      show (g.acquire ctx.peerIp).2.global = _
      rw [Throttle.acquire_ok hr]
      rfl
    | _ => exact absurd h id
  onReserveError g ctx now err h hr := by
    cases g with
    | throttle g => exact (Throttle.acquire_error_counts hr).1
    | _ => exact absurd h id
  onEstablished g ctx now h := by cases g <;> rfl
  onPayload g ctx bytes now h := by cases g <;> rfl
  onActivity g ctx now h := by cases g <;> rfl
  onClose g ctx now h := by
    cases g with
    | throttle g => exact Throttle.release_global g ctx.peerIp
    | _ => exact absurd h id

/-- A throttle has no handle outside the stack. -/
theorem banChange_isThrottle {config : ThrottleConfig} {m : BuiltinGuard → ℕ}
    (g g' : BuiltinGuard) (h : g.BanChange g') (hg : g.IsThrottle config) :
    g'.IsThrottle config ∧ m g' = m g := by
  cases g with
  | throttle g =>
    obtain rfl : g' = .throttle g := h
    exact ⟨hg, rfl⟩
  | _ => exact absurd hg id

/-- **The caps bound the open sessions** of every stack that was built with a throttle, for
each address and in total.

**Proof sketch.** The throttle shows at least the open sessions (`Meter.openSessions_le`), and
it stays within its caps. -/
theorem openSessions_le_caps {config : GuardStackConfig} {cap : ThrottleConfig}
    (hcap : config.throttle = some cap) {start : Instant} {s : StackState BuiltinGuard}
    (h : (builtSystem config start).Reach s) :
    (∀ ip, s.openSessions (ofIp ip) ≤ cap.maxConnectionsPerIp) ∧
      s.openSessions ofAny ≤ cap.maxConnectionsGlobal := by
  obtain ⟨j, hj⟩ : ∃ j : ℕ, (buildGuardStack config start).guards[j]? =
      some (BuiltinGuard.throttle (.new cap)) :=
    List.mem_iff_getElem?.mp (by simp [buildGuardStack, hcap])
  have hnew : BuiltinGuard.IsThrottle cap (.throttle (.new cap)) :=
    ⟨rfl, Nat.zero_le _, fun _ => Nat.zero_le _⟩
  have hlen := StackState.length_guards_of_reach h
  obtain ⟨g, hg⟩ : ∃ g, s.guards[j]? = some g :=
    ⟨_, List.getElem?_eq_getElem (hlen ▸ (List.getElem?_eq_some_iff.mp hj).1)⟩
  have hkind : g.IsThrottle cap :=
    ((meter_global cap).add_closes banChange_isThrottle hj hnew rfl h g hg).1
  have hperIp := fun ip =>
    (meter_heldBy cap ip).openSessions_le banChange_isThrottle hj hnew rfl h hg
  have hglobal := (meter_global cap).openSessions_le banChange_isThrottle hj hnew rfl h hg
  cases g with
  | throttle g =>
    obtain ⟨rfl, hwithin⟩ := hkind
    exact ⟨fun ip => (hperIp ip).trans (hwithin.2 ip), hglobal.trans hwithin.1⟩
  | _ => exact absurd hkind id

/-! ## Who keeps a session -/

/-- The stream leaves the `Connection`, or the `Connection` is dropped, only together with the
handler's hold on the stream. -/
def ServerState.KeepsConnection (s : ServerState) (a : ServerAction) (_ : ServerState) : Prop :=
  match a with
  | .intoStream _ => False
  | .dropConnection k => ∀ streams, s.custody[k]? = some (.handling true streams) → streams = 0
  | _ => True

/-- A handler that has a handle on the stream has the `Connection` as well. -/
def Custody.Kept : Custody → Prop
  | .handling false streams => streams = 0
  | _ => True

/-- The session was not dropped. -/
def Custody.keepsSession : Custody → Bool
  | .opening => true
  | .establishing _ => true
  | .handling connection _ => connection
  | .finished => false

/-- A kept connection is held through its `Connection`. -/
theorem Custody.Kept.keepsSession {custody : Custody} (h : custody.Kept)
    (hholds : custody.holdsStream = true) : custody.keepsSession = true := by
  cases custody with
  | handling connection streams =>
    cases connection with
    | true => rfl
    | false =>
      obtain rfl : streams = 0 := h
      exact absurd hholds (by decide)
  | _ => first | rfl | exact absurd hholds (by decide)

namespace ServerState

/-- A session that is not one of the allowlist, in the custody of someone who has its stream
only through the `Connection`: it is open as long as it is kept. -/
structure KeptRow (custody : Custody) (slot : SessionSlot) : Prop where
  guarded : slot.session.allowed = false
  kept : custody.Kept
  unclosed : custody.keepsSession = true → slot.session.closed = false

/-- What holds in every run whose steps keep the connections. -/
structure Kept (s : ServerState) : Prop where
  allowlist : s.stack.allowlist = .new
  rows : List.Forall₂ KeptRow s.custody s.stack.sessions

variable {flavor : ServerFlavor} {s s' : ServerState} {a : ServerAction}

/-- A step of the stack that belongs to a change of custody is a call on that session. -/
theorem Handover.action_ne {n k : ℕ} {old new : Custody} {action : StackAction BuiltinGuard}
    (h : Handover n k a old (some action) new) :
    (¬∃ ctx, action = .reserve ctx) ∧ (¬∃ c now, action = .advance c now) ∧
      (∀ i g, action ≠ .env i g) ∧ (∀ ip, action ≠ .allow ip) ∧ (∀ ip, action ≠ .remove ip) ∧
      action ≠ .clear := by
  cases h <;> simp

/-- Nobody comes to keep a session that was not kept. -/
theorem Handover.keepsSession {n k : ℕ} {old new : Custody}
    {action : Option (StackAction BuiltinGuard)} (h : Handover n k a old action new)
    (hnew : new.keepsSession = true) : old.keepsSession = true := by
  cases h <;> first | rfl | exact hnew

/-- A session is dropped by the one who does not keep it any more. -/
theorem Handover.closes {n k k' : ℕ} {old new : Custody} {action : StackAction BuiltinGuard}
    (h : Handover n k a old (some action) new) (hcloses : action = .close k' ∨ action = .drop k') :
    k' = k ∧ new.keepsSession = false := by
  cases h <;> simp_all [Custody.keepsSession]

/-- A step that keeps the connections leaves a kept connection kept. -/
theorem Handover.kept {n k : ℕ} {old new : Custody} {action : Option (StackAction BuiltinGuard)}
    (h : Handover n k a old action new) (hold : s.custody[k]? = some old)
    (hkeeps : s.KeepsConnection a s') (hkept : old.Kept) : new.Kept := by
  cases h with
  | intoStream => exact hkeeps.elim
  | @dropConnection streams => exact hkeeps streams hold
  | @cloneStream connection streams hheld =>
    cases connection with
    | true => trivial
    | false =>
      obtain rfl : streams = 0 := hkept
      exact absurd hheld (by decide)
  | @dropStream connection streams =>
    cases connection with
    | true => trivial
    | false => exact absurd hkept (Nat.succ_ne_zero streams)
  | _ => trivial

/-- The step of the stack that belongs to a step of a server. -/
theorem stack_step (h : s.next flavor a = some s') :
    s'.stack = s.stack ∨ ∃ action, s.stack.next action = some s'.stack ∧
      (∀ i g, action ≠ .env i g) ∧ (∀ ip, action ≠ .allow ip) ∧ (∀ ip, action ≠ .remove ip) ∧
      action ≠ .clear := by
  rcases next_cases h with ⟨action, stack, hreserve, hstack, rfl⟩ |
    ⟨k, old, action, new, hold, hover, hdone⟩
  · refine .inr ⟨action, hstack, ?_⟩
    rcases hreserve with ⟨ctx, rfl⟩ | ⟨c, now, rfl⟩ <;> simp
  · cases action with
    | none =>
      obtain rfl := hdone
      exact .inl rfl
    | some action =>
      obtain ⟨stack, hstack, rfl⟩ := hdone
      exact .inr ⟨action, hstack, hover.action_ne.2.2⟩

/-- **The stack of a server runs like a stack**, without changes from outside. -/
theorem reach_stack {config : GuardStackConfig} {start : Instant}
    (h : (serverSystem flavor config start).Reach s) :
    (builtSystem config start).Reach s.stack := by
  refine Transition.System.Reach.invariant
    (I := fun s : ServerState => (builtSystem config start).Reach s.stack) ?_ ?_ h
  · rintro _ rfl
    exact .init rfl
  · intro s a s' _ hI hstep
    rcases stack_step hstep with heq | ⟨action, hstack, henv, -⟩
    · rw [heq]
      exact hI
    · exact .step hI ⟨hstack, fun i g hi => absurd hi (henv i g)⟩

/-- The stack moves in a reservation: a new session is kept by the server. -/
theorem KeptRow.withStack {stack : StackState BuiltinGuard} {action : StackAction BuiltinGuard}
    (h : s.Kept) (hreserve : (∃ ctx, action = .reserve ctx) ∨ ∃ c now, action = .advance c now)
    (hstack : s.stack.next action = some stack) :
    List.Forall₂ KeptRow (s.withStack stack).custody stack.sessions := by
  have hcustody : (s.withStack stack).custody = s.custody ++
      List.replicate (stack.sessions.length - s.stack.sessions.length) .opening := rfl
  rcases StackState.next_sessions hstack with heq |
    ⟨ctx, owner, allowed, -, heq, hlisted⟩ | ⟨k, slot, slot', hslot, heq, -, hallowed, hclosed⟩
  · rw [hcustody, heq, Nat.sub_self, List.replicate_zero, List.append_nil]
    exact h.rows
  · have hguarded : allowed = false := by
      rw [← Bool.not_eq_true]
      intro hallowed
      have hmem := hlisted hallowed
      rw [h.allowlist] at hmem
      simp [Allowlist.contains, Allowlist.new] at hmem
    rw [hcustody, heq, List.length_append, Nat.add_sub_cancel_left]
    exact List.rel_append h.rows (.cons ⟨hguarded, trivial, fun _ => rfl⟩ .nil)
  · have hsame : slot'.session.closed = slot.session.closed := by
      rcases hclosed with hclosed | rfl | rfl
      · exact hclosed
      · rcases hreserve with ⟨_, h⟩ | ⟨_, _, h⟩ <;> cases h
      · rcases hreserve with ⟨_, h⟩ | ⟨_, _, h⟩ <;> cases h
    rw [hcustody, heq, List.length_set, Nat.sub_self, List.replicate_zero, List.append_nil]
    exact Table.forall₂_set_right h.rows hslot fun custody _ hrow =>
      ⟨hallowed.trans hrow.guarded, hrow.kept, fun hkeeps => hsame.trans (hrow.unclosed hkeeps)⟩

/-- The custody of a session changes, together with a step of the stack or not. -/
theorem KeptRow.handOver {k : ℕ} {old new : Custody} {action : Option (StackAction BuiltinGuard)}
    (h : s.Kept) (hold : s.custody[k]? = some old)
    (hover : Handover s.stack.calls.length k a old action new)
    (hdone : s.HandedOver k new action s')
    (hkeeps : s.KeepsConnection a s') : List.Forall₂ KeptRow s'.custody s'.stack.sessions := by
  have hrows : List.Forall₂ KeptRow (s.custody.set k new) s.stack.sessions :=
    Table.forall₂_set_left h.rows hold fun slot hrow => ⟨hrow.guarded,
      hover.kept hold hkeeps hrow.kept, fun hnew => hrow.unclosed (hover.keepsSession hnew)⟩
  cases action with
  | none =>
    obtain rfl := hdone
    exact hrows
  | some action =>
    obtain ⟨stack, hstack, rfl⟩ := hdone
    show List.Forall₂ KeptRow (s.custody.set k new) stack.sessions
    rcases StackState.next_sessions hstack with heq | ⟨_, _, _, hreserve, -⟩ |
      ⟨i, slot, slot', hslot, heq, -, hallowed, hclosed⟩
    · rw [heq]
      exact hrows
    · rcases hreserve with hreserve | hreserve
      · exact absurd hreserve hover.action_ne.1
      · exact absurd hreserve hover.action_ne.2.1
    · rw [heq]
      refine Table.forall₂_set_right hrows hslot fun custody hi hrow =>
        ⟨hallowed.trans hrow.guarded, hrow.kept, fun howns => ?_⟩
      rcases hclosed with hclosed | hclosed
      · exact hclosed.trans (hrow.unclosed howns)
      · -- a session is closed in the hands of the one who drops it
        obtain ⟨rfl, hdropped⟩ := hover.closes hclosed
        rcases (Table.getElem?_set_eq_some hold).mp hi with ⟨-, rfl⟩ | ⟨hne, -⟩
        · exact Bool.noConfusion (hdropped.symm.trans howns)
        · exact absurd rfl hne

/-- **One step of a kept run.** -/
theorem Kept.step (h : s.Kept) (hstep : s.next flavor a = some s')
    (hkeeps : s.KeepsConnection a s') : s'.Kept := by
  constructor
  · rcases stack_step hstep with heq | ⟨action, hstack, -, hallow, hremove, hclear⟩
    · rw [heq]
      exact h.allowlist
    · rcases StackState.next_allowlist hstack with heq | ⟨ip, hip⟩ | ⟨ip, hip⟩ | hclears
      · exact heq.trans h.allowlist
      · exact absurd hip (hallow ip)
      · exact absurd hip (hremove ip)
      · exact absurd hclears hclear
  · rcases next_cases hstep with ⟨action, stack, hreserve, hstack, rfl⟩ |
      ⟨k, old, action, new, hold, hover, hdone⟩
    · exact KeptRow.withStack h hreserve hstack
    · exact KeptRow.handOver h hold hover hdone hkeeps

/-- In a kept state the held connections are among the open sessions.

**Proof sketch.** Row by row: a kept connection that is held keeps its session, so the session
is open. -/
theorem Kept.held_le_openSessions (h : s.Kept) (P : GuardContext → Bool) :
    s.held P ≤ s.stack.openSessions P := by
  have hrows := h.rows
  unfold held StackState.openSessions
  generalize s.custody = custody, s.stack.sessions = sessions at hrows
  induction hrows with
  | nil => exact Nat.le_refl _
  | @cons custody slot custodies slots hrow _ ih =>
    rw [List.zip_cons_cons]
    by_cases hheld : isHeld P (custody, slot) = true
    · obtain ⟨hP, hholds⟩ := Bool.and_eq_true_iff.mp hheld
      have hopen : StackState.isOpen P slot = true := by
        rw [StackState.isOpen, hP, hrow.guarded, hrow.unclosed (hrow.kept.keepsSession hholds)]
        rfl
      rw [List.countP_cons_of_pos hheld, List.countP_cons_of_pos hopen]
      exact Nat.succ_le_succ ih
    · rw [List.countP_cons_of_neg hheld]
      exact ih.trans (List.sublist_cons_self slot slots).countP_le

/-- **The caps bound the held connections**, for each address and in total, in every run in
which no handler gives up its `Connection` while it has a handle on the stream.

**Proof sketch.** Such runs keep every held connection's session open, and the caps bound the
open sessions. -/
theorem held_le_caps {config : GuardStackConfig} {cap : ThrottleConfig}
    (hcap : config.throttle = some cap) {start : Instant}
    (h : ((serverSystem flavor config start).restrict KeepsConnection).Reach s) :
    (∀ ip, s.held (ofIp ip) ≤ cap.maxConnectionsPerIp) ∧
      s.held ofAny ≤ cap.maxConnectionsGlobal := by
  have hkept : s.Kept := by
    refine Transition.System.Reach.invariant (I := Kept) ?_ ?_ h
    · rintro _ rfl
      exact ⟨rfl, .nil⟩
    · exact fun s a s' _ hI hstep => hI.step hstep.1 hstep.2
  obtain ⟨hperIp, hglobal⟩ := openSessions_le_caps hcap (reach_stack h.of_restrict)
  exact ⟨fun ip => (hkept.held_le_openSessions _).trans (hperIp ip),
    (hkept.held_le_openSessions _).trans hglobal⟩

/-! ## A handler that takes the stream -/

/-- One connection for each address. -/
def singleConfig : GuardStackConfig where
  throttle := some { maxConnectionsPerIp := 1 }

/-- A connection of `10.0.0.1` is reserved in call `c` of the stack, marked established in the
next one, and reaches its handler as session `k`. -/
def connectRun (port : UInt16) (c k : ℕ) : List ServerAction :=
  [.accept (.v4 (ipv4 10 0 0 1) port) none false 0, .advance c 0, .advance c 0, .opened k,
    .advance (c + 1) 0, .advance (c + 1) 0, .established k]

/-- The state after a list of actions of a server with one connection for each address. -/
def singleState (flavor : ServerFlavor) (actions : List ServerAction) : ServerState :=
  Transition.System.after (next flavor) (start singleConfig 0) actions

/-- A handler has cloned its socket and dropped the clone. -/
def clonedRun : List ServerAction := connectRun 1001 0 0 ++ [.cloneStream 0, .dropStream 0]

/-- The state after these actions is reachable in a run that keeps every connection. -/
theorem clonedRun_reach :
    ((serverSystem .sync singleConfig 0).restrict KeepsConnection).Reach
      (singleState .sync clonedRun) := by
  refine Transition.System.reach_after (.init rfl) fun a ha _ _ hnext => ⟨hnext, ?_⟩
  simp only [clonedRun, connectRun, List.mem_append, List.mem_cons, List.not_mem_nil,
    or_false] at ha
  rcases ha with (rfl | rfl | rfl | rfl | rfl | rfl | rfl) | rfl | rfl <;> trivial

/-- The bounds, for that handler. -/
theorem held_le_caps_clonedRun :
    (∀ ip, (singleState .sync clonedRun).held (ofIp ip) ≤ 1) ∧
      (singleState .sync clonedRun).held ofAny ≤ 100000 :=
  have hcap : singleConfig.throttle = some { maxConnectionsPerIp := 1 } := rfl
  held_le_caps hcap clonedRun_reach

/-- A handler takes its stream, like the one of an echo server: its session closes, the throttle
has room for a second connection of the address, and two handlers hold a stream. -/
def intoStreamState (flavor : ServerFlavor) : ServerState :=
  singleState flavor (connectRun 1001 0 0 ++ [.intoStream 0, .advance 2 0, .advance 2 0] ++
    connectRun 1002 3 1 ++ [.intoStream 1])

/-- The caps do not bound the held connections in every run, of either server. -/
theorem not_forall_held_le_caps :
    ¬∃ flavor, ∀ (config : GuardStackConfig) (cap : ThrottleConfig),
      config.throttle = some cap → ∀ (start : Instant) (s : ServerState),
        (serverSystem flavor config start).Reach s →
          (∀ ip, s.held (ofIp ip) ≤ cap.maxConnectionsPerIp) ∧
            s.held ofAny ≤ cap.maxConnectionsGlobal := by
  rintro ⟨flavor, hall⟩
  have hreach : (serverSystem flavor singleConfig 0).Reach (intoStreamState flavor) :=
    Transition.System.reach_after (.init rfl) fun _ _ _ _ hnext => hnext
  have hcap := (hall singleConfig _ rfl 0 _ hreach).1 (.v4 (ipv4 10 0 0 1))
  have hheld : ∀ flavor, (intoStreamState flavor).held (ofIp (.v4 (ipv4 10 0 0 1))) = 2 := by
    intro flavor
    cases flavor <;> decide +kernel
  rw [hheld] at hcap
  exact absurd hcap (by decide)

end ServerState

end Synclaire
