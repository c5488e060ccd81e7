import Synclaire.Lib.Table
import Synclaire.Proxy.Forward

set_option relaxedAutoImplicit false
set_option autoImplicit false

/-!
# Rotating the credentials of a proxy

A proxy server and its owner share a handle on the credentials. A connection copies them when it
begins and validates its header against the copy, however many reads later. Setting the
credentials between the two has no effect on that connection.

## Main definitions

* `Synclaire.ProxyAuthHandle` — the shared credentials.
* `Synclaire.RotationState`, `Synclaire.rotationSystem` — the handle and the connections.
* `Synclaire.presented` — the credentials that the header of a client shows.
* `Synclaire.RotationState.Admits` — a step in which a connection accepts its header.

## Main results

* `Synclaire.presented_of_authRead` — an accepted header shows the credentials asked for.
* `Synclaire.RotationState.validate_presented_iff` — when an accepted header shows the credentials
  stored at that moment.
-/

namespace Synclaire

/-- `ProxyAuthHandle`; its lock makes each operation one step. -/
structure ProxyAuthHandle where
  inner : ProxyAuth
  deriving DecidableEq

namespace ProxyAuthHandle

/-- `ProxyAuthHandle::current`. -/
def current (handle : ProxyAuthHandle) : ProxyAuth := handle.inner

/-- `ProxyAuthHandle::set`. -/
def set (_ : ProxyAuthHandle) (auth : ProxyAuth) : ProxyAuthHandle := ⟨auth⟩

/-- `ProxyAuthHandle::set_none`. -/
def setNone (handle : ProxyAuthHandle) : ProxyAuthHandle := handle.set .none

/-- `ProxyAuthHandle::set_basic`. -/
def setBasic (handle : ProxyAuthHandle) (username password : Str) : ProxyAuthHandle :=
  handle.set (.basic username password)

end ProxyAuthHandle

/-- `TcpProxy::effective_auth` and `resolve_auth`. -/
def effectiveAuth (configAuth : ProxyAuth) (handle : Option ProxyAuthHandle) : ProxyAuth :=
  match handle with
  | some handle => handle.current
  | none => configAuth

/-- A connection that the proxy has accepted; `config` has the backend chosen for it. -/
inductive ProxiedConnection
  | accepted (config : ForwardConfig)
  /-- The credentials were read, and the connection goes its way. -/
  | forwarding (config : ForwardConfig) (auth : ProxyAuth) (state : ForwardState)

/-- A proxy with a handle on its credentials. -/
structure RotationState where
  handle : ProxyAuthHandle
  connections : List ProxiedConnection

/-- A step of the owner of the handle or of a connection. -/
inductive RotationAction
  | set (auth : ProxyAuth)
  | setNone
  | setBasic (username password : Str)
  | accept (config : ForwardConfig)
  /-- Connection `k` reads the credentials. -/
  | begin (k : ℕ)
  | advance (k : ℕ) (a : ForwardAction)

namespace RotationState

/-- The state after an action, if the action is possible. -/
def next (flavor : ProxyFlavor) (configAuth : ProxyAuth) (s : RotationState) :
    RotationAction → Option RotationState
  | .set auth => some { s with handle := s.handle.set auth }
  | .setNone => some { s with handle := s.handle.setNone }
  | .setBasic username password =>
    some { s with handle := s.handle.setBasic username password }
  | .accept config => some { s with connections := s.connections ++ [.accepted config] }
  | .begin k =>
    match s.connections[k]? with
    | some (.accepted config) =>
      let auth := effectiveAuth configAuth (some s.handle)
      some { s with connections :=
        s.connections.set k (.forwarding config auth (.start flavor auth)) }
    | _ => none
  | .advance k a =>
    match s.connections[k]? with
    | some (.forwarding config auth state) =>
      (state.next flavor config auth a).map fun state =>
        { s with connections := s.connections.set k (.forwarding config auth state) }
    | _ => none

end RotationState

/-- The runs of a proxy whose handle is created with `initial`. -/
def rotationSystem (flavor : ProxyFlavor) (configAuth initial : ProxyAuth) :
    Transition.System RotationState RotationAction :=
  .ofFn ⟨⟨initial⟩, []⟩ (RotationState.next flavor configAuth)

/-! ## The credentials of a client -/

/-- The credentials that the client shows in the first `Authorization` header, once the read
completes its header. -/
def presented (flavor : ProxyFlavor) (data : List UInt8) (read : ReadResult) :
    Option (Str × Str) :=
  let received := data ++ readBytes read
  (firstAuthorization (examined flavor
    (lines (Utf8.lossy (received.take (headerEnd received)))))).bind fun value =>
      ProxyAuth.credentialsOf (trim value)

/-- **An accepted header shows the credentials asked for.** -/
theorem presented_of_authRead {flavor : ProxyFlavor} {auth : ProxyAuth} {data : List UInt8}
    (hclear : Clear data) {read : ReadResult} {buffer : List UInt8} {found : Option ℕ}
    {trailing : List UInt8}
    (h : authRead flavor auth data read = .finished buffer found (.ok trailing)) :
    ∃ u p, auth = .basic u p ∧ presented flavor data read = some (u, p) := by
  rcases authRead_cases flavor auth hclear read with
    ⟨_, _, hread⟩ | ⟨-, hread⟩ | ⟨i, hpos, hread⟩
  · cases hread.symm.trans h
  · cases hread.symm.trans h
  · obtain ⟨-, -, hcheck⟩ := AuthStep.finished.inj (hread.symm.trans h)
    rcases checkLines_cases auth ((data ++ readBytes read).drop (i + 4))
        (examined flavor (lines (Utf8.lossy ((data ++ readBytes read).take (i + 4))))) with
      ⟨⟨value, hvalue, hvalid⟩, -⟩ | ⟨-, err, heq⟩
    · obtain ⟨u, p, rfl, hshown⟩ := ProxyAuth.validateHeader_iff.mp hvalid
      refine ⟨u, p, rfl, ?_⟩
      have hend : headerEnd (data ++ readBytes read) = i + 4 := by rw [headerEnd, hpos]
      simp only [presented, hend, hvalue]
      exact hshown
    · cases hcheck.symm.trans (heq _)

/-- A turn of the loop that goes on leaves a buffer without a blank line. -/
theorem clear_of_more {flavor : ProxyFlavor} {auth : ProxyAuth} {data rest : List UInt8}
    (hclear : Clear data) {read : ReadResult} (h : authRead flavor auth data read = .more rest) :
    Clear rest := by
  rcases authRead_cases flavor auth hclear read with
    ⟨_, _, hread⟩ | ⟨hrest, hread⟩ | ⟨i, -, hread⟩
  · cases hread.symm.trans h
  · obtain rfl := AuthStep.more.inj (hread.symm.trans h)
    exact hrest
  · cases hread.symm.trans h

namespace ForwardState

variable {flavor : ProxyFlavor} {config : ForwardConfig} {auth : ProxyAuth}

/-- Writing the trailing payload is not authenticating. -/
theorem startFlush_ne_authenticating (flavor : ProxyFlavor) (trailing data : List UInt8) :
    ForwardPhase.startFlush flavor trailing ≠ .authenticating data := by
  unfold ForwardPhase.startFlush
  split_ifs
  · cases flavor <;> nofun
  · nofun

/-- The auth phase begins with an empty buffer. -/
theorem clear_of_startAuth {data : List UInt8}
    (h : ForwardPhase.startAuth flavor auth = .authenticating data) : Clear data := by
  cases auth with
  | none =>
    cases flavor with
    | sync => cases h
    | async => exact (startFlush_ne_authenticating .async [] data h).elim
  | basic u p =>
    cases h
    exact clear_nil

/-- The buffer of the auth phase has no blank line.

**Proof sketch.** The auth phase begins with an empty buffer, and goes on only without a blank
line. -/
theorem clear_of_reach {s : ForwardState} (h : (forwardSystem flavor config auth).Reach s) :
    ∀ data, s.phase = .authenticating data → Clear data := by
  refine h.invariant (I := fun s : ForwardState =>
    ∀ data, s.phase = .authenticating data → Clear data) ?_ ?_
  · rintro _ rfl data hphase
    cases flavor with
    | sync => exact clear_of_startAuth hphase
    | async => cases hphase
  · rintro s a s' - hclear hstep data hphase
    obtain ⟨effect, heffect, rfl⟩ := Option.map_eq_some_iff.mp hstep
    replace hphase : effect.phase = .authenticating data := hphase
    have hleads := leads_of_effect heffect
    rw [hphase] at hleads
    generalize hsource : s.phase = source at hleads
    generalize htarget : ForwardPhase.authenticating data = target at hleads
    cases hleads with
    | connected =>
      cases flavor with
      | sync => exact absurd htarget.symm (startFlush_ne_authenticating _ _ _)
      | async =>
        simp only [ForwardPhase.afterConnect] at htarget
        split_ifs at htarget
        exact clear_of_startAuth htarget.symm
    | handshaken => exact clear_of_startAuth htarget.symm
    | more hread =>
      cases htarget
      exact clear_of_more (hclear _ hsource) hread
    | validated =>
      cases flavor with
      | sync => cases htarget
      | async => exact absurd htarget.symm (startFlush_ne_authenticating _ _ _)
    | flushed => exact absurd htarget.symm (startFlush_ne_authenticating _ _ _)
    | cloned => cases htarget
    | relays => cases htarget
    | ends => cases htarget
    | cancels => cases htarget

end ForwardState

namespace RotationState

open Transition (Taken)

variable {flavor : ProxyFlavor} {configAuth initial : ProxyAuth} {s s' : RotationState}

/-! ## Validations -/

/-- In the step a connection that asks for `auth` accepts its header: the one that the read
completes after `data`. -/
def Admits (flavor : ProxyFlavor) (x : Taken RotationState RotationAction) (auth : ProxyAuth)
    (data : List UInt8) (read : ReadResult) : Prop :=
  ∃ k config state buffer found trailing,
    x.label = .advance k (.readHeader read) ∧
      x.source.connections[k]? = some (.forwarding config auth state) ∧
        state.phase = .authenticating data ∧
          authRead flavor auth data read = .finished buffer found (.ok trailing)

/-- Every connection is in a state that it reaches with the credentials it has copied. -/
theorem forwarding_of_reach (h : (rotationSystem flavor configAuth initial).Reach s) :
    ∀ (k : ℕ) (config : ForwardConfig) (auth : ProxyAuth) (state : ForwardState),
      s.connections[k]? = some (.forwarding config auth state) →
        (forwardSystem flavor config auth).Reach state := by
  refine h.invariant (I := fun s => ∀ (k : ℕ) (config : ForwardConfig) (auth : ProxyAuth)
    (state : ForwardState), s.connections[k]? = some (.forwarding config auth state) →
      (forwardSystem flavor config auth).Reach state) ?_ ?_
  · rintro _ rfl k config auth state hk
    cases hk
  · rintro s a s' - hs hstep j config auth state hj
    replace hstep : next flavor configAuth s a = some s' := hstep
    cases a with
    | set auth' =>
      obtain rfl := Option.some.inj hstep
      exact hs j config auth state hj
    | setNone =>
      obtain rfl := Option.some.inj hstep
      exact hs j config auth state hj
    | setBasic u p =>
      obtain rfl := Option.some.inj hstep
      exact hs j config auth state hj
    | accept config' =>
      obtain rfl := Option.some.inj hstep
      rcases Table.getElem?_append_singleton.mp hj with hj | ⟨-, heq⟩
      · exact hs j config auth state hj
      · cases heq
    | begin k =>
      simp only [next] at hstep
      split at hstep
      · rename_i config' hk
        obtain rfl := Option.some.inj hstep
        rcases (Table.getElem?_set_eq_some hk).mp hj with ⟨-, heq⟩ | ⟨-, hj⟩
        · cases heq
          exact .init rfl
        · exact hs j config auth state hj
      · cases hstep
    | advance k a =>
      simp only [next] at hstep
      split at hstep
      · rename_i config' auth' state' hk
        obtain ⟨state'', hnext, rfl⟩ := Option.map_eq_some_iff.mp hstep
        rcases (Table.getElem?_set_eq_some hk).mp hj with ⟨-, heq⟩ | ⟨-, hj⟩
        · cases heq
          exact .step (hs k config auth state' hk) hnext
        · exact hs j config auth state hj
      · cases hstep

/-- **When a rotation has taken effect**: whenever a connection of a run accepts its header, the
credentials that the header shows match the ones stored at that moment if and only if none are
stored, or those that the connection copied when it began.

**Proof sketch.** The header shows the copied credentials (`presented_of_authRead`). -/
theorem validate_presented_iff (flavor : ProxyFlavor) (configAuth initial : ProxyAuth)
    {tr : List (Taken RotationState RotationAction)}
    (h : (rotationSystem flavor configAuth initial).Run ⟨⟨initial⟩, []⟩ tr s) :
    ∀ x ∈ tr, ∀ auth data read, Admits flavor x auth data read →
      ((∀ u p, presented flavor data read = some (u, p) →
          x.source.handle.current.validate u p = true) ↔
        x.source.handle.current = .none ∨ x.source.handle.current = auth) := by
  rintro x hx auth data read ⟨k, config, state, buffer, found, trailing, -, hk, hphase, hread⟩
  have hreach := forwarding_of_reach (h.taken (.init rfl) hx).1 k config auth state hk
  obtain ⟨u, p, rfl, hshown⟩ :=
    presented_of_authRead (ForwardState.clear_of_reach hreach data hphase) hread
  cases hcurrent : x.source.handle.current with
  | none => exact iff_of_true (fun _ _ _ => rfl) (.inl rfl)
  | basic user pass =>
    constructor
    · intro hall
      have hvalid := hall u p hshown
      simp only [ProxyAuth.validate, Bool.and_eq_true, decide_eq_true_eq] at hvalid
      obtain ⟨rfl, rfl⟩ := hvalid
      exact .inr rfl
    · rintro (heq | heq)
      · cases heq
      · cases heq
        rintro u' p' hshown'
        cases hshown.symm.trans hshown'
        simp [ProxyAuth.validate]

/-! ## A rotation before and after the begin of a connection -/

/-- A connection accepts its header: the step is possible. -/
theorem next_of_authRead {k : ℕ} {config : ForwardConfig} {auth : ProxyAuth}
    {state : ForwardState} {data buffer trailing : List UInt8} {read : ReadResult}
    {found : Option ℕ} (hk : s.connections[k]? = some (.forwarding config auth state))
    (hphase : state.phase = .authenticating data)
    (hread : authRead flavor auth data read = .finished buffer found (.ok trailing)) :
    ∃ s', next flavor configAuth s (.advance k (.readHeader read)) = some s' := by
  refine Option.isSome_iff_exists.mp ?_
  simp only [next, hk, ForwardState.next, hphase, forwardEffect, hread, Option.map_some,
    Option.isSome_some]

/-- The whole request of a client, in one read. -/
def requestRead : ReadResult := ForwardState.chunkOf ForwardState.request (by decide)

/-- The request shows the user `user` and the password `pass`, and is accepted if they are asked
for. -/
theorem authRead_requestRead :
    presented .sync [] requestRead = some ("user".toList, "pass".toList) ∧
      ∃ buffer found trailing, authRead .sync (.basic "user".toList "pass".toList) []
        requestRead = .finished buffer found (.ok trailing) :=
  ⟨by decide +kernel, ForwardState.request, some (ForwardState.request.length - 5),
    ForwardState.request.drop (ForwardState.request.length - 5), by decide +kernel⟩

/-- A proxy that asks for `user` and `pass`, and one connection that has copied that. -/
def copiedState (handle : ProxyAuthHandle) : RotationState where
  handle
  connections := [.forwarding ⟨.v4 (ipv4 10 0 0 9) 80, 8192, .fromSecs 30, false⟩
    (.basic "user".toList "pass".toList) (.start .sync (.basic "user".toList "pass".toList))]

/-- The owner sets the credentials, a connection begins and sends them: it is accepted, and shows
what is stored. -/
theorem validate_presented_rotated_before :
    ∃ (tr : List (Taken RotationState RotationAction)) (s : RotationState),
      (rotationSystem .sync .none .none).Run ⟨⟨.none⟩, []⟩ tr s ∧
        ∃ x ∈ tr, x.source.handle.current.validate "user".toList "pass".toList = true := by
  obtain ⟨hshown, buffer, found, trailing, hread⟩ := authRead_requestRead
  have hnext : ∃ s', next .sync .none (copiedState ⟨.basic "user".toList "pass".toList⟩)
      (.advance 0 (.readHeader requestRead)) = some s' := next_of_authRead rfl rfl hread
  obtain ⟨s', hlast⟩ := hnext
  have hrun : (rotationSystem .sync .none .none).Run ⟨⟨.none⟩, []⟩ _ s' :=
    .cons (l := .setBasic "user".toList "pass".toList) (by rfl)
      (.cons (l := .accept ⟨.v4 (ipv4 10 0 0 9) 80, 8192, .fromSecs 30, false⟩) (by rfl)
        (.cons (l := .begin 0) (by rfl) (.cons hlast (.nil _))))
  refine ⟨_, s', hrun, _, .tail _ (.tail _ (.tail _ (.head _))), ?_⟩
  exact (validate_presented_iff .sync .none .none hrun _ (.tail _ (.tail _ (.tail _ (.head _))))
    (.basic "user".toList "pass".toList) [] requestRead
    ⟨0, _, _, buffer, found, trailing, rfl, rfl, rfl, hread⟩).mpr (.inr rfl) _ _ hshown

/-- **The old password still works**: the owner replaces the password after a connection has begun;
the client sends the old one and is accepted. -/
theorem not_forall_validate_presented :
    ¬ ∀ (flavor : ProxyFlavor) (configAuth initial : ProxyAuth)
      (tr : List (Taken RotationState RotationAction)) (s : RotationState),
      (rotationSystem flavor configAuth initial).Run ⟨⟨initial⟩, []⟩ tr s →
        ∀ x ∈ tr, ∀ auth data read, Admits flavor x auth data read →
          ∀ u p, presented flavor data read = some (u, p) →
            x.source.handle.current.validate u p = true := by
  intro hall
  obtain ⟨hshown, buffer, found, trailing, hread⟩ := authRead_requestRead
  have hnext : ∃ s', next .sync .none (copiedState ⟨.basic "user".toList "new".toList⟩)
      (.advance 0 (.readHeader requestRead)) = some s' := next_of_authRead rfl rfl hread
  obtain ⟨s', hlast⟩ := hnext
  have hrun : (rotationSystem .sync .none (.basic "user".toList "pass".toList)).Run
      ⟨⟨.basic "user".toList "pass".toList⟩, []⟩ _ s' :=
    .cons (l := .accept ⟨.v4 (ipv4 10 0 0 9) 80, 8192, .fromSecs 30, false⟩) (by rfl)
      (.cons (l := .begin 0) (by rfl)
        (.cons (l := .setBasic "user".toList "new".toList) (by rfl) (.cons hlast (.nil _))))
  have hvalid := hall _ _ _ _ _ hrun _ (.tail _ (.tail _ (.tail _ (.head _)))) _ [] requestRead
    ⟨0, _, _, buffer, found, trailing, rfl, rfl, rfl, hread⟩ _ _ hshown
  have hnew : (ProxyAuth.basic "user".toList "new".toList).validate "user".toList
      "pass".toList ≠ true := by decide
  exact hnew hvalid

end RotationState

end Synclaire
