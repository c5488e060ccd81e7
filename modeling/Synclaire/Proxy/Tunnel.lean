import Synclaire.Proxy.Client
import Synclaire.Proxy.CopyLoop

set_option relaxedAutoImplicit false
set_option autoImplicit false

/-!
# The tunnel to the backend

What a proxy writes to the backend is what the client sent after its header, in that order, with
nothing left out: the bytes that the auth phase read too much, then the bytes of the relay. For a
client of this library the header is its request, so the backend sees just its payload.

## Main definitions

* `Synclaire.Follows` — what followed the header of an admitted client.
* `Synclaire.ForwardPhase.held` — the bytes that the proxy holds for the backend.
* `Synclaire.ForwardState.Tunnel` — the bytes that followed the header are written, held or lost.

## Main results

* `Synclaire.ForwardState.Tunnel.step` — every action keeps the tunnel.
* `Synclaire.ForwardState.tunnel_of_run` — what is written is the beginning of what followed the
  header, and all of it unless a write fails or the connection is broken off.
* `Synclaire.ForwardState.payload_of_client` — a client with the right credentials is not refused
  and has its payload passed on; with other credentials nothing is passed on.
-/

namespace Synclaire

/-! ## What follows the header -/

/-- `body` followed the header of a client that is admitted: everything that was received, if no
credentials are asked for. -/
def Follows (flavor : ProxyFlavor) : ProxyAuth → List UInt8 → List UInt8 → Prop
  | .none, received, body => body = received
  | .basic u p, received, body => ∃ i, Scan.IsFirst terminator received i ∧
      headerVerdict flavor (.basic u p) (received.take (i + 4)) = .ok () ∧
      body = received.drop (i + 4)

/-- More bytes follow the same header. -/
theorem Follows.append {flavor : ProxyFlavor} {auth : ProxyAuth} {received body : List UInt8}
    (h : Follows flavor auth received body) (more : List UInt8) :
    Follows flavor auth (received ++ more) (body ++ more) := by
  cases auth with
  | none => exact congrArg (· ++ more) h
  | basic u p =>
    obtain ⟨i, hfirst, hverdict, rfl⟩ := h
    have hle : i + 4 ≤ received.length := hfirst.1.add_length_le terminator_ne_nil
    refine ⟨i, hfirst.append terminator_ne_nil more, ?_, ?_⟩
    · rwa [List.take_append_of_le_length hle]
    · rw [List.drop_append_of_le_length hle]

/-- A header that a read completes, if it is accepted. -/
theorem follows_of_checkHeader {flavor : ProxyFlavor} {u p : Str} {data trailing : List UInt8}
    {i : ℕ} (hpos : Scan.position terminator data = some i)
    (h : checkHeader flavor (.basic u p) data (i + 4) = .ok trailing) :
    Follows flavor (.basic u p) data trailing := by
  refine ⟨i, (Scan.position_eq_some_iff terminator_ne_nil).mp hpos, ?_, eq_drop_of_checkHeader h⟩
  rw [← checkHeader_map, h]
  rfl

namespace ForwardPhase

/-! ## The bytes that are held -/

/-- The bytes that a proxy has read and is to write to the backend. -/
def held : ForwardPhase → List UInt8
  | .connecting trailing => trailing
  | .flushing trailing => trailing
  | .relaying (.writing buf) _ => buf
  | _ => []

/-- The phases of an admitted client. -/
def Opened (flavor : ProxyFlavor) : ForwardPhase → Prop
  | .connecting _ => flavor = .sync
  | .handshaking => False
  | .authenticating _ => False
  | .flushing _ | .cloning | .relaying _ _ | .finished _ | .cancelled => True

/-- The connection ended with an error, or its task was dropped. -/
def BrokenOff (phase : ForwardPhase) : Prop := (∃ err, phase = .failed err) ∨ phase = .cancelled

/-- The phases in which bytes may have been lost: the connection is broken off, or the loop that
writes to the backend has ended after a failed write. -/
def MayLose (writeFailed : Prop) : ForwardPhase → Prop
  | .relaying .ended _ => writeFailed
  | .finished (.ok ()) => writeFailed
  | .finished (.error _) => True
  | .cancelled => True
  | _ => False

/-- While no write fails, bytes are lost by breaking off the connection only. -/
theorem MayLose.brokenOff {phase : ForwardPhase} (h : phase.MayLose False) : phase.BrokenOff := by
  cases phase with
  | finished result =>
    cases result with
    | ok => exact h.elim
    | error err => exact .inl ⟨err, rfl⟩
  | cancelled => exact .inr rfl
  | relaying c b => cases c <;> exact h.elim
  | _ => exact h.elim

/-- Writing the trailing payload holds it. -/
theorem held_startFlush (flavor : ProxyFlavor) (trailing : List UInt8) :
    (startFlush flavor trailing).held = trailing := by
  unfold startFlush
  split_ifs with hnil
  · rw [hnil]
    cases flavor <;> rfl
  · rfl

/-- Writing the trailing payload is for an admitted client. -/
theorem opened_startFlush (flavor : ProxyFlavor) (trailing : List UInt8) :
    Opened flavor (startFlush flavor trailing) := by
  unfold startFlush
  split_ifs
  · cases flavor <;> exact trivial
  · exact trivial

/-- What was read too much is held after the auth phase. -/
theorem held_afterAuth (flavor : ProxyFlavor) (trailing : List UInt8) :
    (afterAuth flavor trailing).held = trailing := by
  cases flavor with
  | sync => rfl
  | async => exact held_startFlush .async trailing

/-- An admitted client is not broken off. -/
theorem not_brokenOff_afterAuth (flavor : ProxyFlavor) (trailing : List UInt8) :
    ¬(afterAuth flavor trailing).BrokenOff := by
  cases flavor with
  | sync => rintro (⟨_, ⟨⟩⟩ | ⟨⟨⟩⟩)
  | async =>
    rw [afterAuth, startFlush]
    split_ifs <;> rintro (⟨_, ⟨⟩⟩ | ⟨⟨⟩⟩)

/-- The auth phase leads to the phases of an admitted client. -/
theorem opened_afterAuth (flavor : ProxyFlavor) (trailing : List UInt8) :
    Opened flavor (afterAuth flavor trailing) := by
  cases flavor with
  | sync => exact rfl
  | async => exact opened_startFlush .async trailing

end ForwardPhase

namespace ForwardState

open ForwardPhase

variable {flavor : ProxyFlavor} {config : ForwardConfig} {auth : ProxyAuth} {s s' : ForwardState}
  {a : ForwardAction} {effect : ForwardEffect}

/-! ## The tunnel -/

/-- The client is not admitted: nothing was passed on, and the auth phase asks for credentials. -/
structure Waits (flavor : ProxyFlavor) (auth : ProxyAuth) (s : ForwardState) : Prop where
  unadmitted : s.Unadmitted flavor
  asks : ∀ data, s.phase = .authenticating data → auth ≠ .none

/-- The client is admitted: what followed its header is written, held or lost, in this order. -/
structure Passes (flavor : ProxyFlavor) (auth : ProxyAuth) (writeFailed : Prop)
    (s : ForwardState) : Prop where
  opened : s.phase.Opened flavor
  bytes : ∃ lost, Follows flavor auth s.received (s.sentToBackend ++ (s.phase.held ++ lost)) ∧
    (lost = [] ∨ s.phase.MayLose writeFailed)

/-- The client is not admitted, or what followed its header is accounted for. -/
def Tunnel (flavor : ProxyFlavor) (auth : ProxyAuth) (writeFailed : Prop) (s : ForwardState) :
    Prop :=
  s.Waits flavor auth ∨ s.Passes flavor auth writeFailed

/-- A write to the backend fails in the relay. -/
def LosesBytes (a : ForwardAction) : Prop := ∃ e, a = .writeFailed .clientToBackend e

/-- What an action does with the bytes that are held or lost: those it reads come after them, and
those it writes are the first of them. -/
structure Hands (flavor : ProxyFlavor) (failed failed' : Prop) (phase : ForwardPhase)
    (effect : ForwardEffect) : Prop where
  opened : effect.phase.Opened flavor
  bytes : ∀ lost, lost = [] ∨ phase.MayLose failed →
    ∃ lost', phase.held ++ lost ++ effect.received =
        effect.sentToBackend ++ (effect.phase.held ++ lost') ∧
      (lost' = [] ∨ effect.phase.MayLose failed')

/-- Breaking off the connection loses what is held. -/
theorem Hands.of_broken {failed failed' : Prop} {phase : ForwardPhase}
    (hphase : effect.phase.BrokenOff)
    (hsent : effect.sentToBackend = []) : Hands flavor failed failed' phase effect := by
  have hbroken : effect.phase.Opened flavor ∧ effect.phase.held = [] ∧
      effect.phase.MayLose failed' := by
    rcases hphase with ⟨err, hphase⟩ | hphase <;> rw [hphase] <;> exact ⟨trivial, rfl, trivial⟩
  obtain ⟨hopened, hheld, hlose⟩ := hbroken
  refine ⟨hopened, fun lost _ => ⟨phase.held ++ lost ++ effect.received, ?_, .inr hlose⟩⟩
  rw [hsent, hheld]
  rfl

/-- The bytes that are held are written in part, and more bytes are read, while none were lost. -/
theorem Hands.of_intact {failed failed' : Prop} {phase : ForwardPhase}
    (hopened : effect.phase.Opened flavor) (hintact : ¬phase.MayLose failed)
    (hbytes : phase.held ++ effect.received = effect.sentToBackend ++ effect.phase.held) :
    Hands flavor failed failed' phase effect := by
  refine ⟨hopened, fun lost hlost => ⟨[], ?_, .inl rfl⟩⟩
  obtain rfl := hlost.resolve_right hintact
  rw [List.append_nil, List.append_nil, hbytes]

/-- In the relay, the other direction hands nothing to the backend. -/
theorem Hands.of_other {failed failed' : Prop} {c b b' : RelayLoop} (hfailed : failed → failed')
    (hphase : effect.phase = .relaying c b') (hreceived : effect.received = [])
    (hsent : effect.sentToBackend = []) :
    Hands flavor failed failed' (.relaying c b) effect := by
  refine ⟨by rw [hphase]; exact trivial, fun lost hlost => ⟨lost, ?_, ?_⟩⟩
  · rw [hphase, hreceived, hsent, List.append_nil]
    cases c <;> rfl
  · rw [hphase]
    refine hlost.imp_right fun hlose => ?_
    cases c with
    | ended => exact hfailed hlose
    | _ => exact hlose

/-- **What an action of an admitted client does with its bytes.**

**Proof sketch.** One case for each phase, and in it for each action. Bytes are lost only where
the connection is broken off, or the write fails of a thread that holds them. -/
theorem hands_of_effect {failed failed' : Prop} {phase : ForwardPhase}
    (hopened : phase.Opened flavor) (h : forwardEffect flavor config auth phase a = some effect)
    (hfailed : failed → failed') (hloses : LosesBytes a → failed') :
    Hands flavor failed failed' phase effect := by
  cases phase with
  | connecting trailing =>
    obtain rfl : flavor = .sync := hopened
    cases a with
    | connected =>
      obtain rfl := Option.some.inj h
      refine .of_intact (opened_startFlush .sync trailing) id ?_
      exact (List.append_nil trailing).trans (held_startFlush .sync trailing).symm
    | connectFailed e =>
      obtain rfl := Option.some.inj h
      exact .of_broken (.inl ⟨_, rfl⟩) rfl
    | _ => cases h
  | handshaking | authenticating data => exact hopened.elim
  | flushing trailing =>
    cases a with
    | flush n =>
      obtain rfl := Option.some.inj h
      refine .of_intact (opened_startFlush flavor _) id ?_
      rw [held_startFlush, List.append_nil]
      exact (List.take_append_drop n trailing).symm
    | flushFailed e =>
      cases flavor <;> obtain rfl := Option.some.inj h <;> exact .of_broken (.inl ⟨_, rfl⟩) rfl
    | cancel =>
      cases flavor with
      | sync => cases h
      | async =>
        obtain rfl := Option.some.inj h
        exact .of_broken (.inr rfl) rfl
    | _ => cases h
  | cloning =>
    cases a with
    | cloned =>
      obtain rfl := Option.some.inj h
      exact .of_intact trivial id rfl
    | cloneFailed d e =>
      cases d <;> obtain rfl := Option.some.inj h <;> exact .of_broken (.inl ⟨_, rfl⟩) rfl
    | cancel =>
      cases flavor with
      | sync => cases h
      | async =>
        obtain rfl := Option.some.inj h
        exact .of_broken (.inr rfl) rfl
    | _ => cases h
  | relaying c b =>
    cases a with
    | read d bytes =>
      cases d with
      | backendToClient =>
        cases b with
        | reading =>
          rcases bytes with e | _ | ⟨x, rest⟩
          · obtain rfl := Option.some.inj h
            cases flavor with
            | sync => exact .of_other hfailed rfl rfl rfl
            | async => exact .of_broken (.inl ⟨_, rfl⟩) rfl
          · obtain rfl := Option.some.inj h
            exact .of_other hfailed rfl rfl rfl
          · simp only [forwardEffect, loopOf] at h
            split_ifs at h
            obtain rfl := Option.some.inj h
            exact .of_other hfailed rfl rfl rfl
        | _ => cases h
      | clientToBackend =>
        cases c with
        | reading =>
          rcases bytes with e | _ | ⟨x, rest⟩
          · obtain rfl := Option.some.inj h
            cases flavor with
            | sync => exact .of_intact trivial id rfl
            | async => exact .of_broken (.inl ⟨_, rfl⟩) rfl
          · obtain rfl := Option.some.inj h
            exact .of_intact trivial id rfl
          · simp only [forwardEffect, loopOf] at h
            split_ifs at h
            obtain rfl := Option.some.inj h
            exact .of_intact trivial id rfl
        | _ => cases h
    | write d n =>
      cases d with
      | backendToClient =>
        cases b with
        | writing buf =>
          obtain rfl := Option.some.inj h
          exact .of_other hfailed rfl rfl rfl
        | _ => cases h
      | clientToBackend =>
        cases c with
        | writing buf =>
          obtain rfl := Option.some.inj h
          refine .of_intact trivial id ?_
          have hheld : (setLoop .clientToBackend (.writing buf) b
              (if buf.drop n = [] then .reading else .writing (buf.drop n))).held =
                buf.drop n := by
            split_ifs with hnil
            · exact hnil.symm
            · rfl
          rw [hheld, List.append_nil]
          exact (List.take_append_drop n buf).symm
        | _ => cases h
    | writeFailed d e =>
      cases d with
      | backendToClient =>
        cases b with
        | writing buf =>
          obtain rfl := Option.some.inj h
          cases flavor with
          | sync => exact .of_other hfailed rfl rfl rfl
          | async => exact .of_broken (.inl ⟨_, rfl⟩) rfl
        | _ => cases h
      | clientToBackend =>
        cases c with
        | writing buf =>
          obtain rfl := Option.some.inj h
          cases flavor with
          | sync =>
            refine ⟨trivial, fun lost hlost => ⟨buf ++ lost, List.append_nil _, .inr ?_⟩⟩
            exact hloses ⟨e, rfl⟩
          | async => exact .of_broken (.inl ⟨_, rfl⟩) rfl
        | _ => cases h
    | joined =>
      cases c <;> cases b <;> cases h
      exact ⟨trivial, fun lost hlost => ⟨lost, List.append_nil lost, hlost.imp_right hfailed⟩⟩
    | cancel =>
      cases flavor with
      | sync => cases h
      | async =>
        obtain rfl := Option.some.inj h
        exact .of_broken (.inr rfl) rfl
    | _ => cases h
  | finished result => cases a <;> cases h
  | cancelled => cases a <;> cases h

/-- **One step of an admitted client.** -/
theorem Passes.step {failed failed' : Prop} (h : s.Passes flavor auth failed)
    (heffect : forwardEffect flavor config auth s.phase a = some effect)
    (hfailed : failed → failed') (hloses : LosesBytes a → failed') :
    (s.apply effect).Passes flavor auth failed' := by
  obtain ⟨lost, hfollows, hlost⟩ := h.bytes
  obtain ⟨hopened, hbytes⟩ := hands_of_effect h.opened heffect hfailed hloses
  obtain ⟨lost', hhanded, hlost'⟩ := hbytes lost hlost
  refine ⟨hopened, lost', ?_, hlost'⟩
  have hmore := hfollows.append effect.received
  rwa [List.append_assoc, hhanded, ← List.append_assoc] at hmore

/-- Where the auth phase begins: the client waits for it, or is admitted at once. -/
theorem tunnel_of_startAuth {failed : Prop} (hphase : s.phase = startAuth flavor auth)
    (hreceived : s.received = []) (hbackend : s.sentToBackend = [])
    (hclient : s.sentToClient = []) : s.Tunnel flavor auth failed := by
  cases auth with
  | none =>
    right
    refine ⟨by rw [hphase]; exact opened_afterAuth flavor [], [], ?_, .inl rfl⟩
    rw [hphase, hreceived, hbackend, List.append_nil]
    exact held_afterAuth flavor []
  | basic u p =>
    left
    refine ⟨⟨?_, hbackend, hclient⟩, fun _ _ => ProxyAuth.noConfusion⟩
    rw [hphase, hreceived]
    exact ⟨rfl, clear_nil⟩

/-- **One step before the client is admitted**: it waits on, or its header was accepted and what
followed it is held.

**Proof sketch.** One case for each phase before the client is admitted. A read in the auth phase
is no end, an end with an error, or the check of the header (`authRead_cases`). -/
theorem Waits.step {failed : Prop} (h : s.Waits flavor auth)
    (heffect : forwardEffect flavor config auth s.phase a = some effect) :
    (s.apply effect).Tunnel flavor auth failed := by
  obtain ⟨⟨hearly, hbackend, hclient⟩, hasks⟩ := h
  obtain ⟨phase, received, toBackend, toClient⟩ := s
  dsimp only at hearly hbackend hclient hasks heffect
  subst hbackend hclient
  -- the connection ends, and nothing was passed on
  have hended : ∀ {effect : ForwardEffect},
      effect.phase.BrokenOff → effect.sentToBackend = [] → effect.sentToClient = [] →
        (apply ⟨phase, received, [], []⟩ effect).Tunnel flavor auth failed := by
    rintro ⟨_, more, _, _⟩ (⟨err, rfl⟩ | rfl) rfl rfl
    · exact .inl ⟨⟨trivial, rfl, rfl⟩, fun _ hphase => nomatch hphase⟩
    · exact .inl ⟨⟨trivial, rfl, rfl⟩, fun _ hphase => nomatch hphase⟩
  cases phase with
  | connecting trailing =>
    obtain ⟨rfl, rfl⟩ := hearly
    cases a with
    | connected =>
      obtain rfl := Option.some.inj heffect
      by_cases htls : config.tlsEnabled = true
      · left
        have hphase : afterConnect .async config auth trailing = .handshaking := if_pos htls
        refine ⟨⟨?_, rfl, rfl⟩, ?_⟩
        · rw [apply, hphase]
          exact ⟨rfl, rfl⟩
        · intro data hdata
          cases hphase.symm.trans hdata
      · exact tunnel_of_startAuth (if_neg htls) rfl rfl rfl
    | connectFailed e | connectTimedOut =>
      obtain rfl := Option.some.inj heffect
      exact hended (.inl ⟨_, rfl⟩) rfl rfl
    | cancel =>
      obtain rfl := Option.some.inj heffect
      exact hended (.inr rfl) rfl rfl
    | _ => cases heffect
  | handshaking =>
    obtain ⟨rfl, rfl⟩ := hearly
    cases a with
    | handshaken =>
      obtain rfl := Option.some.inj heffect
      exact tunnel_of_startAuth rfl rfl rfl rfl
    | handshakeFailed err =>
      obtain rfl := Option.some.inj heffect
      exact hended (.inl ⟨_, rfl⟩) rfl rfl
    | cancel =>
      obtain rfl := Option.some.inj heffect
      exact hended (.inr rfl) rfl rfl
    | _ => cases heffect
  | authenticating data =>
    obtain ⟨rfl, hclear⟩ := hearly
    cases a with
    | readHeader read =>
      obtain ⟨u, p, rfl⟩ : ∃ u p, auth = .basic u p := by
        cases auth with
        | none => exact absurd rfl (hasks received rfl)
        | basic u p => exact ⟨u, p, rfl⟩
      rw [forwardEffect] at heffect
      rcases authRead_cases flavor (.basic u p) hclear read with
        ⟨_, err, hread⟩ | ⟨hrest, hread⟩ | ⟨i, hpos, hread⟩
      · rw [hread] at heffect
        obtain rfl := Option.some.inj heffect
        exact hended (.inl ⟨err, rfl⟩) rfl rfl
      · rw [hread] at heffect
        obtain rfl := Option.some.inj heffect
        exact .inl ⟨⟨⟨rfl, hrest⟩, rfl, rfl⟩, fun _ _ => ProxyAuth.noConfusion⟩
      · rw [hread] at heffect
        cases hcheck : checkHeader flavor (.basic u p) (received ++ readBytes read) (i + 4) with
        | error err =>
          rw [hcheck] at heffect
          obtain rfl := Option.some.inj heffect
          exact hended (.inl ⟨err, rfl⟩) rfl rfl
        | ok trailing =>
          rw [hcheck] at heffect
          obtain rfl := Option.some.inj heffect
          refine .inr ⟨opened_afterAuth flavor trailing, [], ?_, .inl rfl⟩
          have hbytes : ([] : List UInt8) ++ [] ++ ((afterAuth flavor trailing).held ++ []) =
              trailing := by
            rw [held_afterAuth, List.append_nil, List.append_nil, List.nil_append]
          exact hbytes.symm ▸ follows_of_checkHeader hpos hcheck
    | cancel =>
      cases flavor with
      | sync => cases heffect
      | async =>
        obtain rfl := Option.some.inj heffect
        exact hended (.inr rfl) rfl rfl
    | _ => cases heffect
  | flushing trailing | cloning | relaying c b => exact hearly.elim
  | finished result => cases a <;> cases heffect
  | cancelled => cases a <;> cases heffect

/-- **Every action keeps the tunnel**, up to a write to the backend that fails. -/
theorem Tunnel.step {failed failed' : Prop} (h : s.Tunnel flavor auth failed)
    (hstep : s.next flavor config auth a = some s') (hfailed : failed → failed')
    (hloses : LosesBytes a → failed') : s'.Tunnel flavor auth failed' := by
  rw [next] at hstep
  obtain ⟨effect, heffect, rfl⟩ := Option.map_eq_some_iff.mp hstep
  rcases h with hwaits | hpasses
  · exact hwaits.step heffect
  · exact .inr (hpasses.step heffect hfailed hloses)

/-- The tunnel of a connection that begins. -/
theorem tunnel_start (flavor : ProxyFlavor) (auth : ProxyAuth) (failed : Prop) :
    (start flavor auth).Tunnel flavor auth failed := by
  cases flavor with
  | sync => exact tunnel_of_startAuth rfl rfl rfl rfl
  | async => exact .inl ⟨⟨⟨rfl, rfl⟩, rfl, rfl⟩, fun _ hphase => nomatch hphase⟩

/-- A read of the header takes place in the auth phase, and its bytes are received. -/
theorem authenticating_of_readHeader {phase : ForwardPhase} {read : ReadResult}
    (h : forwardEffect flavor config auth phase (.readHeader read) = some effect) :
    ∃ data, phase = .authenticating data ∧ effect.received = readBytes read := by
  cases phase with
  | authenticating data =>
    refine ⟨data, rfl, ?_⟩
    rw [forwardEffect] at h
    split at h <;> exact (Option.some.inj h) ▸ rfl
  | relaying c b => cases h
  | _ => cases h

/-- The tunnel in every reachable state. -/
theorem tunnel_of_reach (h : (forwardSystem flavor config auth).Reach s) :
    s.Tunnel flavor auth True := by
  refine Transition.System.Reach.invariant (I := Tunnel flavor auth True) ?_ ?_ h
  · rintro _ rfl
    exact tunnel_start flavor auth True
  · intro s a s' _ hI hstep
    exact hI.step hstep id fun _ => trivial

/-! ## Runs -/

/-- **What a proxy writes to the backend is what followed the header**: until the client is admitted
nothing is passed on in either direction, and then what was written is the beginning of what was
received after the accepted header. With the bytes that the proxy holds it is all of it, unless a
write to the backend fails in the relay or the connection is broken off.

**Proof sketch.** Every action keeps the tunnel (`Tunnel.step`). In a run in which no write fails,
bytes are lost by breaking off the connection only. -/
theorem tunnel_of_run {s₀ : ForwardState}
    {tr : List (Transition.Taken ForwardState ForwardAction)}
    (h0 : (forwardSystem flavor config auth).init s₀)
    (h : (forwardSystem flavor config auth).Run s₀ tr s) :
    s.Unadmitted flavor ∨ ∃ body, Follows flavor auth s.received body ∧
      s.sentToBackend <+: body ∧
      ((∀ x ∈ tr, ¬LosesBytes x.label) → ¬s.phase.BrokenOff →
        s.sentToBackend ++ s.phase.held = body) := by
  obtain rfl : s₀ = start flavor auth := h0
  have hruns := Transition.System.Run.forall_or_exists (P := Tunnel flavor auth False)
    (Q := Tunnel flavor auth True) (G := fun _ a => ¬LosesBytes a)
    (fun _ _ _ hP hstep hG => hP.step hstep id hG)
    (fun _ _ _ hP hstep _ => hP.step hstep False.elim fun _ => trivial)
    (fun _ _ _ hQ hstep => hQ.step hstep id fun _ => trivial) h (tunnel_start flavor auth False)
  rcases hruns with ⟨-, hwaits | hpasses⟩ | ⟨⟨x, hx, hloses⟩, hwaits | hpasses⟩
  · exact .inl hwaits.unadmitted
  · obtain ⟨lost, hfollows, hlost⟩ := hpasses.bytes
    refine .inr ⟨_, hfollows, List.prefix_append _ _, fun _ hwhole => ?_⟩
    obtain rfl := hlost.resolve_right fun hlose => hwhole hlose.brokenOff
    rw [List.append_nil]
  · exact .inl hwaits.unadmitted
  · obtain ⟨lost, hfollows, -⟩ := hpasses.bytes
    refine .inr ⟨_, hfollows, List.prefix_append _ _, fun hnone _ => ?_⟩
    exact absurd (not_not.mp hloses) (hnone x hx)

/-- A request with a payload, and more of it later. -/
def tunnelActions : List ForwardAction :=
  [.readHeader (chunkOf (request.take 50) (by decide)),
    .readHeader (chunkOf (request.drop 50) (by decide)), .connected, .flush 3, .flush 2, .cloned,
    .read .clientToBackend (.ok [33, 33]), .write .clientToBackend 1]

/-- The run of these actions. -/
def tunnelRun : List (Transition.Taken ForwardState ForwardAction) × ForwardState :=
  Transition.System.follow
    (next .sync ⟨.v4 (ipv4 10 0 0 9) 80, 8192, .fromSecs 30, false⟩
      (.basic "user".toList "pass".toList))
    (start .sync (.basic "user".toList "pass".toList)) tunnelActions

/-- The payload is written up to the byte that is held. -/
theorem tunnel_of_run_tunnelRun :
    tunnelRun.2.Unadmitted .sync ∨
      ∃ body, Follows .sync (.basic "user".toList "pass".toList) tunnelRun.2.received body ∧
        tunnelRun.2.sentToBackend <+: body ∧
        ((∀ x ∈ tunnelRun.1, ¬LosesBytes x.label) → ¬tunnelRun.2.phase.BrokenOff →
          tunnelRun.2.sentToBackend ++ tunnelRun.2.phase.held = body) :=
  have hrun : (forwardSystem .sync ⟨.v4 (ipv4 10 0 0 9) 80, 8192, .fromSecs 30, false⟩
      (.basic "user".toList "pass".toList)).Run (start .sync (.basic "user".toList "pass".toList))
      tunnelRun.1 tunnelRun.2 := Transition.System.run_follow (fun _ _ _ h => h) _ _
  tunnel_of_run rfl hrun

end ForwardState

/-! ## The client of the library -/

namespace ProxyClient

variable {flavor : ProxyFlavor} {u₁ p₁ u₂ p₂ : Str}

/-- The credentials that a client shows are those that a proxy asks for, as the proxy reads them: up
to the first colon the user, and the password after it. -/
def Agree (u₁ p₁ u₂ p₂ : Str) : Prop := u₁ ++ ':' :: p₁ = u₂ ++ ':' :: p₂ ∧ ':' ∉ u₂

/-- **Which requests are accepted**: those with the credentials asked for. -/
theorem headerVerdict_request_iff (c : ProxyClient) (flavor : ProxyFlavor) (u₁ p₁ u₂ p₂ : Str) :
    headerVerdict flavor (.basic u₂ p₂)
      (Utf8.encode (c.request (ProxyAuth.basicHeader u₁ p₁))) = .ok () ↔ Agree u₁ p₁ u₂ p₂ := by
  have hprintable := fun l hl => (c.requestLines_printable u₁ p₁ l hl).1
  have hvalue : stripPrefix "Authorization: ".toList ("Authorization: ".toList ++
      ProxyAuth.basicHeader u₁ p₁) = some (ProxyAuth.basicHeader u₁ p₁) :=
    stripPrefix_eq_some_iff.mpr rfl
  have hfirst : firstAuthorization (examined flavor
      (c.requestLines (ProxyAuth.basicHeader u₁ p₁) ++ [[]])) =
        some (ProxyAuth.basicHeader u₁ p₁) := by
    cases flavor with
    | sync =>
      simp only [examined, requestLines, List.cons_append, List.drop_succ_cons, List.drop_zero]
      rw [firstAuthorization, List.findSome?_cons, List.findSome?_cons, hvalue]
      rfl
    | async =>
      simp only [examined, requestLines, List.cons_append]
      rw [firstAuthorization, List.findSome?_cons, List.findSome?_cons, List.findSome?_cons, hvalue]
      rfl
  rw [headerVerdict_eq_ok_iff, Utf8.lossy_encode, request_eq, lines_headerOf hprintable, Accepts,
    hfirst, Agree, ← ProxyAuth.validateHeader_basicHeader_iff]
  constructor
  · rintro ⟨value, hvalue, hvalid⟩
    obtain rfl := Option.some.inj hvalue
    rwa [ProxyAuth.trim_basicHeader] at hvalid
  · intro hvalid
    exact ⟨_, rfl, by rwa [ProxyAuth.trim_basicHeader]⟩

/-- The first blank line of what a client sends ends its request. -/
theorem isFirst_connect (proxyAddr backendAddr : SocketAddr) (u p : Str) (payload : List UInt8) :
    ∃ n, ((new proxyAddr backendAddr).withAuth (.basic u p)).connect.length = n + 4 ∧
      Scan.IsFirst terminator
        (((new proxyAddr backendAddr).withAuth (.basic u p)).connect ++ payload) n := by
  let c := (new proxyAddr backendAddr).withAuth (.basic u p)
  let ls := c.requestLines (ProxyAuth.basicHeader u p)
  have hrequest : c.connect = headerBytes (ls.map Utf8.encode) := by
    rw [← encode_headerOf, ← c.request_eq]
    rfl
  have hlines : ∀ l ∈ ls.map Utf8.encode, l ≠ [] ∧ (13 : UInt8) ∉ l := by
    intro bytes hbytes
    obtain ⟨l, hl, rfl⟩ := List.mem_map.mp hbytes
    obtain ⟨hprintable, hne⟩ := c.requestLines_printable u p l hl
    exact ⟨Utf8.encode_ne_nil hne, not_mem_encode hprintable⟩
  have hls : ls.map Utf8.encode ≠ [] := List.cons_ne_nil _ _
  refine ⟨(headerBytes (ls.map Utf8.encode)).length - 4, ?_, ?_⟩
  · rw [Nat.sub_add_cancel (four_le_length hls)]
    exact congrArg List.length hrequest
  · have hpos := position_headerBytes hls hlines payload
    rw [← hrequest] at hpos ⊢
    exact (Scan.position_eq_some_iff terminator_ne_nil).mp hpos

/-- A header found in what a client has sent is its request, and its payload follows. -/
theorem header_of_isFirst {proxyAddr backendAddr : SocketAddr} {u p : Str}
    {payload received : List UInt8} {i : ℕ}
    (hreceived : received <+:
      ((new proxyAddr backendAddr).withAuth (.basic u p)).connect ++ payload)
    (hfirst : Scan.IsFirst terminator received i) :
    received.take (i + 4) = ((new proxyAddr backendAddr).withAuth (.basic u p)).connect ∧
      received.drop (i + 4) <+: payload := by
  obtain ⟨n, hlength, hrequest⟩ := isFirst_connect proxyAddr backendAddr u p payload
  obtain ⟨rest, hrest⟩ := hreceived
  have hle : i + 4 ≤ received.length := hfirst.1.add_length_le terminator_ne_nil
  obtain rfl : i = n := by
    refine Scan.IsFirst.unique ?_ hrequest
    rw [← hrest]
    exact hfirst.append terminator_ne_nil rest
  constructor
  · have htake : (received ++ rest).take (i + 4) = received.take (i + 4) :=
      List.take_append_of_le_length hle
    rw [← htake, hrest, ← hlength, List.take_left]
  · refine ⟨rest, ?_⟩
    rw [← List.drop_append_of_le_length hle, hrest, ← hlength, List.drop_left]

/-- **What a proxy makes of a client's request.** -/
theorem verdict_of_isFirst (flavor : ProxyFlavor) {proxyAddr backendAddr : SocketAddr}
    {payload received : List UInt8} {i : ℕ} (hreceived : received <+:
      ((new proxyAddr backendAddr).withAuth (.basic u₁ p₁)).connect ++ payload)
    (hfirst : Scan.IsFirst terminator received i) :
    headerVerdict flavor (.basic u₂ p₂) (received.take (i + 4)) = .ok () ↔ Agree u₁ p₁ u₂ p₂ := by
  rw [(header_of_isFirst hreceived hfirst).1]
  exact headerVerdict_request_iff _ flavor u₁ p₁ u₂ p₂

/-- A part of what a client sends that has no blank line is shorter than its request. -/
theorem length_lt_of_clear {proxyAddr backendAddr : SocketAddr} {u p : Str}
    {payload received : List UInt8} (hreceived : received <+:
      ((new proxyAddr backendAddr).withAuth (.basic u p)).connect ++ payload)
    (hclear : Clear received) :
    received.length < ((new proxyAddr backendAddr).withAuth (.basic u p)).connect.length := by
  obtain ⟨n, hlength, hfirst⟩ := isFirst_connect proxyAddr backendAddr u p payload
  obtain ⟨rest, hrest⟩ := hreceived
  by_contra hle
  rw [← hrest] at hfirst
  refine hclear n ((Scan.occursAt_append_iff ?_).mp hfirst.1)
  have hfour : terminator.length = 4 := rfl
  omega

/-- **A read in the auth phase does not refuse a client with the credentials.**

**Proof sketch.** The bytes read have no blank line and are fewer than those of the request, or the
first blank line ends the request, which is accepted. -/
theorem admits_of_agree {proxyAddr backendAddr : SocketAddr} {payload data : List UInt8}
    {config : ForwardConfig} {effect : ForwardEffect} (hagree : Agree u₁ p₁ u₂ p₂)
    (hsize : ((new proxyAddr backendAddr).withAuth (.basic u₁ p₁)).connect.length ≤ 64 * 1024)
    (hclear : Clear data) {chunk : Chunk} (hne : chunk.bytes ≠ [])
    (hreceived : data ++ chunk.bytes <+:
      ((new proxyAddr backendAddr).withAuth (.basic u₁ p₁)).connect ++ payload)
    (heffect : forwardEffect flavor config (.basic u₂ p₂) (.authenticating data)
      (.readHeader (.ok chunk)) = some effect) : ¬effect.phase.BrokenOff := by
  rw [forwardEffect, authRead_of_clear hclear hne] at heffect
  cases hpos : Scan.position terminator (data ++ chunk.bytes) with
  | none =>
    have hlt := length_lt_of_clear hreceived (clear_iff.mpr hpos)
    have hsmall : ¬headerLimit < (data ++ chunk.bytes).length := by
      rw [headerLimit]
      omega
    rw [hpos] at heffect
    dsimp only at heffect
    rw [if_neg hsmall] at heffect
    obtain rfl := Option.some.inj heffect
    rintro (⟨_, ⟨⟩⟩ | ⟨⟨⟩⟩)
  | some i =>
    have hfirst := (Scan.position_eq_some_iff terminator_ne_nil).mp hpos
    have hverdict := (verdict_of_isFirst flavor hreceived hfirst).mpr hagree
    rw [← checkHeader_map] at hverdict
    rw [hpos] at heffect
    dsimp only at heffect
    cases hcheck : checkHeader flavor (.basic u₂ p₂) (data ++ chunk.bytes) (i + 4) with
    | error err =>
      rw [hcheck] at hverdict
      cases hverdict
    | ok trailing =>
      rw [hcheck] at heffect
      obtain rfl := Option.some.inj heffect
      exact ForwardPhase.not_brokenOff_afterAuth flavor trailing

/-- **The client and the proxies agree on what the tunnel carries**: if a client of this library
shows the credentials that a proxy asks for, then in every state of the connection the backend has
been sent a beginning of the client's payload, and no read of the request is refused; if it shows
others, nothing is passed on in either direction.

**Proof sketch.** What is written is the beginning of what followed an accepted header
(`tunnel_of_reach`), and a header found in what the client sends is its request
(`header_of_isFirst`). -/
theorem payload_of_client (flavor : ProxyFlavor) (config : ForwardConfig) (u₁ p₁ u₂ p₂ : Str)
    (proxyAddr backendAddr : SocketAddr) (payload : List UInt8) {s : ForwardState}
    (h : (forwardSystem flavor config (.basic u₂ p₂)).Reach s)
    (hreceived : s.received <+:
      ((new proxyAddr backendAddr).withAuth (.basic u₁ p₁)).connect ++ payload) :
    (Agree u₁ p₁ u₂ p₂ → s.sentToBackend <+: payload ∧
      (((new proxyAddr backendAddr).withAuth (.basic u₁ p₁)).connect.length ≤ 64 * 1024 →
        ∀ (chunk : Chunk) (s' : ForwardState), chunk.bytes ≠ [] →
          s.next flavor config (.basic u₂ p₂) (.readHeader (.ok chunk)) = some s' →
          s'.received <+: ((new proxyAddr backendAddr).withAuth (.basic u₁ p₁)).connect ++ payload →
            ¬s'.phase.BrokenOff)) ∧
    (¬Agree u₁ p₁ u₂ p₂ → s.sentToBackend = [] ∧ s.sentToClient = []) := by
  rcases ForwardState.tunnel_of_reach h with hwaits | ⟨hopened, lost, hfollows, -⟩
  · obtain ⟨⟨hearly, hbackend, hclient⟩, -⟩ := hwaits
    refine ⟨fun hagree => ⟨hbackend ▸ List.nil_prefix, ?_⟩, fun _ => ⟨hbackend, hclient⟩⟩
    intro hsize chunk s' hne hnext hmore
    rw [ForwardState.next] at hnext
    obtain ⟨effect, heffect, rfl⟩ := Option.map_eq_some_iff.mp hnext
    obtain ⟨data, hphase, hread⟩ := ForwardState.authenticating_of_readHeader heffect
    rw [hphase] at hearly heffect
    obtain ⟨hdata, hclear⟩ := hearly
    rw [ForwardState.apply, hread, hdata] at hmore
    exact admits_of_agree hagree hsize hclear hne hmore heffect
  · obtain ⟨i, hfirst, hverdict, hbody⟩ := hfollows
    have hagree := (verdict_of_isFirst flavor hreceived hfirst).mp hverdict
    refine ⟨fun _ => ⟨?_, ?_⟩, fun hnot => absurd hagree hnot⟩
    · have hsent := List.prefix_append s.sentToBackend (s.phase.held ++ lost)
      rw [hbody] at hsent
      exact hsent.trans (header_of_isFirst hreceived hfirst).2
    · -- the header was read already
      intro _ chunk s' _ hnext
      rw [ForwardState.next] at hnext
      obtain ⟨effect, heffect, rfl⟩ := Option.map_eq_some_iff.mp hnext
      obtain ⟨data, hphase, -⟩ := ForwardState.authenticating_of_readHeader heffect
      rw [hphase] at hopened
      exact hopened.elim

/-- The client `user` with the password `pass`. -/
def plainClient : ProxyClient :=
  (new (.v4 (ipv4 127 0 0 1) 8080) (.v4 (ipv4 10 0 0 9) 80)).withAuth
    (.basic "user".toList "pass".toList)

/-- Its request and two bytes of its payload, in two reads, one of which is passed on. -/
def plainState : ForwardState :=
  Transition.System.after
    (ForwardState.next .async ⟨.v4 (ipv4 10 0 0 9) 80, 8192, .fromSecs 30, true⟩
      (.basic "user".toList "pass".toList))
    (.start .async (.basic "user".toList "pass".toList))
    [.connected, .handshaken,
      .readHeader (ForwardState.chunkOf (plainClient.connect.take 20) (by decide +kernel)),
      .readHeader (ForwardState.chunkOf (plainClient.connect.drop 20 ++ [72, 73])
        (by decide +kernel)),
      .flush 1]

/-- The byte is the first of the payload. -/
theorem payload_of_client_plainState : plainState.sentToBackend <+: [72, 73] :=
  have hreach : (forwardSystem .async ⟨.v4 (ipv4 10 0 0 9) 80, 8192, .fromSecs 30, true⟩
      (.basic "user".toList "pass".toList)).Reach plainState :=
    Transition.System.reach_after (.init rfl) fun _ _ _ _ h => h
  ((payload_of_client .async ⟨.v4 (ipv4 10 0 0 9) 80, 8192, .fromSecs 30, true⟩ "user".toList
    "pass".toList "user".toList "pass".toList (.v4 (ipv4 127 0 0 1) 8080)
    (.v4 (ipv4 10 0 0 9) 80) [72, 73] hreach (by decide +kernel)).1 ⟨rfl, by decide⟩).1

end ProxyClient

end Synclaire
