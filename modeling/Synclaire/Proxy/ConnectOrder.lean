import Synclaire.Proxy.Forward

set_option relaxedAutoImplicit false
set_option autoImplicit false

/-!
# Which comes first, the credentials or the backend

Both proxies ask for credentials and connect a backend. The sync proxy validates the header and
connects after that; the async proxy connects as soon as the connection begins, so that a client
that shows nothing has it open a connection to the backend.

## Main definitions

* `Synclaire.ForwardState.Connecting` — a connect to the backend was called.
* `Synclaire.ForwardState.Validates` — a step accepts the credentials of the client.
* `Synclaire.ForwardState.ConnectsAfterValidation` — every connect of a run comes after such a
  step.

## Main results

* `Synclaire.ForwardState.connectsAfterValidation_iff` — that holds in the sync proxy, and in no
  run of the async one.
-/

namespace Synclaire

namespace ForwardState

open Transition (Taken)

/-- A connect to the backend was called, and has not returned. -/
def Connecting (s : ForwardState) : Prop := ∃ trailing, s.phase = .connecting trailing

/-- The step accepts the credentials of the client: the header it completes is valid. -/
def Validates (flavor : ProxyFlavor) (auth : ProxyAuth) (x : Taken ForwardState ForwardAction) :
    Prop :=
  ∃ data read buffer headerEnd trailing, x.source.phase = .authenticating data ∧
    x.label = .readHeader read ∧
      authRead flavor auth data read = .finished buffer headerEnd (.ok trailing)

/-- Wherever the run has called connect, one of its steps before has accepted the credentials. -/
def ConnectsAfterValidation (flavor : ProxyFlavor) (config : ForwardConfig) (auth : ProxyAuth)
    (tr : List (Taken ForwardState ForwardAction)) : Prop :=
  ∀ pre s, pre <+: tr → (forwardSystem flavor config auth).Run (.start flavor auth) pre s →
    s.Connecting → ∃ x ∈ pre, Validates flavor auth x

variable {config : ForwardConfig} {u p : Str} {s s' : ForwardState}

/-- Writing the trailing payload is not connecting. -/
theorem startFlush_ne_connecting (trailing rest : List UInt8) :
    ForwardPhase.startFlush .sync trailing ≠ .connecting rest := by
  unfold ForwardPhase.startFlush
  split_ifs <;> nofun

/-- In the sync proxy, with credentials, only a validation leads to a connect. -/
theorem validates_of_connecting {a : ForwardAction}
    (h : s.next .sync config (.basic u p) a = some s') (hconnecting : s'.Connecting) :
    Validates .sync (.basic u p) ⟨s, a, s'⟩ := by
  obtain ⟨effect, heffect, rfl⟩ := Option.map_eq_some_iff.mp h
  obtain ⟨trailing, hphase⟩ := hconnecting
  replace hphase : effect.phase = .connecting trailing := hphase
  have hleads := leads_of_effect heffect
  rw [hphase] at hleads
  generalize hsource : s.phase = source at hleads
  generalize htarget : ForwardPhase.connecting trailing = target at hleads
  cases hleads with
  | validated hread => exact ⟨_, _, _, _, _, hsource, rfl, hread⟩
  | connected => exact absurd htarget.symm (startFlush_ne_connecting _ _)
  | flushed => exact absurd htarget.symm (startFlush_ne_connecting _ _)
  | handshaken => cases htarget
  | more => cases htarget
  | cloned => cases htarget
  | relays => cases htarget
  | ends => cases htarget
  | cancels => cases htarget

/-- A run of the sync proxy that comes to a connect was there at its start, or one of its steps
has accepted the credentials. -/
theorem validates_of_run {tr : List (Taken ForwardState ForwardAction)}
    (h : (forwardSystem .sync config (.basic u p)).Run s tr s') (hconnecting : s'.Connecting) :
    s.Connecting ∨ ∃ x ∈ tr, Validates .sync (.basic u p) x := by
  induction h with
  | nil => exact .inl hconnecting
  | cons hst _ ih =>
    right
    rcases ih hconnecting with hhead | ⟨x, hx, hvalid⟩
    · exact ⟨_, .head _, validates_of_connecting hst hhead⟩
    · exact ⟨x, .tail _ hx, hvalid⟩

/-- **When every connect comes after a validation**: for all credentials, configurations and
clients, in exactly the runs of the sync proxy.

**Proof sketch.** The sync proxy begins with the auth phase, and only a validation leads from it
to a connect. The async proxy begins with the connect. -/
theorem connectsAfterValidation_iff (flavor : ProxyFlavor) (config : ForwardConfig) (u p : Str)
    (tr : List (Taken ForwardState ForwardAction)) :
    ConnectsAfterValidation flavor config (.basic u p) tr ↔ flavor = .sync := by
  constructor
  · intro hall
    cases flavor with
    | sync => rfl
    | async =>
      obtain ⟨x, hx, -⟩ := hall [] _ List.nil_prefix (.nil _) ⟨[], rfl⟩
      cases hx
  · rintro rfl pre s - hrun hconnecting
    rcases validates_of_run hrun hconnecting with ⟨trailing, hstart⟩ | hvalid
    · cases hstart
    · exact hvalid

/-- **A connect for nobody**: a client that sends nothing has the async proxy open a connection to
the backend. -/
theorem not_forall_connectsAfterValidation :
    ¬ ∀ (flavor : ProxyFlavor) (config : ForwardConfig) (u p : Str)
      (tr : List (Taken ForwardState ForwardAction)) (s : ForwardState),
      (forwardSystem flavor config (.basic u p)).Run (.start flavor (.basic u p)) tr s →
        ConnectsAfterValidation flavor config (.basic u p) tr := by
  intro hall
  have hrun := Transition.System.run_follow
    (M := forwardSystem .async ⟨.v4 (ipv4 10 0 0 9) 80, 8192, .fromSecs 30, false⟩
      (.basic "user".toList "pass".toList))
    (fun _ _ _ hnext => hnext) [.connected]
    (.start .async (.basic "user".toList "pass".toList))
  obtain ⟨x, hx, -⟩ := hall _ _ _ _ _ _ hrun [] _ List.nil_prefix (.nil _) ⟨[], rfl⟩
  cases hx

end ForwardState

end Synclaire
