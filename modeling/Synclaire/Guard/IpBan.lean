import Mathlib.Data.Finset.Basic
import Synclaire.Guard.Basic

set_option relaxedAutoImplicit false
set_option autoImplicit false

/-!
# The IP ban guard

A set of banned addresses, changed at run time through `ban` and `unban`; a reservation from
a banned address is refused.

## Main definitions

* `Synclaire.IpBan` — the guard, with `ban`, `unban` and `isBanned`.
* `Synclaire.IpBan.afterOps` — the guard after calls of `ban` and `unban`.

## Main results

* `Synclaire.IpBan.exists_afterOps` — the calls may turn any ban list into any other.
-/

namespace Synclaire

/-- `IpBanConfig`: it has no fields. -/
structure IpBanConfig where
  deriving DecidableEq

/-- `IpBan`. -/
structure IpBan where
  banned : Finset IpAddr
  deriving DecidableEq

namespace IpBan

/-- `IpBan::new`. -/
def new (_config : IpBanConfig) : IpBan := ⟨∅⟩

/-- `IpBan::ban`. -/
def ban (g : IpBan) (ip : IpAddr) : IpBan := ⟨insert ip g.banned⟩

/-- `IpBan::unban`. -/
def unban (g : IpBan) (ip : IpAddr) : IpBan := ⟨g.banned.erase ip⟩

/-- `IpBan::is_banned`. -/
def isBanned (g : IpBan) (ip : IpAddr) : Bool := ip ∈ g.banned

/-- `IpBan::on_reserve`. -/
def onReserve (g : IpBan) (ctx : GuardContext) : Except SynError Unit :=
  if g.isBanned ctx.peerIp then .error (.bannedIp ctx.peerIp.toStr) else .ok ()

/-- A change of the ban list. -/
inductive Op
  | ban (ip : IpAddr)
  | unban (ip : IpAddr)

/-- The guard after a change. -/
def apply (g : IpBan) : Op → IpBan
  | .ban ip => g.ban ip
  | .unban ip => g.unban ip

/-- The guard after changes. -/
def afterOps (g : IpBan) (ops : List Op) : IpBan := ops.foldl apply g

/-- What is banned after some bans. -/
theorem mem_banned_bans {g : IpBan} {ips : List IpAddr} {ip : IpAddr} :
    ip ∈ (g.afterOps (ips.map .ban)).banned ↔ ip ∈ ips ∨ ip ∈ g.banned := by
  induction ips generalizing g with
  | nil => simp [afterOps]
  | cons i ips ih =>
    change ip ∈ ((g.ban i).afterOps (ips.map .ban)).banned ↔ _
    rw [ih, ban, Finset.mem_insert, List.mem_cons]
    tauto

/-- What is banned after some bans were lifted. -/
theorem mem_banned_unbans {g : IpBan} {ips : List IpAddr} {ip : IpAddr} :
    ip ∈ (g.afterOps (ips.map .unban)).banned ↔ ip ∉ ips ∧ ip ∈ g.banned := by
  induction ips generalizing g with
  | nil => simp [afterOps]
  | cons i ips ih =>
    change ip ∈ ((g.unban i).afterOps (ips.map .unban)).banned ↔ _
    rw [ih, unban, Finset.mem_erase, List.mem_cons, not_or]
    tauto

/-- **The calls may turn any ban list into any other.** -/
theorem exists_afterOps (g g' : IpBan) : ∃ ops, g.afterOps ops = g' := by
  refine ⟨g.banned.toList.map .unban ++ g'.banned.toList.map .ban, ?_⟩
  have hbanned : (g.afterOps (g.banned.toList.map .unban ++ g'.banned.toList.map .ban)).banned =
      g'.banned := by
    ext ip
    rw [afterOps, List.foldl_append]
    refine mem_banned_bans.trans ?_
    rw [← afterOps, mem_banned_unbans, Finset.mem_toList, Finset.mem_toList]
    tauto
  exact congrArg mk hbanned

end IpBan

instance : Guard IpBan where
  name _ := "ip_ban".toList
  onReserve g ctx _ := (g.onReserve ctx, g)

end Synclaire
