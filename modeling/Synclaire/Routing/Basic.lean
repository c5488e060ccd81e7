import Synclaire.Lib.FMap
import Synclaire.Lib.Log
import Synclaire.Values

set_option relaxedAutoImplicit false
set_option autoImplicit false

/-!
# Routing tables

A routing table says what becomes of a peer: its rules are asked from top to bottom, the first
that matches decides, and the default action if none does. A rule matches on the port and on the
address of the peer, which may be listed in the rule or belong to a group of the table.

## Main definitions

* `Synclaire.IpPrefix`, `Synclaire.IpGroup` — sets of addresses.
* `Synclaire.RoutingRule`, with `Synclaire.RoutingRule.matchesPeer`.
* `Synclaire.RoutingTable`, with `Synclaire.RoutingTable.resolve`.
* `Synclaire.RoutingRule.Applies` — the meaning of a rule.

## Main results

* `Synclaire.RoutingRule.matchesPeer_iff` — a rule matches where it applies.

## Implementation notes

The operations on a table run under its lock, so each is one function on the contents. A pool is
shared: an action holds a handle to it, of type `P`.
-/

namespace Synclaire

/-! ## Sets of addresses -/

/-- `IpPrefix`. -/
structure IpPrefix where
  base : IpAddr
  prefixLen : UInt8
  deriving DecidableEq

/-- `IpPrefix::contains`. -/
def IpPrefix.contains (p : IpPrefix) (ip : IpAddr) : Bool :=
  match p.base, ip with
  | .v4 base, .v4 ip =>
    let bits := min p.prefixLen.toNat 32
    if bits = 0 then true
    else
      let mask : BitVec 32 := BitVec.allOnes 32 <<< (32 - bits)
      base &&& mask == ip &&& mask
  | .v6 base, .v6 ip =>
    let bits := min p.prefixLen.toNat 128
    if bits = 0 then true
    else
      let mask : BitVec 128 := BitVec.allOnes 128 <<< (128 - bits)
      base &&& mask == ip &&& mask
  | _, _ => false

/-- `IpGroup`. -/
structure IpGroup where
  ips : List IpAddr
  prefixes : List IpPrefix
  deriving DecidableEq

namespace IpGroup

/-- `IpGroup::new`. -/
def new : IpGroup := ⟨[], []⟩

/-- `IpGroup::add_ip`. -/
def addIp (g : IpGroup) (ip : IpAddr) : IpGroup := { g with ips := g.ips ++ [ip] }

/-- `IpGroup::add_prefix`. -/
def addPrefix (g : IpGroup) (p : IpPrefix) : IpGroup := { g with prefixes := g.prefixes ++ [p] }

/-- `IpGroup::contains`. -/
def contains (g : IpGroup) (ip : IpAddr) : Bool :=
  g.ips.contains ip || g.prefixes.any fun p => p.contains ip

/-- Addresses added one by one stand in the group in that order. -/
theorem foldl_addIp (g : IpGroup) (ips : List IpAddr) :
    ips.foldl addIp g = { g with ips := g.ips ++ ips } := by
  induction ips generalizing g with
  | nil => simp
  | cons ip ips ih => rw [List.foldl_cons, ih, addIp, List.append_assoc, List.singleton_append]

/-- Prefixes added one by one stand in the group in that order. -/
theorem foldl_addPrefix (g : IpGroup) (prefixes : List IpPrefix) :
    prefixes.foldl addPrefix g = { g with prefixes := g.prefixes ++ prefixes } := by
  induction prefixes generalizing g with
  | nil => simp
  | cons p prefixes ih =>
    rw [List.foldl_cons, ih, addPrefix, List.append_assoc, List.singleton_append]

/-- **Every group is built by `new`, `add_ip` and `add_prefix`.** -/
theorem eq_foldl_new (g : IpGroup) : g = g.prefixes.foldl addPrefix (g.ips.foldl addIp new) := by
  rw [foldl_addIp, foldl_addPrefix]
  rfl

end IpGroup

/-! ## Rules -/

/-- `RouteAction`, over handles of pools. -/
inductive RouteAction (P : Type*)
  | forward (addr : SocketAddr)
  | pool (pool : P)
  | reject
  deriving DecidableEq

/-- `RoutingRule`. -/
structure RoutingRule (P : Type*) where
  name : Str
  sourceGroup : Option Str
  sourceIps : List IpAddr
  sourcePortRange : Option (UInt16 × UInt16)
  action : RouteAction P
  deriving DecidableEq

namespace RoutingRule

variable {P : Type*}

/-- `RoutingRule::new`. -/
def new (name : Str) (action : RouteAction P) : RoutingRule P where
  name := name
  sourceGroup := none
  sourceIps := []
  sourcePortRange := none
  action := action

/-- `RoutingRule::from_group`. -/
def fromGroup (r : RoutingRule P) (group : Str) : RoutingRule P :=
  { r with sourceGroup := some group }

/-- `RoutingRule::from_ips`. -/
def fromIps (r : RoutingRule P) (ips : List IpAddr) : RoutingRule P :=
  { r with sourceIps := r.sourceIps ++ ips }

/-- `RoutingRule::from_ip`. -/
def fromIp (r : RoutingRule P) (ip : IpAddr) : RoutingRule P :=
  { r with sourceIps := r.sourceIps ++ [ip] }

/-- `RoutingRule::from_port_range`. -/
def fromPortRange (r : RoutingRule P) (start stop : UInt16) : RoutingRule P :=
  { r with sourcePortRange := some (start, stop) }

/-- `RoutingRule::from_port`. -/
def fromPort (r : RoutingRule P) (port : UInt16) : RoutingRule P := r.fromPortRange port port

/-- The port check of `matches`. -/
def portMatches (r : RoutingRule P) (peerPort : UInt16) : Bool :=
  match r.sourcePortRange with
  | some (start, stop) => !(decide (peerPort < start) || decide (stop < peerPort))
  | none => true

/-- The address check of `matches`: one of the sources must match, unless there is none. -/
def ipMatches (r : RoutingRule P) (peerIp : IpAddr) (groups : FMap Str IpGroup) : Bool :=
  let hasIpCriteria := r.sourceGroup.isSome || !r.sourceIps.isEmpty
  let inExact := r.sourceIps.contains peerIp
  let inGroup := r.sourceGroup.any fun g => (groups.lookup g).any fun group => group.contains peerIp
  !hasIpCriteria || inExact || inGroup

/-- `RoutingRule::matches`. -/
def matchesPeer (r : RoutingRule P) (peer : SocketAddr) (groups : FMap Str IpGroup) : Bool :=
  r.portMatches peer.port && r.ipMatches peer.ip groups

/-! ## What a rule means -/

/-- A rule applies to a peer when its port range allows the port, and the address is listed or
belongs to its group; without a source every address will do. `defined` gives the definition of a
group, if it has one. -/
structure Applies (r : RoutingRule P) (peer : SocketAddr) (defined : Str → Option IpGroup) :
    Prop where
  /-- The port is in the range. -/
  port : ∀ start stop, r.sourcePortRange = some (start, stop) →
    start ≤ peer.port ∧ peer.port ≤ stop
  /-- The address is one of the sources. -/
  ip : (r.sourceGroup = none ∧ r.sourceIps = []) ∨ peer.ip ∈ r.sourceIps ∨
    ∃ name group, r.sourceGroup = some name ∧ defined name = some group ∧
      group.contains peer.ip = true

/-- The check of the sources, for any lookup of groups. -/
theorem any_sourceGroup_iff (r : RoutingRule P) (ip : IpAddr) (defined : Str → Option IpGroup) :
    (r.sourceGroup.any fun name => (defined name).any fun group => group.contains ip) = true ↔
      ∃ name group, r.sourceGroup = some name ∧ defined name = some group ∧
        group.contains ip = true := by
  cases r.sourceGroup with
  | none => simp
  | some name =>
    cases h : defined name with
    | none => simp [h]
    | some group => simp [h]

/-- The port check. -/
theorem portMatches_iff (r : RoutingRule P) (port : UInt16) :
    r.portMatches port = true ↔
      ∀ start stop, r.sourcePortRange = some (start, stop) → start ≤ port ∧ port ≤ stop := by
  unfold portMatches
  cases r.sourcePortRange with
  | none => simp
  | some range =>
    obtain ⟨start, stop⟩ := range
    simp only [Bool.not_eq_true', Bool.or_eq_false_iff, decide_eq_false_iff_not, UInt16.not_lt,
      Option.some.injEq, Prod.mk.injEq]
    exact ⟨fun h _ _ hrange => hrange.1 ▸ hrange.2 ▸ h, fun h => h start stop ⟨rfl, rfl⟩⟩

/-- The address check. -/
theorem ipMatches_iff (r : RoutingRule P) (ip : IpAddr) (groups : FMap Str IpGroup) :
    r.ipMatches ip groups = true ↔
      (r.sourceGroup = none ∧ r.sourceIps = []) ∨ ip ∈ r.sourceIps ∨
        ∃ name group, r.sourceGroup = some name ∧ groups.lookup name = some group ∧
          group.contains ip = true := by
  rw [← any_sourceGroup_iff]
  unfold ipMatches
  cases r.sourceGroup with
  | none => simp
  | some name => simp

/-- **A rule matches where it applies.** -/
theorem matchesPeer_iff (r : RoutingRule P) (peer : SocketAddr) (groups : FMap Str IpGroup) :
    r.matchesPeer peer groups = true ↔ r.Applies peer groups.lookup := by
  unfold matchesPeer
  rw [Bool.and_eq_true, portMatches_iff, ipMatches_iff]
  exact ⟨fun h => ⟨h.1, h.2⟩, fun h => ⟨h.port, h.ip⟩⟩

/-- A rule whose group is not defined applies to the listed addresses only. -/
theorem applies_iff_of_undefined {r : RoutingRule P} {peer : SocketAddr}
    {defined : Str → Option IpGroup} {name : Str} (hgroup : r.sourceGroup = some name)
    (hnone : defined name = none) :
    r.Applies peer defined ↔ r.portMatches peer.port = true ∧ peer.ip ∈ r.sourceIps := by
  rw [portMatches_iff]
  refine ⟨fun h => ⟨h.port, ?_⟩, fun h => ⟨h.1, .inr (.inl h.2)⟩⟩
  rcases h.ip with ⟨hno, -⟩ | hmem | ⟨name', group, hgroup', hdefined, -⟩
  · simp [hgroup] at hno
  · exact hmem
  · obtain rfl := Option.some.inj (hgroup.symm.trans hgroup')
    simp [hnone] at hdefined

instance (r : RoutingRule P) (peer : SocketAddr) (defined : Str → Option IpGroup) :
    Decidable (r.Applies peer defined) :=
  decidable_of_iff (r.portMatches peer.port = true ∧
      ((r.sourceGroup = none ∧ r.sourceIps = []) ∨ peer.ip ∈ r.sourceIps ∨
        (r.sourceGroup.any fun name => (defined name).any fun group => group.contains peer.ip) =
          true))
    ⟨fun h => ⟨(r.portMatches_iff _).mp h.1,
        h.2.imp_right fun h => h.imp_right (r.any_sourceGroup_iff _ _).mp⟩,
      fun h => ⟨(r.portMatches_iff _).mpr h.port,
        h.ip.imp_right fun h => h.imp_right (r.any_sourceGroup_iff _ _).mpr⟩⟩

end RoutingRule

/-! ## Tables -/

/-- `RoutingTable`: rules evaluated top-to-bottom; first match wins, otherwise `defaultAction`. -/
structure RoutingTable (P : Type*) where
  groups : FMap Str IpGroup
  rules : List (RoutingRule P)
  defaultAction : RouteAction P
  deriving DecidableEq

namespace RoutingTable

variable {P : Type*}

/-- `RoutingTable::new`. -/
def new (defaultAction : RouteAction P) : RoutingTable P := ⟨∅, [], defaultAction⟩

/-- `RoutingTable::add_group`. -/
def addGroup (t : RoutingTable P) (name : Str) (group : IpGroup) : RoutingTable P :=
  { t with groups := t.groups.insert name group }

/-- `RoutingTable::add_rule`. -/
def addRule (t : RoutingTable P) (rule : RoutingRule P) : RoutingTable P :=
  { t with rules := t.rules ++ [rule] }

/-- `RoutingTable::prepend_rule`. -/
def prependRule (t : RoutingTable P) (rule : RoutingRule P) : RoutingTable P :=
  { t with rules := rule :: t.rules }

/-- `RoutingTable::set_default`. -/
def setDefault (t : RoutingTable P) (action : RouteAction P) : RoutingTable P :=
  { t with defaultAction := action }

/-- `RoutingTable::resolve`. -/
def resolve (t : RoutingTable P) (peer : SocketAddr) : RouteAction P :=
  match t.rules.find? fun rule => rule.matchesPeer peer t.groups with
  | some rule => rule.action
  | none => t.defaultAction

end RoutingTable

end Synclaire
