import Synclaire.Routing.Basic

set_option relaxedAutoImplicit false
set_option autoImplicit false

/-!
# Rules from builder calls

A rule is built from `RoutingRule::new` by calls that name its sources and its port range. The
addresses of all calls are collected, but a rule has one group and one port range: a later call
replaces the one before. An empty list of addresses leaves no trace, so that a rule whose only
source call is `from_ips` with an empty list is one without sources, which every address matches.

## Main definitions

* `Synclaire.BuilderCall`, `Synclaire.RoutingRule.built` — the calls, and the rule they build.
* `Synclaire.BuilderCall.ips`, `Synclaire.BuilderCall.groups`, `Synclaire.BuilderCall.portRanges` —
  what a list of calls gives.
* `Synclaire.BuilderCall.Declares` — the calls read one by one: every named group counts, and a
  source call makes the rule one with sources.

## Main results

* `Synclaire.RoutingRule.built_eq` — the fields of the rule, from its calls.
* `Synclaire.RoutingRule.matchesPeer_built` — what a built rule matches, and when this is what its
  calls declare.
-/

namespace Synclaire

/-! ## The calls -/

/-- A call of the builder. -/
inductive BuilderCall
  | fromGroup (group : Str)
  | fromIp (ip : IpAddr)
  | fromIps (ips : List IpAddr)
  | fromPortRange (start stop : UInt16)
  | fromPort (port : UInt16)
  deriving DecidableEq

namespace BuilderCall

/-- The call names a source. -/
def isSource : BuilderCall → Bool
  | fromGroup _ | fromIp _ | fromIps _ => true
  | fromPortRange _ _ | fromPort _ => false

/-- The addresses of a call. -/
def ipsOf : BuilderCall → List IpAddr
  | fromIp ip => [ip]
  | fromIps ips => ips
  | _ => []

/-- The group of a call. -/
def groupOf : BuilderCall → Option Str
  | fromGroup group => some group
  | _ => none

/-- The port range of a call. -/
def portRangeOf : BuilderCall → Option (UInt16 × UInt16)
  | fromPortRange start stop => some (start, stop)
  | fromPort port => some (port, port)
  | _ => none

variable (calls : List BuilderCall)

/-- All addresses that the calls give. -/
def ips : List IpAddr := calls.flatMap ipsOf

/-- All groups that the calls name. -/
def groups : List Str := calls.filterMap groupOf

/-- All port ranges that the calls give. -/
def portRanges : List (UInt16 × UInt16) := calls.filterMap portRangeOf

/-- The port criterion: the last port range allows the port. -/
def PortAllowed (port : UInt16) : Prop :=
  ∀ range ∈ (portRanges calls).getLast?, range.1 ≤ port ∧ port ≤ range.2

/-- The address belongs to the group of this name. -/
def InGroup (defined : FMap Str IpGroup) (ip : IpAddr) (name : Str) : Prop :=
  ∃ group, defined.lookup name = some group ∧ group.contains ip = true

/-- The calls read one by one: the port is allowed, and the address is one of those given or in one
of the groups named, unless no call names a source. -/
def Declares (defined : FMap Str IpGroup) (peer : SocketAddr) : Prop :=
  PortAllowed calls peer.port ∧ ((∀ call ∈ calls, call.isSource = false) ∨ peer.ip ∈ ips calls ∨
    ∃ name ∈ groups calls, InGroup defined peer.ip name)

end BuilderCall

namespace RoutingRule

variable {P : Type*}

/-- The method that a call stands for. -/
def call (r : RoutingRule P) : BuilderCall → RoutingRule P
  | .fromGroup group => r.fromGroup group
  | .fromIp ip => r.fromIp ip
  | .fromIps ips => r.fromIps ips
  | .fromPortRange start stop => r.fromPortRange start stop
  | .fromPort port => r.fromPort port

/-- The rule that the calls build. -/
def built (name : Str) (action : RouteAction P) (calls : List BuilderCall) : RoutingRule P :=
  calls.foldl call (.new name action)

/-! ## What is built -/

/-- The last entry of a longer list replaces the ones before. -/
theorem getLast?_cons_or {α : Type*} (a : α) (l : List α) (previous : Option α) :
    (a :: l).getLast?.or previous = l.getLast?.or (some a) := by
  cases h : l.getLast? with
  | none => simp [List.getLast?_cons, h]
  | some b => simp [List.getLast?_cons, h]

/-- The fields of a rule after more calls. -/
theorem foldl_call (r : RoutingRule P) (calls : List BuilderCall) :
    calls.foldl call r = { r with
      sourceGroup := (BuilderCall.groups calls).getLast?.or r.sourceGroup
      sourceIps := r.sourceIps ++ BuilderCall.ips calls
      sourcePortRange := (BuilderCall.portRanges calls).getLast?.or r.sourcePortRange } := by
  induction calls generalizing r with
  | nil => simp [BuilderCall.groups, BuilderCall.ips, BuilderCall.portRanges]
  | cons c calls ih =>
    rw [List.foldl_cons, ih]
    cases c <;>
      simp [call, fromGroup, fromIp, fromIps, fromPortRange, fromPort, BuilderCall.groups,
        BuilderCall.ips, BuilderCall.portRanges, BuilderCall.groupOf, BuilderCall.ipsOf,
        BuilderCall.portRangeOf, getLast?_cons_or]

/-- **What the calls build**: the last group and the last port range, and all addresses. -/
theorem built_eq (name : Str) (action : RouteAction P) (calls : List BuilderCall) :
    built name action calls = {
      name := name
      sourceGroup := (BuilderCall.groups calls).getLast?
      sourceIps := BuilderCall.ips calls
      sourcePortRange := (BuilderCall.portRanges calls).getLast?
      action := action } := by
  rw [built, foldl_call]
  simp [new]

/-- What a built rule matches: its group is the last one named, and without addresses and groups
every address will do. -/
theorem matchesPeer_built_iff (name : Str) (action : RouteAction P) (calls : List BuilderCall)
    (defined : FMap Str IpGroup) (peer : SocketAddr) :
    (built name action calls).matchesPeer peer defined = true ↔
      BuilderCall.PortAllowed calls peer.port ∧
        ((BuilderCall.groups calls = [] ∧ BuilderCall.ips calls = []) ∨
          peer.ip ∈ BuilderCall.ips calls ∨
          ∃ group ∈ (BuilderCall.groups calls).getLast?,
            BuilderCall.InGroup defined peer.ip group) := by
  rw [matchesPeer_iff, built_eq]
  constructor
  · rintro ⟨hport, hip⟩
    refine ⟨fun range hrange => hport range.1 range.2 hrange, ?_⟩
    rcases hip with ⟨hgroup, hips⟩ | hmem | ⟨group, found, hgroup, hfound⟩
    · exact .inl ⟨List.getLast?_eq_none_iff.mp hgroup, hips⟩
    · exact .inr (.inl hmem)
    · exact .inr (.inr ⟨group, hgroup, found, hfound⟩)
  · rintro ⟨hport, hip⟩
    refine ⟨fun start stop hrange => hport (start, stop) hrange, ?_⟩
    rcases hip with ⟨hgroup, hips⟩ | hmem | ⟨group, hgroup, found, hfound⟩
    · exact .inl ⟨List.getLast?_eq_none_iff.mpr hgroup, hips⟩
    · exact .inr (.inl hmem)
    · exact .inr (.inr ⟨group, found, hgroup, hfound⟩)

/-- A call that gives an address or names a group is a source call. -/
theorem exists_isSource {calls : List BuilderCall}
    (h : BuilderCall.groups calls ≠ [] ∨ BuilderCall.ips calls ≠ []) :
    ∃ call ∈ calls, call.isSource = true := by
  rcases h with h | h
  · obtain ⟨group, hgroup⟩ := List.exists_mem_of_ne_nil _ h
    obtain ⟨call, hcall, hof⟩ := List.mem_filterMap.mp hgroup
    refine ⟨call, hcall, ?_⟩
    cases call <;> first | rfl | cases hof
  · obtain ⟨ip, hip⟩ := List.exists_mem_of_ne_nil _ h
    obtain ⟨call, hcall, hof⟩ := List.mem_flatMap.mp hip
    refine ⟨call, hcall, ?_⟩
    cases call <;> first | rfl | cases hof

/-- **What a built rule matches, and when this is what its calls declare.** With addresses or a
group, a rule matches where the port is allowed and the address is given or in the last group
named; without, where the port is allowed. This is what the calls declare unless, at an allowed
port, the source calls gave empty lists only, or the address is in a group that a later call
replaced.

**Proof sketch.** Both sides ask the same of the port and of the given addresses; they differ in
the groups (`matchesPeer_built_iff`), and in what makes a rule one with sources. -/
theorem matchesPeer_built (name : Str) (action : RouteAction P) (calls : List BuilderCall)
    (defined : FMap Str IpGroup) (peer : SocketAddr) :
    ((built name action calls).matchesPeer peer defined = true ↔
      BuilderCall.PortAllowed calls peer.port ∧
        ((BuilderCall.groups calls = [] ∧ BuilderCall.ips calls = []) ∨
          peer.ip ∈ BuilderCall.ips calls ∨
          ∃ group ∈ (BuilderCall.groups calls).getLast?,
            BuilderCall.InGroup defined peer.ip group)) ∧
    (((built name action calls).matchesPeer peer defined = true ↔
        BuilderCall.Declares calls defined peer) ↔
      (BuilderCall.PortAllowed calls peer.port →
        ((∃ call ∈ calls, call.isSource = true) →
          BuilderCall.groups calls ≠ [] ∨ BuilderCall.ips calls ≠ []) ∧
        ((∃ group ∈ BuilderCall.groups calls, BuilderCall.InGroup defined peer.ip group) →
          peer.ip ∈ BuilderCall.ips calls ∨
            ∃ group ∈ (BuilderCall.groups calls).getLast?,
              BuilderCall.InGroup defined peer.ip group))) := by
  refine ⟨matchesPeer_built_iff name action calls defined peer, ?_⟩
  have hsource : (∀ call ∈ calls, call.isSource = false) ↔
      ¬∃ call ∈ calls, call.isSource = true := by simp
  have hgiven : BuilderCall.groups calls ≠ [] ∨ BuilderCall.ips calls ≠ [] →
      ∃ call ∈ calls, call.isSource = true := exists_isSource
  have hlast : (∃ group ∈ (BuilderCall.groups calls).getLast?,
      BuilderCall.InGroup defined peer.ip group) →
      ∃ group ∈ BuilderCall.groups calls, BuilderCall.InGroup defined peer.ip group := by
    rintro ⟨group, hgroup, hin⟩
    exact ⟨group, List.mem_of_getLast? hgroup, hin⟩
  have hips : peer.ip ∈ BuilderCall.ips calls → BuilderCall.ips calls ≠ [] := List.ne_nil_of_mem
  have hgroups : (∃ group ∈ BuilderCall.groups calls,
      BuilderCall.InGroup defined peer.ip group) → BuilderCall.groups calls ≠ [] := by
    rintro ⟨group, hgroup, -⟩
    exact List.ne_nil_of_mem hgroup
  rw [matchesPeer_built_iff, BuilderCall.Declares, hsource, and_congr_right_iff]
  refine forall_congr' fun _ => ⟨fun h => ⟨fun hcall => ?_, fun hin => ?_⟩, ?_⟩
  · by_contra hnone
    obtain ⟨hno, hnoIp⟩ := not_or.mp hnone
    -- the rule matches everyone, the calls declare nobody
    rcases h.mp (.inl ⟨not_not.mp hno, not_not.mp hnoIp⟩) with hfree | hmem | hin
    · exact hfree hcall
    · exact hnoIp (hips hmem)
    · exact hno (hgroups hin)
  · rcases h.mpr (.inr (.inr hin)) with ⟨hno, -⟩ | hfound
    · exact (hgroups hin hno).elim
    · exact hfound
  · rintro ⟨hempty, hreplaced⟩
    constructor
    · rintro (⟨hno, hnoIp⟩ | hmem | hin)
      · exact .inl fun hcall => (hempty hcall).elim (· hno) (· hnoIp)
      · exact .inr (.inl hmem)
      · exact .inr (.inr (hlast hin))
    · rintro (hfree | hmem | hin)
      · obtain ⟨hno, hnoIp⟩ := not_or.mp (mt hgiven hfree)
        exact .inl ⟨not_not.mp hno, not_not.mp hnoIp⟩
      · exact .inr (.inl hmem)
      · exact .inr (hreplaced hin)

/-- Calls need not build what they declare: an empty list of addresses makes a rule that matches
everyone. -/
theorem not_forall_declares :
    ¬∀ (name : Str) (action : RouteAction Unit) (calls : List BuilderCall)
      (defined : FMap Str IpGroup) (peer : SocketAddr),
      (built name action calls).matchesPeer peer defined = true ↔
        BuilderCall.Declares calls defined peer := by
  intro h
  have hmatch : (built "allow".toList (.reject : RouteAction Unit) [.fromIps []]).matchesPeer
      (.v4 (ipv4 10 0 0 1) 1000) ∅ = true := by decide
  obtain ⟨-, hno | hmem | ⟨group, hgroup, -⟩⟩ := (h _ _ _ _ _).mp hmatch
  · exact absurd (hno _ List.mem_cons_self) (by decide)
  · exact absurd hmem (by decide)
  · exact absurd hgroup (by simp [BuilderCall.groups, BuilderCall.groupOf])

end RoutingRule

end Synclaire
