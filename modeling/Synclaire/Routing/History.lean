import Synclaire.Routing.Basic

set_option relaxedAutoImplicit false
set_option autoImplicit false

/-!
# A routing table over its history

What a table decides is a matter of the operations made on it so far, in any order: the most
recently prepended rule that applies, else the earliest added rule that applies, else the latest
default. Groups are looked up when a peer is resolved, so that only their latest definition counts.

## Main definitions

* `Synclaire.RoutingOp`, `Synclaire.RoutingTable.afterOps` — operations and what they make.
* `Synclaire.RoutingLog` — what a log says of groups, rules and the default.

## Main results

* `Synclaire.RoutingTable.resolve_afterOps` — the decision as a function of the log.
-/

namespace Synclaire

/-! ## Operations -/

/-- An operation on a table. -/
inductive RoutingOp (P : Type*)
  | addGroup (name : Str) (group : IpGroup)
  | addRule (rule : RoutingRule P)
  | prependRule (rule : RoutingRule P)
  | setDefault (action : RouteAction P)

variable {P : Type*}

namespace RoutingTable

/-- The table after an operation. -/
def apply (t : RoutingTable P) : RoutingOp P → RoutingTable P
  | .addGroup name group => t.addGroup name group
  | .addRule rule => t.addRule rule
  | .prependRule rule => t.prependRule rule
  | .setDefault action => t.setDefault action

/-- The table after a log of operations. -/
def afterOps (t : RoutingTable P) (log : List (RoutingOp P)) : RoutingTable P := log.foldl apply t

/-- The log grows by one operation. -/
@[simp] theorem afterOps_concat (t : RoutingTable P) (log : List (RoutingOp P)) (op : RoutingOp P) :
    t.afterOps (log ++ [op]) = (t.afterOps log).apply op := by
  simp [afterOps]

end RoutingTable

/-! ## What a log says -/

namespace RoutingLog

/-- The latest definition of a group. -/
def group (log : List (RoutingOp P)) (name : Str) : Option IpGroup :=
  Log.latest (fun op => match op with
    | .addGroup n group => if n = name then some group else none
    | _ => none) log

/-- The most recently prepended rule that satisfies `p`. -/
def prepended (p : RoutingRule P → Bool) (log : List (RoutingOp P)) : Option (RoutingRule P) :=
  Log.latest (fun op => match op with
    | .prependRule rule => if p rule then some rule else none
    | _ => none) log

/-- The earliest added rule that satisfies `p`. -/
def added (p : RoutingRule P → Bool) (log : List (RoutingOp P)) : Option (RoutingRule P) :=
  Log.earliest (fun op => match op with
    | .addRule rule => if p rule then some rule else none
    | _ => none) log

/-- The most recently set default. -/
def default (log : List (RoutingOp P)) : Option (RouteAction P) :=
  Log.latest (fun op => match op with
    | .setDefault action => some action
    | _ => none) log

end RoutingLog

namespace RoutingTable

/-- The groups of a table that began empty are the latest definitions. -/
theorem lookup_groups_afterOps (initial : RouteAction P) (log : List (RoutingOp P)) (name : Str) :
    ((new initial).afterOps log).groups.lookup name = RoutingLog.group log name := by
  induction log using List.reverseRecOn with
  | nil => rfl
  | append_singleton log op ih =>
    rw [afterOps_concat, RoutingLog.group, Log.latest_concat]
    cases op with
    | addGroup n group =>
      simp only [apply, addGroup, FMap.lookup_insert_eq_ite]
      split_ifs with h h' h'
      · rfl
      · exact absurd h.symm h'
      · exact absurd h'.symm h
      · exact ih
    | addRule rule => exact ih
    | prependRule rule => exact ih
    | setDefault action => exact ih

/-- The first rule that satisfies `p` is the most recently prepended one, else the earliest added
one. -/
theorem find?_rules_afterOps (initial : RouteAction P) (log : List (RoutingOp P))
    (p : RoutingRule P → Bool) :
    ((new initial).afterOps log).rules.find? p =
      (RoutingLog.prepended p log).or (RoutingLog.added p log) := by
  induction log using List.reverseRecOn with
  | nil => rfl
  | append_singleton log op ih =>
    rw [afterOps_concat, RoutingLog.prepended, RoutingLog.added, Log.latest_concat,
      Log.earliest_concat]
    cases op with
    | addGroup n group =>
      rw [Option.or_none]
      exact ih
    | addRule rule =>
      simp only [apply, addRule, List.find?_append, ih, Option.none_or, ← Option.or_assoc]
      congr 1
      rw [List.find?_singleton]
    | prependRule rule =>
      simp only [apply, prependRule, List.find?_cons]
      cases p rule with
      | true => rfl
      | false =>
        rw [Option.or_none]
        exact ih
    | setDefault action =>
      rw [Option.or_none]
      exact ih

/-- The default is the most recently set one. -/
theorem defaultAction_afterOps (initial : RouteAction P) (log : List (RoutingOp P)) :
    ((new initial).afterOps log).defaultAction = (RoutingLog.default log).getD initial := by
  induction log using List.reverseRecOn with
  | nil => rfl
  | append_singleton log op ih =>
    rw [afterOps_concat, RoutingLog.default, Log.latest_concat]
    cases op with
    | setDefault action => rfl
    | addGroup n group => exact ih
    | addRule rule => exact ih
    | prependRule rule => exact ih

/-- **The decision of a table is a function of its log**: the action of the most recently prepended
rule that applies, else that of the earliest added rule that applies, else the latest default. A
rule applies by the latest definition of its group in the whole log.

**Proof sketch.** The rules, the groups and the default after a log are described separately, by
induction on the log; a rule matches where it applies. -/
theorem resolve_afterOps (initial : RouteAction P) (log : List (RoutingOp P)) (peer : SocketAddr) :
    ((new initial).afterOps log).resolve peer =
      match RoutingLog.prepended (fun rule => rule.Applies peer (RoutingLog.group log)) log with
      | some rule => rule.action
      | none =>
        match RoutingLog.added (fun rule => rule.Applies peer (RoutingLog.group log)) log with
        | some rule => rule.action
        | none => (RoutingLog.default log).getD initial := by
  have hgroups : ((new initial).afterOps log).groups.lookup = RoutingLog.group log := by
    funext name
    exact lookup_groups_afterOps initial log name
  have hmatches : (fun rule : RoutingRule P =>
      rule.matchesPeer peer ((new initial).afterOps log).groups) =
        fun rule => decide (rule.Applies peer (RoutingLog.group log)) := by
    funext rule
    rw [← hgroups, Bool.eq_iff_iff, decide_eq_true_eq]
    exact rule.matchesPeer_iff peer _
  unfold resolve
  rw [hmatches, find?_rules_afterOps, defaultAction_afterOps]
  cases RoutingLog.prepended (fun rule => rule.Applies peer (RoutingLog.group log)) log with
  | some rule => rfl
  | none => rfl

/-- The group of a rule may be defined after it, and again. -/
example :
    ((new (.forward (.v4 9 80)) : RoutingTable ℕ).afterOps
      [.prependRule (.fromGroup (.new "in".toList .reject) "g".toList),
        .addGroup "g".toList (IpGroup.new.addIp (.v4 1)),
        .addGroup "g".toList (IpGroup.new.addIp (.v4 2))]).resolve (.v4 2 1000) = .reject := by
  decide +kernel

end RoutingTable

end Synclaire
