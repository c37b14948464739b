import Kar.Lib.Assign

/-!
# The assignment of partitions

`strategy.Plan` runs on the leader of the consumer group at each rebalance.  It reads
what the members have published and the offsets of all partitions, and it keeps its
variables from one plan to the next.  When partition `0` has new content, or a dead
partition is not empty, the leader gets everything there is to recover and nobody else
gets a partition.  Otherwise each member gets the one of its node.

The order in which Go visits a map is a parameter of the plan.  The messages of a topic
matter here through their offsets only: `offsets p` is what the two calls of `GetOffset`
give for partition `p`, or `none` if one of them fails.
-/

namespace Kar.Rpc

open Kar.Lib

/-- What a node publishes to the group. -/
structure Info where
  node : String
  services : List String
  /-- The partition of the node, or `0` as long as it is not decided. -/
  partition : Nat
  deriving DecidableEq, Repr

/-- The variables of a process that the group code uses. -/
structure Process where
  self : Info
  /-- The user data of the group member: the info that the next plan will see. -/
  userData : Info
  service2nodes : String → List String
  node2partition : String → Nat
  /-- The map `recovery`, where `none` is the nil map. -/
  recovery : Option (Nat → Bool)
  newest : Nat → Nat
  offset0 : Nat
  max0 : Nat

/-- `Dial`: a new process. -/
def Process.dial (node : String) (services : List String) : Process where
  self := { node := node, services := services, partition := 0 }
  userData := { node := node, services := services, partition := 0 }
  service2nodes := fun _ => []
  node2partition := fun _ => 0
  recovery := none
  newest := fun _ => 0
  offset0 := 0
  max0 := 0

inductive PlanError
  | offset
  | tooFewPartitions
  deriving DecidableEq, Repr

/-- The partitions of each member of the group, by member id. -/
abbrev BalancePlan := String → List Nat

def BalancePlan.empty : BalancePlan := fun _ => []

def BalancePlan.add (plan : BalancePlan) (member : String) (p : Nat) : BalancePlan :=
  Function.update plan member (plan member ++ [p])

/-- `node2member`, filled in the order of `members`. -/
def node2member (members : List (String × Info)) : String → String :=
  members.foldl (fun f m => Function.update f m.2.node m.1) (fun _ => "")

namespace Process

variable (P : Process)

/-- `service2nodes` is extended by the services of a node. -/
def addServices (table : String → List String) (v : Info) : String → List String :=
  v.services.foldl (fun t s => Function.update t s (t s ++ [v.node])) table

/-- The maps that `Plan` starts from. -/
def reset : Process :=
  { P with
    recovery := some (fun _ => false)
    service2nodes := fun _ => []
    newest := fun _ => 0 }

/-- The first loop, for one member.  What a member publishes goes first, and what the
leader knows is kept for a member that publishes no partition. -/
def visit (v : Info) : Process :=
  let table :=
    if v.partition > 0 then Function.update P.node2partition v.node v.partition
    else P.node2partition
  { P with
    service2nodes := addServices P.service2nodes v
    node2partition := table
    -- A new node: requests for unavailable services are looked at again.
    offset0 := if table v.node = 0 then 0 else P.offset0 }

/-- Dead nodes are discarded, and the partitions of the others are live. -/
def discard (nodes : List String) : Process :=
  { P with
    node2partition := fun n => if n ∈ nodes then P.node2partition n else 0
    recovery := some (fun p => decide (p ≠ 0) && nodes.any (fun n => decide (P.node2partition n = p))) }

/-- `recovery[p]` -/
def live (p : Nat) : Bool := (P.recovery.getD (fun _ => false)) p

/-- The loop over the partitions.  The flag says whether there is nothing to recover. -/
def measure (offsets : Nat → Option (Nat × Nat)) :
    List Nat → Bool → Process → Except PlanError Bool × Process
  | [], clean, P => (.ok clean, P)
  | p :: ps, clean, P =>
    match offsets p with
    | none => (.error .offset, P)
    | some (min, max) =>
      if min < max then
        let P := { P with newest := Function.update P.newest p max }
        if p ≠ 0 ∧ P.live p = false then measure offsets ps false P
        else if p = 0 ∧ P.offset0 < max then measure offsets ps false { P with max0 := max }
        else measure offsets ps clean P
      else measure offsets ps clean P

/-- A partition that a new member may get. -/
def isFree (p : Nat) : Bool := !P.live p && decide (P.newest p = 0)

/-- The plan of a recovery: all that is not empty, and partition `0`, for the leader. -/
def recoveryPlan (members : List (String × Info)) (partitions : List Nat) : BalancePlan :=
  partitions.foldl (fun plan p =>
    if p = 0 ∨ P.newest p > 0 then plan.add (node2member members P.self.node) p else plan) .empty

/-- The plan without recovery: its own partition for each member. -/
def cleanPlan (members : List (String × Info)) (order : List String) : BalancePlan :=
  order.foldl (fun plan n => plan.add (node2member members n) (P.node2partition n)) .empty

/-- `Plan`.  The members are visited in the order of their list, and `node2member` in
the orders `order` and `order'`. -/
def plan (members : List (String × Info)) (order order' : List String) (partitions : List Nat)
    (offsets : Nat → Option (Nat × Nat)) : Except PlanError BalancePlan × Process :=
  let P := members.foldl (fun P m => P.visit m.2) P.reset
  let P := P.discard (members.map (fun m => m.2.node))
  match measure offsets partitions true P with
  | (.error e, P) => (.error e, P)
  | (.ok clean, P) =>
    match assignFree P.isFree 0 order (partitions.drop 1) P.node2partition with
    | (false, table) => (.error .tooFewPartitions, { P with node2partition := table })
    | (true, table) =>
      let P := { P with node2partition := table }
      if clean then (.ok (P.cleanPlan members order'), { P with recovery := none })
      else (.ok (P.recoveryPlan members partitions), P)

/-- `updateRoutes`: the tables are those of the group, with the assignments of the
current generation. -/
def updateRoutes (members : List (String × Info)) (assignment : BalancePlan) : Process :=
  { P with
    service2nodes := members.foldl (fun t m => addServices t m.2) (fun _ => [])
    node2partition := members.foldl
      (fun t m => Function.update t m.2.node ((assignment m.1).headD 0)) (fun _ => 0) }

/-- `Setup` of a member whose partitions are `claims`. -/
def setup (members : List (String × Info)) (assignment : BalancePlan) (claims : List Nat) :
    Process :=
  match claims with
  | [] => P
  | p :: _ =>
    -- A process whose map is not nil takes itself for the leader of a recovery.
    if P.recovery.isSome then P
    else { P.updateRoutes members assignment with self := { P.self with partition := p } }

/-- `Cleanup`: the latest info is published. -/
def cleanup : Process := { P with userData := P.self }

/-- The end of `recover`. -/
def recovered : Process := { P with offset0 := P.max0 }

end Process

end Kar.Rpc
