import Kar.Lib.Run
import Kar.Rpc.StrategySpec

/-!
# Generations of the consumer group

A history of the group: processes start, and one generation follows the other.  In each
of them some member leads and computes the plan from what the members have published,
then members run their `Setup`, and a recovery that the plan asked for may complete.
Any set of processes can be the members of a generation, so members leave, are expelled
and come back in any order, and any member can lead.  Nothing is assumed about the
offsets that a plan sees.

A process publishes its info when it starts and at each `Cleanup`.  Here the `Cleanup`
of a session follows its `Setup` at once, since nothing reads the info in between.

The fields `missed` and `assigned` record what has happened.  No step depends on them.
-/

namespace Kar.Rpc

open Kar.Lib

/-- A generation whose plan was computed. -/
structure Generation where
  leader : String
  members : List (String × Info)
  plan : BalancePlan

/-- The partitions of the member that runs on node `n`. -/
def Generation.claims (g : Generation) (n : String) : List Nat :=
  match g.members.find? (fun m => decide (m.2.node = n)) with
  | some m => g.plan m.1
  | none => []

def Generation.nodes (g : Generation) : List String := g.members.map (fun m => m.2.node)

structure Consumers where
  procs : String → Process
  /-- Every process that was ever started. -/
  known : List String
  generation : Option Generation
  /-- The processes that were not a member of some generation, or did not complete a
  `Setup` that another member completed. -/
  missed : String → Bool
  /-- The partitions that each process was assigned in the generations in which it
  completed its `Setup`. -/
  assigned : String → List Nat

def Consumers.init : Consumers where
  procs := fun n => .dial n []
  known := []
  generation := none
  missed := fun _ => false
  assigned := fun _ => []

inductive GroupEvent
  | dial (node : String) (services : List String)
  /-- The members come with their member ids. -/
  | plan (leader : String) (members : List (String × String)) (order order' : List String)
      (size : Nat) (offsets : Nat → Option (Nat × Nat))
  | setup (nodes : List String)
  | recovered

namespace Consumers

variable (s : Consumers)

/-- What a plan sees of the members. -/
def infos (members : List (String × String)) : List (String × Info) :=
  members.map (fun m => (m.1, (s.procs m.2).userData))

/-- The plan of the leader. -/
def planned (leader : String) (members : List (String × String)) (order order' : List String)
    (size : Nat) (offsets : Nat → Option (Nat × Nat)) : Except PlanError BalancePlan × Process :=
  (s.procs leader).plan (s.infos members) order order' (List.range size) offsets

/-- The leader is a member, and the members are processes with ids of their own. -/
structure Joined (leader : String) (members : List (String × String)) (order order' : List String) :
    Prop where
  leader : leader ∈ members.map Prod.snd
  known : ∀ n ∈ members.map Prod.snd, n ∈ s.known
  ids : (members.map Prod.fst).Nodup
  nodes : (members.map Prod.snd).Nodup
  order : order.Perm (members.map Prod.snd)
  order' : order'.Perm (members.map Prod.snd)

instance (leader : String) (members : List (String × String)) (order order' : List String) :
    Decidable (s.Joined leader members order order') :=
  decidable_of_iff (leader ∈ members.map Prod.snd ∧ (∀ n ∈ members.map Prod.snd, n ∈ s.known) ∧
      (members.map Prod.fst).Nodup ∧ (members.map Prod.snd).Nodup ∧
      order.Perm (members.map Prod.snd) ∧ order'.Perm (members.map Prod.snd))
    ⟨fun h => ⟨h.1, h.2.1, h.2.2.1, h.2.2.2.1, h.2.2.2.2.1, h.2.2.2.2.2⟩,
      fun h => ⟨h.leader, h.known, h.ids, h.nodes, h.order, h.order'⟩⟩

/-- The process completes its `Setup` as a member with one partition. -/
def completes (g : Generation) (nodes : List String) (n : String) : Bool :=
  decide (n ∈ nodes) && !(g.claims n).isEmpty && (s.procs n).recovery.isNone

def setUp (g : Generation) (nodes : List String) : Consumers :=
  { s with
    procs := fun n =>
      if n ∈ nodes then ((s.procs n).setup g.members g.plan (g.claims n)).cleanup else s.procs n
    generation := none
    missed := fun n => s.missed n ||
      (decide (n ∈ g.nodes) && !s.completes g nodes n && g.nodes.any (s.completes g nodes))
    assigned := fun n =>
      if s.completes g nodes n then s.assigned n ++ (g.claims n).take 1 else s.assigned n }

/-- A process starts. -/
def start (n : String) (services : List String) : Consumers :=
  { s with procs := Function.update s.procs n (.dial n services), known := n :: s.known }

/-- The leader is left with its variables `Q` and the result `r` of its plan. -/
def afterPlan (leader : String) (members : List (String × String))
    (r : Except PlanError BalancePlan) (Q : Process) : Consumers :=
  { s with
    procs := Function.update s.procs leader Q
    generation :=
      match r with
      | .ok plan => some { leader := leader, members := s.infos members, plan := plan }
      | .error _ => none
    missed := fun n => s.missed n || (decide (n ∈ s.known) && decide (n ∉ members.map Prod.snd)) }

def step : GroupEvent → Option Consumers
  | .dial n services => if n ∉ s.known then some (s.start n services) else none
  | .plan leader members order order' size offsets =>
    if s.Joined leader members order order' then
      let r := s.planned leader members order order' size offsets
      some (s.afterPlan leader members r.1 r.2)
    else none
  | .setup nodes =>
    match s.generation with
    | none => none
    | some g => some (s.setUp g nodes)
  | .recovered =>
    match s.generation with
    | none => none
    | some g =>
      if (s.procs g.leader).recovery.isSome ∧ g.claims g.leader ≠ [] then
        some { s with
          procs := Function.update s.procs g.leader (s.procs g.leader).recovered
          generation := none }
      else none

/-- No process that missed a generation takes part in a later one. -/
def NoReturn (s : Consumers) : GroupEvent → Prop
  | .plan _ members _ _ _ _ => ∀ n ∈ members.map Prod.snd, s.missed n = false
  | _ => True

instance (s : Consumers) : (e : GroupEvent) → Decidable (NoReturn s e)
  | .plan _ members _ _ _ _ => inferInstanceAs (Decidable (∀ n ∈ members.map Prod.snd, _))
  | .dial .. | .setup .. | .recovered => inferInstanceAs (Decidable True)

end Consumers

end Kar.Rpc
