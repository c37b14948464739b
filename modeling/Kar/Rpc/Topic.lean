import Kar.Rpc.Assignment
import Kar.Rpc.FixedPoint

/-!
# The group and its topic

The generations of the consumer group over the topic that they read and write.  A plan
sees the offsets that the partitions have when it runs, and the recovery that an unclean
plan asks for is the `recover` of its leader with the variables that the plan left in the
process.  It completes or it is interrupted after some of its sends.

Messages are written to partition `0` at any time.  The other partitions are written by
the members, who hold the mutex during a recovery, so they are not written then.  The
store may change between two recoveries, so each of them comes with the store it finds.
-/

namespace Kar.Rpc

open Kar.Lib

/-- The tables with which a process routes. -/
def Process.tables (P : Process) (cached : Bool) : Tables where
  self := P.self.node
  service2nodes := P.service2nodes
  node2partition := P.node2partition
  placementCache := cached

/-- The map `recovery` of the leader of a recovery. -/
def Process.liveSet (P : Process) : Live where
  mem := fun p => decide (p ≠ 0) && P.live p
  zero := rfl

/-- The partitions of the members in the table of the leader. -/
def Generation.attached (g : Generation) (P : Process) : Live where
  mem := fun p => decide (p ≠ 0) && g.nodes.any (fun n => decide (P.node2partition n = p))
  zero := rfl

/-- What the leader of a recovery reads. -/
def Generation.read (g : Generation) (P : Process) : Claims where
  partitions := g.claims g.leader
  newest := P.newest

structure Topic where
  group : Consumers
  /-- The number of partitions. -/
  size : Nat
  log : Log

/-- `CreateTopic` makes partition `0` only. -/
def Topic.init : Topic where
  group := .init
  size := 1
  log := .empty

inductive TopicEvent
  | dial (node : String) (services : List String)
  /-- `CreatePartitions` -/
  | grow (n : Nat)
  /-- `GetOffset` fails for the partitions `failing`. -/
  | plan (leader : String) (members : List (String × String)) (order order' : List String)
      (failing : List Nat)
  | setup (nodes : List String)
  | recover (store : Store) (cs : Nat → Chance)
  | append (p : Nat) (m : Message)

namespace Topic

variable (s : Topic)

/-- The answers of `GetOffset`. -/
def offsets (failing : List Nat) (p : Nat) : Option (Nat × Nat) :=
  if p ∈ failing then none else some ((s.log p).oldest, (s.log p).newest)

/-- The process that leads the generation. -/
def leading (g : Generation) : Process := s.group.procs g.leader

/-- The leader of the generation recovers. -/
def recovering : Bool :=
  match s.group.generation with
  | none => false
  | some g => (s.leading g).recovery.isSome

/-- A request of partition `0` asks for a service, and other partitions are not written
during a recovery. -/
def accepts (p : Nat) (m : Message) : Bool :=
  decide (p < s.size) &&
    if p = 0 then
      match m with
      | .request v => v.target.service?.isSome
      | _ => true
    else !s.recovering

/-- The recovery of the leader. -/
def recovery (cached : Bool) (g : Generation) (store : Store) (cs : Nat → Chance) :
    Except SendError Unit × World :=
  recover ((s.leading g).tables cached) (s.leading g).liveSet (g.read (s.leading g)) cs
    (.start s.log store)

def step (cached : Bool) (s : Topic) : TopicEvent → Option Topic
  | .dial n services => (s.group.step (.dial n services)).map fun group => { s with group := group }
  | .grow n => some { s with size := s.size + n }
  | .plan leader members order order' failing =>
    (s.group.step (.plan leader members order order' s.size (s.offsets failing))).map
      fun group => { s with group := group }
  | .setup nodes => (s.group.step (.setup nodes)).map fun group => { s with group := group }
  | .recover store cs =>
    match s.group.generation with
    | none => none
    | some g =>
      if (s.leading g).recovery.isSome then
        match s.recovery cached g store cs with
        | (.ok (), w) =>
          (s.group.step .recovered).map fun group => { s with group := group, log := w.log }
        -- The session ends without a `Setup` that completes.
        | (.error _, w) =>
          (s.group.step (.setup [])).map fun group => { s with group := group, log := w.log }
      else none
  | .append p m => if s.accepts p m then some { s with log := s.log.append p m } else none

end Topic

end Kar.Rpc
