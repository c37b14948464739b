import Mathlib.Algebra.Group.Nat.Defs
import Kar.Rpc.Routing

/-!
# Recovery

`handler.recover` of `core/pkg/rpc/transport.go`.  The recovery leader reads
every claimed partition, decides from what it read which requests have to be
sent again, sends them, and empties the partitions of dead nodes.

* `Scan` is the set of maps that the reading loop fills, and `scanMessage` is
  the body of that loop.
* `Scan.min` is the map `min`: where a request restarts.
* `recoverStep` is the body of the resend loop.  It only depends on the scan
  and on the ids seen so far, so the sends that the loop makes are the list
  `recoverActions`, and `perform` makes them in turn until one fails.
* `recover` is the whole function.  It empties the dead partitions only when
  every send succeeded.

The messages are read in the order of the claims, which sarama sorts, and in
each partition in offset order.
-/

namespace Kar.Rpc

open Kar.Lib

/-- The partitions connected to live nodes: the map `recovery` of the process
that leads the recovery.  Partition `0` is never one of them. -/
structure Live where
  mem : Nat → Bool
  zero : mem 0 = false

/-- What the leader reads: the claimed partitions in order, and the map
`newest` with the offset at which it stops reading each of them. -/
structure Claims where
  partitions : List Nat
  newest : Nat → Nat

/-- The claims of a recovery plan over the partitions below `n`: partition `0`
and every partition that is not empty. -/
def Claims.ofPlan (n : Nat) (log : Log) : Claims where
  newest := fun p => if (log p).oldest < (log p).newest then (log p).newest else 0
  partitions := (List.range n).filter
    (fun p => decide (p = 0 ∨ (log p).oldest < (log p).newest))

/-- The messages read from partition `p`: the records below `newest[p]`. -/
def Claims.messages (c : Claims) (log : Log) (p : Nat) : List Message :=
  (log p).records.take (c.newest p - (log p).oldest)

/-- Everything the leader reads, in reading order. -/
def Claims.reads (c : Claims) (log : Log) : List (Nat × Message) :=
  c.partitions.flatMap (fun p => (c.messages log p).map (fun m => (p, m)))

/-- `1 << 30`: the sequence number that stands for a completion. -/
def sentinel : Nat := 2 ^ 30

/-- The maps that the reading loop of `recover` fills. -/
structure Scan where
  orphans : List Message
  orphans0 : List Message
  calls : GoMap String (List String)
  responses : GoMap String Unit
  requests : GoMap String Unit
  responses0 : GoMap String Unit
  requests0 : GoMap String Nat
  handled : GoMap String Nat
  max : GoMap String Nat
  latest : GoMap String Request
  chains : GoMap String (GoMap Nat Unit)

/-- The maps before the first message is read. -/
def Scan.empty : Scan where
  orphans := []
  orphans0 := []
  calls := .empty
  responses := .empty
  requests := .empty
  responses0 := .empty
  requests0 := .empty
  handled := .empty
  max := .empty
  latest := .empty
  chains := .empty

/-- A request of partition `p` was read.  Each map is updated from its own value
only, so the branches of the loop body are written map by map. -/
def scanRequest (live : Live) (p : Nat) (s : Scan) (v : Request) : Scan where
  -- `max` and `latest` follow the greatest sequence number.
  max := s.max.raise v.requestID v.sequence
  latest :=
    if s.max.getD v.requestID 0 ≤ v.sequence then s.latest.set v.requestID v else s.latest
  chains :=
    if v.locked then
      s.chains.set v.requestID ((s.chains.getD v.requestID .empty).set v.sequence ())
    else s.chains
  calls :=
    match v with
    | .call c => s.calls.set c.parentID (s.calls.getD c.parentID [] ++ [c.requestID])
    | .tell _ => s.calls
  -- Dead partitions and partition `0`: the body ends with `continue`.
  orphans0 := if !live.mem p ∧ p = 0 then s.orphans0 ++ [.request v] else s.orphans0
  requests0 :=
    if !live.mem p ∧ p = 0 then s.requests0.raise v.requestID v.sequence else s.requests0
  orphans := if !live.mem p ∧ p ≠ 0 then s.orphans ++ [.request v] else s.orphans
  -- Live partitions.
  handled := if live.mem p then s.handled.raise v.requestID v.sequence else s.handled
  requests := if live.mem p ∨ p = 0 then s.requests.set v.requestID () else s.requests
  responses := s.responses
  responses0 := s.responses0

/-- A `Response` or a `Done` was read. -/
def scanRecord (live : Live) (p : Nat) (s : Scan) (m : Message) : Scan :=
  { s with
    responses := s.responses.set m.requestID ()
    handled := s.handled.set m.requestID sentinel
    orphans := if !live.mem p ∧ p ≠ 0 then s.orphans ++ [m] else s.orphans
    responses0 := if p = 0 then s.responses0.set m.requestID () else s.responses0 }

/-- The body of the reading loop: message `m` of partition `p` was read. -/
def scanMessage (live : Live) (s : Scan) (pm : Nat × Message) : Scan :=
  match pm.2 with
  | .request v => scanRequest live pm.1 s v
  | m => scanRecord live pm.1 s m

/-- The maps after everything was read. -/
def scan (live : Live) (reads : List (Nat × Message)) : Scan :=
  reads.foldl (scanMessage live) .empty

/-- The loop `for i := max[k]; i >= 0; i--` that looks for a sequence number
outside the chain. -/
def lastOutside (chain : GoMap Nat Unit) : Nat → Option Nat
  | 0 => if chain.has 0 then none else some 0
  | i + 1 => if chain.has (i + 1) then lastOutside chain i else some (i + 1)

/-- The map `min`: the greatest sequence number, moved down to the start of the
chain when there is one. -/
def Scan.min (s : Scan) (k : String) : Nat :=
  match s.chains.get? k with
  | none => s.max.getD k 0
  | some chain => (lastOutside chain (s.max.getD k 0)).getD (s.max.getD k 0)

/-- A send that the resend loop makes. -/
inductive Action
  | resend (msg : Request) (drop : Bool)
  | respond (msg : Done)
  deriving DecidableEq, Repr

/-- `childID`: the last nested call of `k` that has no response. -/
def Scan.childID (s : Scan) (k : String) : String :=
  (s.calls.getD k []).foldl (fun childID r => if s.responses.has r then childID else r) ""

/-- A request that is sent again: with the child it waits for, at the sequence
number of the restart and without deferred lock. -/
def Request.restartAt (childID : String) (sequence : Nat) : Request → Request
  | .call w =>
    .call { w with childID := childID, sequence := sequence, target := w.target.clearLock }
  | .tell w =>
    .tell { w with childID := childID, sequence := sequence, target := w.target.clearLock }

/-- The message of `k` that is sent again when the orphan `v` is reached: it is
made from the latest message of `k`. -/
def Scan.restarted (s : Scan) (k : String) (v : Request) : Request :=
  match s.latest.get? k with
  | some w => w.restartAt (s.childID k) (s.min k)
  | none => v

/-- `s, ok := handled[k]; !ok || s < max[k]`: no live partition has the latest
message of `k`, and `k` has no response. -/
def Scan.unhandled (s : Scan) (k : String) : Bool :=
  match s.handled.get? k with
  | none => true
  | some h => decide (h < s.max.getD k 0)

/-- `s0, ok0 := requests0[k]; ok0 && s0 >= max[k]`: partition `0` already holds
the request. -/
def Scan.inPartition0 (s : Scan) (k : String) : Bool :=
  match s.requests0.get? k with
  | none => false
  | some s0 => decide (s.max.getD k 0 ≤ s0)

/-- The body of the resend loop: the send it makes for an orphan, if any, and
the ids seen afterwards. -/
def recoverStep (s : Scan) (seen : GoMap String Unit) (msg : Message) :
    Option Action × GoMap String Unit :=
  match msg with
  | .request v =>
    if s.unhandled v.requestID && decide (v.sequence = s.min v.requestID) then
      if seen.has v.requestID then (none, seen)
      else (some (.resend (s.restarted v.requestID v) (s.inPartition0 v.requestID)),
        seen.set v.requestID ())
    else (none, seen)
  | m =>
    if s.requests.has m.requestID && !s.responses0.has m.requestID then
      (some (.respond { requestID := m.requestID, deadline := m.deadline }), seen)
    else (none, seen)

/-- The sends that the resend loop makes over a list of orphans. -/
def recoverLoop (s : Scan) : List Message → GoMap String Unit → List Action
  | [], _ => []
  | msg :: orphans, seen =>
    match recoverStep s seen msg with
    | (none, seen) => recoverLoop s orphans seen
    | (some action, seen) => action :: recoverLoop s orphans seen

/-- The sends of a recovery, in order: the orphans of the dead partitions come
first, then the requests of partition `0`. -/
def Scan.actions (s : Scan) : List Action := recoverLoop s (s.orphans ++ s.orphans0) .empty

/-- One send of the recovery. -/
def Action.perform (t : Tables) (c : Chance) (w : World) : Action → Except SendError Unit × World
  | .resend msg drop => Kar.Rpc.resend t c msg drop w
  | .respond msg => Kar.Rpc.respond t c msg w

/-- The sends of the recovery are made one by one.  The first failure ends the
loop. -/
def perform (t : Tables) : (Nat → Chance) → List Action → World → Except SendError Unit × World
  | _, [], w => (.ok (), w)
  | cs, action :: actions, w =>
    match action.perform t (cs 0) w with
    | (.error e, w) => (.error e, w)
    | (.ok (), w) => perform t (fun i => cs (i + 1)) actions w

/-- The keys of `offsetsForDeletion`: the claimed partitions of dead nodes. -/
def Claims.offsetsForDeletion (c : Claims) (live : Live) : List Nat :=
  c.partitions.filter (fun p => !live.mem p && decide (p ≠ 0))

/-- The sends that a recovery of `log` makes. -/
def recoverActions (live : Live) (c : Claims) (log : Log) : List Action :=
  (scan live (c.reads log)).actions

/-- The recovery code.  The dead partitions are emptied when every send was
acknowledged. -/
def recover (t : Tables) (live : Live) (c : Claims) (cs : Nat → Chance) (w : World) :
    Except SendError Unit × World :=
  match perform t cs (recoverActions live c w.log) w with
  | (.error e, w) => (.error e, w)
  | (.ok (), w) => (.ok (), { w with log := w.log.deleteRecords (c.offsetsForDeletion live) })

end Kar.Rpc
