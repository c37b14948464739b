import Kar.Lib.Run
import Kar.Rpc.Resends

/-!
# The nodes and their runs

The rpc layer of all nodes together: the topic, the store, the consumer group
and the requests that each node works on.  `step` gives what each event does, for
one `Label` per event.

* A node sends requests, consumes its partition in offset order, and runs a task
  for each request it consumes.  A task whose request names a child first waits
  for the response of that child.  It ends with a completion record or with a
  tail call.
* A node dies at any time.  The group then rebalances: it stops sending, dead
  members are removed and new ones join, and one member leads.  The leader either
  runs a recovery, or gives every member its partition, and then sending resumes.

Between a rebalance and the next setup no node sends or consumes, since the
producer mutex is held for writing.  A recovery is one step and runs to
completion.  The group keeps its leader until the leader leaves it, and a node
that left does not come back.

The order in which an actor runs its tasks is left open, and so is the moment at
which a task is turned down: for an expired deadline, a busy actor or an undefined
method.  `History` records what has happened.  No step depends on it, except that
the ids of new requests are fresh.
-/

namespace Kar.Rpc

open Kar.Lib

/-- Where a task stands: blocked on `waitForChild`, free to run, or in its
handler. -/
inductive Phase
  | waiting
  | ready
  | running
  deriving DecidableEq, Repr

/-- A request that a node has consumed and not finished. -/
structure Task where
  tid : Nat
  node : String
  msg : Request
  phase : Phase
  deriving DecidableEq, Repr

/-- Who is woken by a response: an entry of the map `requests` of a node. -/
inductive Waiter
  | caller
  | parent (tid : Nat)
  deriving DecidableEq, Repr

/-- The consumer group. -/
structure Group where
  /-- The number of partitions of the topic. -/
  size : Nat
  /-- The members, dead ones too until they are expelled. -/
  members : List String
  /-- Every node that ever joined. -/
  known : List String
  alive : String → Bool
  /-- The services of each node. -/
  offers : String → List String
  /-- `self.Partition` of each node, which it publishes to the group. -/
  attached : String → Nat
  /-- `node2partition` of the leader, which all nodes share after a setup. -/
  table : String → Nat
  /-- The group is between a setup and the next cleanup. -/
  running : Bool

/-- What has happened so far. -/
structure History where
  /-- The requests whose `Send` succeeded, by id. -/
  sent : String → Option Request
  /-- The ids for which a completion record was ever written. -/
  recorded : String → Bool
  /-- The ids whose handler has returned a final result that was handed to
  `sendOrDie` on a node that is still alive. -/
  done : String → Bool
  /-- The nested calls of each request. -/
  nested : String → List String
  /-- The nested calls of each request at the time it was last sent again. -/
  retry : String → List String

structure State where
  log : Log
  store : Store
  placementCache : Bool
  group : Group
  caches : String → Cache
  /-- The next offset that each node reads. -/
  head : String → Nat
  tasks : List Task
  nextTid : Nat
  /-- Who waits for which response on each node. -/
  requests : String → GoMap String Waiter
  history : History

/-- Before the first node joins. -/
def State.init (placementCache : Bool) : State where
  log := .empty
  store := .empty
  placementCache := placementCache
  group := {
    size := 1
    members := []
    known := []
    alive := fun _ => false
    offers := fun _ => []
    attached := fun _ => 0
    table := fun _ => 0
    running := false }
  caches := fun _ => .empty
  head := fun _ => 0
  tasks := []
  nextTid := 0
  requests := fun _ => .empty
  history := {
    sent := fun _ => none
    recorded := fun _ => false
    done := fun _ => false
    nested := fun _ => []
    retry := fun _ => [] }

inductive Label
  | send (node : String) (msg : Request) (c : Chance)
  | consume (node : String)
  | start (tid : Nat)
  | finish (tid : Nat) (value : List UInt8) (errMsg : String) (c : Chance)
  | reject (tid : Nat) (errMsg : String) (c : Chance)
  | tail (tid : Nat) (target : Target) (method : String) (value : List UInt8) (deferred : Bool)
      (c : Chance)
  | die (node : String)
  | expel (node : String)
  | join (node : String) (services : List String)
  | rebalance
  | newLeader
  | grow
  | recover (leader : String) (assign : String → Nat) (cs : Nat → Chance)
  | setup (assign : String → Nat)

/-! ## The group -/

namespace Group

variable (g : Group)

/-- The process of node `n` ends. -/
def kill (n : String) : Group := { g with alive := Function.update g.alive n false }

/-- A dead member is removed. -/
def expel (n : String) : Group :=
  { g with
    members := g.members.filter (fun m => decide (m ≠ n))
    table := Function.update g.table n 0
    attached := Function.update g.attached n 0 }

/-- A new node joins. -/
def join (n : String) (services : List String) : Group :=
  { g with
    members := g.members ++ [n]
    known := n :: g.known
    alive := Function.update g.alive n true
    offers := Function.update g.offers n services }

/-- `node2partition` after a plan: a member keeps the partition it has in the
table, and another one gets the partition of `assign`. -/
def planTable (assign : String → Nat) (n : String) : Nat :=
  if n ∈ g.members then if g.table n = 0 then assign n else g.table n else 0

/-- The partitions that a plan gives to new members are empty, and no two members
share one. -/
structure PlanOk (log : Log) (assign : String → Nat) : Prop where
  pos : ∀ n ∈ g.members, g.planTable assign n ≠ 0 ∧ g.planTable assign n < g.size
  empty : ∀ n ∈ g.members, g.table n = 0 → log.messages (assign n) = []
  nodup : (g.members.map (g.planTable assign)).Nodup

instance (log : Log) (assign : String → Nat) : Decidable (g.PlanOk log assign) :=
  decidable_of_iff ((∀ n ∈ g.members, g.planTable assign n ≠ 0 ∧ g.planTable assign n < g.size) ∧
      (∀ n ∈ g.members, g.table n = 0 → log.messages (assign n) = []) ∧
      (g.members.map (g.planTable assign)).Nodup)
    ⟨fun h => ⟨h.1, h.2.1, h.2.2⟩, fun h => ⟨h.pos, h.empty, h.nodup⟩⟩

/-- The partitions connected to members: the map `recovery` of the plan. -/
def live (table : String → Nat) : Live where
  mem := fun p => decide (p ≠ 0) && g.members.any (fun n => decide (table n = p))
  zero := rfl

/-- Every partition that is not empty is partition `0` or belongs to a member. -/
def Clean (log : Log) : Prop :=
  ∀ p ∈ List.range g.size, p ≠ 0 → log.messages p ≠ [] → (g.live g.table).mem p = true

instance (log : Log) : Decidable (g.Clean log) :=
  inferInstanceAs (Decidable (∀ p ∈ List.range g.size, _))

/-- The routing tables of a node, for the members of the group. -/
def tables (placementCache : Bool) (self : String) (table : String → Nat) : Tables where
  self := self
  service2nodes := fun name => g.members.filter (fun n => decide (name ∈ g.offers n))
  node2partition := table
  placementCache := placementCache

end Group

namespace State

variable (s : State)

/-! ## Sending -/

/-- `Send` on node `n`. -/
def sendFrom (n : String) (c : Chance) (msg : Message) : Except SendError Unit × State :=
  let w := send (s.group.tables s.placementCache n s.group.table) c msg
    { log := s.log, store := s.store, cache := s.caches n, sent := [] }
  (w.1, { s with
    log := w.2.log
    store := w.2.store
    caches := Function.update s.caches n w.2.cache })

/-- The process of node `n` ends. -/
def kill (n : String) : State :=
  { s with
    group := s.group.kill n
    tasks := s.tasks.filter (fun t => decide (t.node ≠ n))
    requests := Function.update s.requests n .empty }

/-- The task ends. -/
def drop (tid : Nat) : State :=
  { s with tasks := s.tasks.filter (fun t => decide (t.tid ≠ tid)) }

def find (tid : Nat) : Option Task := s.tasks.find? (fun t => decide (t.tid = tid))

/-- A new request: a call or a tell with a fresh id, for a target without lock.
A nested call names a request that runs on the node, and its target is an
actor. -/
def NewRequest (n : String) (v : Request) : Prop :=
  s.history.sent v.requestID = none ∧ v.requestID ≠ "" ∧ v.sequence = 0 ∧ v.childID = "" ∧
    v.locked = false ∧ v.target.validName = true ∧ (v.caller? = none ∨ v.caller? = some "") ∧
    (v.callParent = none ∨ v.callParent = some "" ∨
      (v.target.service? ≠ none ∧
        ∃ t ∈ s.tasks, t.node = n ∧ t.phase = .running ∧ v.callParent = some t.msg.requestID))

instance (n : String) (v : Request) : Decidable (s.NewRequest n v) :=
  inferInstanceAs (Decidable (_ ∧ _))

/-- A request was sent: the caller waits for its response. -/
def recordSend (n : String) (v : Request) : State :=
  { s with
    requests :=
      match v with
      | .call m => Function.update s.requests n ((s.requests n).set m.requestID .caller)
      | .tell _ => s.requests
    history := { s.history with
      sent := Function.update s.history.sent v.requestID (some v)
      nested :=
        match v with
        | .call m => Function.update s.history.nested m.parentID
            (s.history.nested m.parentID ++ [m.requestID])
        | .tell _ => s.history.nested } }

/-! ## Consuming -/

/-- The messages of its partition that node `n` has not read. -/
def pending (n : String) : List Message :=
  if s.group.table n = 0 then []
  else (s.log (s.group.table n)).records.drop (s.head n - (s.log (s.group.table n)).oldest)

/-- `accept` of a request: a task, which waits for the child if there is one. -/
def acceptRequest (n : String) (v : Request) : State :=
  { s with
    tasks := s.tasks ++ [{
      tid := s.nextTid
      node := n
      msg := v
      phase := if v.childID = "" ∨ v.target.service? = none then .ready else .waiting }]
    nextTid := s.nextTid + 1
    requests :=
      if v.childID = "" then s.requests
      else Function.update s.requests n ((s.requests n).set v.childID (.parent s.nextTid)) }

/-- The parent that waits in task `tid` goes on. -/
def wake (tid : Nat) : State :=
  { s with
    tasks := s.tasks.map (fun t =>
      if t.tid = tid ∧ t.phase = .waiting then { t with phase := .ready } else t) }

/-- `accept` of a response: it is given to whoever waits for it. -/
def acceptResponse (n : String) (id : String) : State :=
  match (s.requests n).get? id with
  | none => s
  | some .caller =>
    { s with requests := Function.update s.requests n ((s.requests n).delete id) }
  | some (.parent tid) =>
    { s.wake tid with requests := Function.update s.requests n ((s.requests n).delete id) }

def acceptMessage (n : String) : Message → State
  | .request v => s.acceptRequest n v
  | .response r => s.acceptResponse n r.requestID
  | .done _ => s

/-- The offset of the first unread message is passed. -/
def advance (n : String) : State :=
  { s with
    head := Function.update s.head n
      (max (s.head n) (s.log (s.group.table n)).oldest + 1) }

/-! ## Finishing -/

/-- The completion record that a request ends with.  A tell to a node has none. -/
def final (v : Request) (value : List UInt8) (errMsg : String) : Option Message :=
  match v with
  | .call m => some (.response {
      requestID := m.requestID
      value := value
      deadline := m.deadline
      errMsg := errMsg
      node := m.caller })
  | .tell m =>
    match m.target with
    | .node _ => none
    | _ => some (.done { requestID := m.requestID, deadline := m.deadline })

/-- The task ends with its completion record.  `sendOrDie` ignores that the caller
is unavailable, and ends the process on any other error. -/
def conclude (t : Task) (value : List UInt8) (errMsg : String) (c : Chance) : State :=
  match final t.msg value errMsg with
  | none => s.drop t.tid
  | some m =>
    match s.sendFrom t.node c m with
    | (.ok (), s') =>
      { s'.drop t.tid with
        history := { s.history with
          recorded := Function.update s.history.recorded t.msg.requestID true } }
    | (.error .unavailable, s') => s'.drop t.tid
    | (.error _, s') => s'.kill t.node

/-- The handler of the task has returned a final result. -/
def finish (t : Task) (value : List UInt8) (errMsg : String) (c : Chance) : State :=
  let s' := s.conclude t value errMsg c
  { s' with
    history := { s'.history with
      done :=
        if s'.group.alive t.node = true ∧ (final t.msg value errMsg).isSome = true then
          Function.update s.history.done t.msg.requestID true
        else s.history.done } }

/-- The continuation of a request after a tail call. -/
def continuation (v : Request) (target : Target) (method : String) (value : List UInt8)
    (deferred : Bool) : Request :=
  let deadline := if deferred then none else v.deadline
  match v with
  | .call m => .call {
      requestID := m.requestID
      value := value
      deadline := deadline
      target := target
      method := method
      caller := m.caller
      sequence := m.sequence + 1
      childID := ""
      parentID := ""
      isEdited := false }
  | .tell m => .tell {
      requestID := m.requestID
      value := value
      deadline := deadline
      target := target
      method := method
      sequence := m.sequence + 1
      childID := ""
      parentID := ""
      isEdited := false }

section Continuation

variable (v : Request) (target : Target) (method : String) (value : List UInt8) (deferred : Bool)

@[simp] theorem requestID_continuation :
    (continuation v target method value deferred).requestID = v.requestID := by
  cases v <;> rfl

@[simp] theorem sequence_continuation :
    (continuation v target method value deferred).sequence = v.sequence + 1 := by
  cases v <;> rfl

@[simp] theorem target_continuation :
    (continuation v target method value deferred).target = target := by
  cases v <;> rfl

@[simp] theorem childID_continuation :
    (continuation v target method value deferred).childID = "" := by
  cases v <;> rfl

theorem deadline_continuation : (continuation v target method value deferred).deadline =
    if deferred then none else v.deadline := by
  cases v <;> rfl

end Continuation

/-- A tail call of an actor goes to a service or an actor, and it keeps the lock
only when it goes to the same actor. -/
def tailTarget (v : Request) (target : Target) : Bool :=
  target.validName && match v.target, target with
    | .session _ _ _ _, .service _ => true
    | .session name id _ _, .session name' id' _ lock =>
      decide (lock = "" ∨ (name' = name ∧ id' = id))
    | _, _ => false

/-- The task ends with a tail call. -/
def continueWith (t : Task) (v : Request) (c : Chance) : State :=
  match s.sendFrom t.node c (.request v) with
  | (.ok (), s') => s'.drop t.tid
  | (.error .unavailable, s') => s'.drop t.tid
  | (.error _, s') => s'.kill t.node

/-! ## Recovering -/

/-- What a recovery reads. -/
def reads : List (Nat × Message) := (Claims.ofPlan s.group.size s.log).reads s.log

/-- The ids that a recovery sends again. -/
def resent : List String :=
  (resends (recoverActions (s.group.live s.group.table) (.ofPlan s.group.size s.log) s.log)).map
    (fun r => r.1.requestID)

/-- The state after a recovery of the log to `w`, with the table of the plan. -/
def recovered (assign : String → Nat) (w : World) : State :=
  { s with
    log := w.log
    store := w.store
    group := { s.group with table := s.group.planTable assign }
    history := { s.history with
      recorded := fun k =>
        s.history.recorded k ||
          w.sent.any (fun pm => pm.2.isRecord && decide (pm.2.requestID = k))
      retry := fun k => if k ∈ s.resent then s.history.nested k else s.history.retry k } }

end State

/-- What an event does.  It gives `none` when the event cannot happen. -/
def step (s : State) : Label → Option State
  | .send n v c =>
    if s.group.running = true ∧ s.group.alive n = true ∧ s.NewRequest n v then
      match s.sendFrom n c (.request v) with
      | (.ok (), s') => some (s'.recordSend n v)
      | (.error _, s') => some s'
    else none
  | .consume n =>
    if s.group.running = true ∧ s.group.alive n = true then
      match s.pending n with
      | [] => none
      | m :: _ => some ((s.advance n).acceptMessage n m)
    else none
  | .start tid =>
    match s.find tid with
    | none => none
    | some t =>
      if t.phase = .ready then
        some { s with
          tasks := s.tasks.map (fun t => if t.tid = tid then { t with phase := .running } else t) }
      else none
  | .finish tid value errMsg c =>
    match s.find tid with
    | none => none
    | some t =>
      if s.group.running = true ∧ t.phase = .running then some (s.finish t value errMsg c)
      else none
  | .reject tid errMsg c =>
    match s.find tid with
    | none => none
    | some t =>
      if s.group.running = true ∧ t.phase ≠ .running then some (s.conclude t [] errMsg c)
      else none
  | .tail tid target method value deferred c =>
    match s.find tid with
    | none => none
    | some t =>
      if s.group.running = true ∧ t.phase = .running ∧ State.tailTarget t.msg target = true then
        some (s.continueWith t (State.continuation t.msg target method value deferred) c)
      else none
  | .die n => if s.group.alive n = true then some (s.kill n) else none
  | .expel n =>
    if s.group.running = false ∧ s.group.alive n = false ∧ n ∈ s.group.members then
      some { s with group := s.group.expel n }
    else none
  | .join n services =>
    if s.group.running = false ∧ n ∉ s.group.known ∧ n ≠ "" then
      some { s with group := s.group.join n services }
    else none
  | .rebalance =>
    if s.group.running = true then some { s with group := { s.group with running := false } }
    else none
  | .newLeader =>
    -- What the last leader had planned and nobody has published is forgotten.
    if s.group.running = false then
      some { s with group := { s.group with table := s.group.attached } }
    else none
  | .grow => some { s with group := { s.group with size := s.group.size + 1 } }
  | .recover leader assign cs =>
    if s.group.running = false ∧ s.group.alive leader = true ∧ s.group.PlanOk s.log assign then
      match Kar.Rpc.recover
          (s.group.tables s.placementCache leader (s.group.planTable assign))
          (s.group.live s.group.table) (.ofPlan s.group.size s.log) cs (.start s.log s.store) with
      | (.ok (), w) => some (s.recovered assign w)
      | (.error _, _) => none
    else none
  | .setup assign =>
    if s.group.running = false ∧ s.group.PlanOk s.log assign ∧ s.group.Clean s.log then
      some { s with
        group := { s.group with
          running := true
          table := s.group.planTable assign
          attached := s.group.planTable assign }
        caches := fun _ => .empty }
    else none

/-! ## Concrete runs -/

/-- A call of an actor as a client sends it.  The concrete runs of the development
are made of these. -/
def newCall (requestID name id method parentID : String) : Request :=
  .call {
    requestID := requestID
    value := []
    deadline := none
    target := .session name id "flow" ""
    method := method
    caller := ""
    sequence := 0
    childID := ""
    parentID := parentID
    isEdited := false }

/-- Nodes `n1` to `n4` get the partitions `1` to `4`. -/
def samplePlan (n : String) : Nat :=
  if n = "n1" then 1 else if n = "n2" then 2 else if n = "n3" then 3 else if n = "n4" then 4 else 0

end Kar.Rpc
