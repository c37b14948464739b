import Kar.Lib.TurnChain
import Kar.Rpc.System

/-!
# The session scheduler

`core/pkg/rpc/requests.go`: how the requests for the actors of a node are executed.  A node
has at most one valid instance of an actor, and the instance lets one request through at a
time.  There is no queue: each request is a goroutine, which receives the turn from the
channel `before` and sends it on the channel `after`.

* `acceptSession` runs on the one goroutine that reads messages.  It looks the instance up,
  waits for its entry lock, and then either lets the request through at once (its flow is
  the active one, or it is not exclusive) or gives it the last channel of the instance as
  `before` and a new one as `after`.
* `handleSessionRequest` is the goroutine of a request: it waits for its turn, for the child
  of a recovered request, calls the handler, and passes the turn on.  A tail call to the
  same actor parks the turn in `deferredLocks` instead.
* `collectInactiveSessions` starts a goroutine that takes the turn of an idle instance and
  removes the instance if nobody has asked for the turn meanwhile.

A step of the model is the code between two operations that other goroutines can see.
`Place` lists where a goroutine can stand.  The entry lock is held across steps only while
an instance is removed; `acceptSession` and the tests of the collector hold it within one
step.  A context is never cancelled.

What the outside world decides is in the event: which message comes, the time, what a
handler returns, when a child is done.  A handler may return any result.  The fields
`entered`, `omitted`, `released` and `violations` record what has happened, and no step
reads them.
-/

namespace Kar.Rpc

open Kar.Lib

/-- The session target of a request. -/
structure Session where
  name : String
  id : String
  flow : String
  deferredLockID : String
  deriving DecidableEq, Repr

def Target.session? : Target → Option Session
  | .session name id flow lock =>
    some { name := name, id := id, flow := flow, deferredLockID := lock }
  | _ => none

/-- The key of the session table. -/
structure SessionKey where
  name : String
  id : String
  deriving DecidableEq, Repr

def Session.key (target : Session) : SessionKey where
  name := target.name
  id := target.id

/-- The active flow of an instance that no request holds. -/
def releasedFlow : String := "released"

/-- A request that does not wait for its turn. -/
def nonexclusiveFlow : String := "nonexclusive"

/-- A channel of an instance: `make(chan struct{}, 1)`.  The channels of an instance are
numbered in the order in which they are made. -/
abbrev Chan := Link Nat

structure SessionInstance where
  key : SessionKey
  activeFlow : String
  activated : Bool
  /-- The time of the last access, absent for the zero time. -/
  lastAccess : Option Int
  /-- The number of the last channel. -/
  next : Nat
  /-- The entry lock is held while the instance is removed. -/
  locked : Bool
  valid : Bool
  deriving DecidableEq, Repr

/-- `instance.lastAccess.Before(time)` -/
def SessionInstance.idle (a : SessionInstance) (time : Int) : Bool :=
  match a.lastAccess with
  | none => true
  | some last => decide (last < time)

/-- The handler of a method.  The one of actors checks the flow of the request. -/
inductive SessionHandler
  | actor
  | binding
  deriving DecidableEq, Repr

/-- What a handler returns. -/
structure HandlerResult where
  dest : Option (Target × String)
  value : List UInt8
  err : Option String
  deriving DecidableEq, Repr

/-- Where a goroutine stands. -/
inductive Place
  /-- Before the receive on `before`. -/
  | waiting
  /-- The request has timed out, and the goroutine still waits for the turn. -/
  | timedOut
  /-- The request has timed out, and the goroutine has the turn. -/
  | relaying
  /-- After the receive on `before`, or at the start if there is none. -/
  | arrived
  /-- Waits for the child of a recovered request. -/
  | awaiting
  | resumed
  /-- About to call the handler. -/
  | acquired
  | running
  /-- About to send on `after`. -/
  | releasing
  /-- A deactivation that has set its own flow. -/
  | claimed
  | probed (can : Bool)
  /-- In the callback of a deactivation. -/
  | callback
  | settling
  /-- The instance is invalid and still in the table. -/
  | removing
  | closing
  /-- A deactivation that found a later request, and is about to send on `after`. -/
  | aborting
  | ended
  deriving DecidableEq, Repr

namespace Place

/-- The goroutine has not received the turn. -/
def waits : Place → Bool
  | waiting | timedOut => true
  | _ => false

/-- The goroutine is about to send the turn. -/
def sends : Place → Bool
  | relaying | releasing | aborting => true
  | _ => false

end Place

/-- What a goroutine is for. -/
inductive Job
  /-- `handleSessionRequest`.  The flow of the instance is reset at the end if `clear`. -/
  | request (target : Session) (m : Request) (clear : Bool)
  /-- The goroutine of `collectInactiveSessions`. -/
  | deactivation
  deriving DecidableEq, Repr

structure Thread where
  inst : Nat
  before : Option Chan
  after : Option Chan
  job : Job
  place : Place
  deriving DecidableEq, Repr

/-- The branches that log a flow violation. -/
inductive Violation
  /-- A recovered request does not own the instance when it waits for its child. -/
  | child
  /-- A request gets the turn of an instance that is owned. -/
  | acquire
  /-- A deactivation gets the turn of an instance that is owned. -/
  | deactivate
  | deferral
  | release
  | entry
  | exit
  deriving DecidableEq, Repr

/-- Why the handler of a request is not called. -/
inductive Omission
  | busy
  | undefined
  | cancelled
  deriving DecidableEq, Repr

structure SchedulerConfig where
  /-- `sessionBusyTimeout > 0` -/
  busyTimeout : Bool
  cancellation : Bool
  handlersSession : String → Option SessionHandler

/-- `acceptSession` after it has looked the instance up. -/
structure Loading where
  target : Session
  m : Request
  entry : Option Nat
  deriving DecidableEq, Repr

structure Scheduler where
  instances : Nat → SessionInstance
  numInstances : Nat
  threads : Nat → Thread
  numThreads : Nat
  full : Chan → Bool
  closed : Chan → Bool
  sessionTable : SessionKey → Option Nat
  deferredLocks : GoMap String Chan
  loading : Option Loading
  sent : List Message
  /-- The continuations that were sent and not yet accepted. -/
  inFlight : List Request
  /-- The goroutines that called their handler, in order. -/
  entered : List Nat
  omitted : List (Nat × Omission)
  /-- The goroutines of requests that sent on `after`, in order. -/
  released : List Nat
  violations : List (Violation × Nat)

inductive SchedulerEvent
  | accept (m : Request) (now : Int)
  /-- The rest of `acceptSession`. -/
  | schedule
  | receive (t : Nat)
  | timeout (t : Nat)
  | awaitChild (t : Nat)
  | childDone (t : Nat)
  | acquire (t : Nat)
  /-- The caller is dead according to the tables. -/
  | enter (t : Nat) (callerDead : Bool) (now : Int)
  /-- The handler returns.  `delete`: it has executed the command `delete`. -/
  | finish (t : Nat) (r : HandlerResult) (delete activated : Bool) (now : Int)
  | pass (t : Nat)
  /-- A pass of the collector reaches an instance. -/
  | collect (i : Nat) (time : Int)
  | claim (t : Nat) (uuid : String)
  | probe (t : Nat)
  | beginCallback (t : Nat)
  | callbackDone (t : Nat) (activated : Bool)
  | settle (t : Nat)
  | remove (t : Nat)
  | close (t : Nat)
  deriving DecidableEq, Repr

/-- `!m.deadline().IsZero() && m.deadline().Before(time.Now())` -/
def Request.expired (m : Request) (now : Int) : Bool :=
  match m.deadline with
  | none => false
  | some deadline => decide (deadline < now)

/-- The answer to a request whose deadline has expired. -/
def deadlineExpired (m : Request) (now : Int) : List Message :=
  (State.final m [] ("deadline expired: deadline was " ++ toString (m.deadline.getD 0) ++
    " and it is now " ++ toString now)).toList

/-- The answer to a request that has waited too long for its turn. -/
def possibleDeadlock (m : Request) (target : Session) : List Message :=
  (State.final m [] ("Possible deadlock: timed out waiting in instance queue for \x7b" ++
    target.name ++ " " ++ target.id ++ " " ++ target.flow ++ " " ++ target.deferredLockID ++
    "\x7d")).toList

/-- The error of a handler that finds another flow than the one of the request. -/
def flowMismatch (target : Session) : HandlerResult where
  dest := none
  value := []
  err := some ("Flow violation: mismatch between target \x7b" ++ target.name ++ " " ++ target.id ++
    " " ++ target.flow ++ " " ++ target.deferredLockID ++ "\x7d and instance at entry")

namespace Scheduler

def init : Scheduler where
  instances := fun _ =>
    { key := ⟨"", ""⟩, activeFlow := releasedFlow, activated := false, lastAccess := none,
      next := 0, locked := false, valid := false }
  numInstances := 0
  threads := fun _ =>
    { inst := 0, before := none, after := none, job := .deactivation, place := .ended }
  numThreads := 0
  full := fun _ => false
  closed := fun _ => false
  sessionTable := fun _ => none
  deferredLocks := .empty
  loading := none
  sent := []
  inFlight := []
  entered := []
  omitted := []
  released := []
  violations := []

variable (s : Scheduler)

/-! ## Updates -/

/-- The goroutine `t` goes on to the place `p`. -/
def goto (t : Nat) (p : Place) : Scheduler :=
  { s with threads := Function.update s.threads t { s.threads t with place := p } }

/-- `go func() { .. }()` -/
def spawn (u : Thread) : Scheduler :=
  { s with threads := Function.update s.threads s.numThreads u, numThreads := s.numThreads + 1 }

def setInstance (i : Nat) (a : SessionInstance) : Scheduler :=
  { s with instances := Function.update s.instances i a }

/-- `instance.ActiveFlow = flow` -/
def setFlow (i : Nat) (flow : String) : Scheduler :=
  s.setInstance i { s.instances i with activeFlow := flow }

/-- `logger.Error("Flow violation: ..")` if the test `violated` succeeds. -/
def log (v : Violation) (t : Nat) (violated : Bool) : Scheduler :=
  { s with violations := if violated then s.violations ++ [(v, t)] else s.violations }

def send (msgs : List Message) : Scheduler := { s with sent := s.sent ++ msgs }

/-- The handler of the request of `t` is not called. -/
def passOver (t : Nat) (o : Omission) : Scheduler := { s with omitted := s.omitted ++ [(t, o)] }

/-! ## Accepting -/

/-- `accept`, and `acceptSession` up to the look-up. -/
def accept (m : Request) (now : Int) : Option Scheduler :=
  match s.loading, m.target.session? with
  | none, some target =>
    let s := { s with inFlight := s.inFlight.erase m }
    if m.expired now then some (s.send (deadlineExpired m now))
    else some { s with
      loading := some { target := target, m := m, entry := s.sessionTable target.key } }
  | _, _ => none

/-- A new instance with its turn.  The instance of a recovered request is owned by the flow
that owned it before the failure. -/
def newInstance (target : Session) (m : Request) : Scheduler := { s with
  instances := Function.update s.instances s.numInstances {
    key := target.key
    activeFlow := if m.childID = "" then releasedFlow else target.flow
    activated := false
    lastAccess := none
    next := 0
    locked := false
    valid := true }
  numInstances := s.numInstances + 1
  full := Function.update s.full ⟨s.numInstances, 0⟩ true
  sessionTable := Function.update s.sessionTable target.key (some s.numInstances) }

/-- The parked turn that the request presents. -/
def deferredLock (target : Session) : Option Chan :=
  if target.deferredLockID ≠ "" then s.deferredLocks.get? target.deferredLockID else none

/-- A request that does not wait: re-entrant, or not exclusive. -/
def bypass (i : Nat) (target : Session) (m : Request) : Scheduler :=
  s.spawn { inst := i, before := none, after := none, job := .request target m false,
            place := .arrived }

/-- A continuation that goes on with a parked turn. -/
def resume (i : Nat) (target : Session) (m : Request) (c : Chan) : Scheduler :=
  { s with deferredLocks := s.deferredLocks.delete target.deferredLockID }.spawn
    { inst := i, before := none, after := some c, job := .request target m true,
      place := .arrived }

/-- A goroutine that waits for the turn of instance `i`. -/
def enqueue (i : Nat) (job : Job) : Scheduler :=
  let a := s.instances i
  (s.setInstance i { a with next := a.next + 1 }).spawn
    { inst := i, before := some ⟨i, a.next⟩, after := some ⟨i, a.next + 1⟩, job := job,
      place := .waiting }

/-- The second step of `acceptSession`, on the instance `i`. -/
def scheduleOn (i : Nat) (fresh : Bool) (target : Session) (m : Request) : Scheduler :=
  let s := { s with loading := none }
  if fresh = false ∧ (s.instances i).activeFlow = target.flow then
    match s.deferredLock target with
    | some c => s.resume i target m c
    | none => s.bypass i target m
  else if target.flow = nonexclusiveFlow then s.bypass i target m
  else s.enqueue i (.request target m true)

/-- `acceptSession` after the look-up.  It blocks on the lock of the instance it found. -/
def schedule : Option Scheduler :=
  match s.loading with
  | none => none
  | some ⟨target, m, none⟩ =>
    some ((s.newInstance target m).scheduleOn s.numInstances true target m)
  | some ⟨target, m, some e⟩ =>
    if (s.instances e).locked then none
    else if (s.instances e).valid then some (s.scheduleOn e false target m)
    else some ((s.newInstance target m).scheduleOn s.numInstances true target m)

/-! ## Passing the turn -/

/-- The receive on `before`. -/
def receive (t : Nat) : Option Scheduler :=
  match (s.threads t).before with
  | none => none
  | some c =>
    if s.full c ∨ s.closed c then
      let s := { s with full := Function.update s.full c false }
      match (s.threads t).place with
      | .waiting => some (s.goto t .arrived)
      | .timedOut => some (s.goto t .relaying)
      | _ => none
    else none

/-- The send on `after`.  It blocks on a channel that is full, and panics on a closed one. -/
def pass (t : Nat) : Option Scheduler :=
  let u := s.threads t
  match u.after with
  | none => none
  | some c =>
    if u.place.sends = true ∧ s.full c = false ∧ s.closed c = false then
      let s := { s with full := Function.update s.full c true }
      match u.place, u.job with
      | .releasing, .request _ _ clear =>
        some (({ s with released := s.released ++ [t] }.log .release t (!clear)).goto t .ended)
      | _, _ => some (s.goto t .ended)
    else none

/-! ## Executing a request -/

/-- The timer fires while the goroutine waits.  The turn may be there already: a `select` with
two ready cases takes either. -/
def timeout (cfg : SchedulerConfig) (t : Nat) : Option Scheduler :=
  let u := s.threads t
  match u.job with
  | .request target m _ =>
    if cfg.busyTimeout = true ∧ u.place = .waiting then
      some (((s.passOver t .busy).send (possibleDeadlock m target)).goto t .timedOut)
    else none
  | .deactivation => none

/-- A recovered request starts to wait for its child. -/
def awaitChild (t : Nat) : Option Scheduler :=
  let u := s.threads t
  match u.job with
  | .request target m _ =>
    if u.place = .arrived ∧ m.childID ≠ "" then
      some ((s.log .child t ((s.instances u.inst).activeFlow != target.flow)).goto t .awaiting)
    else none
  | .deactivation => none

def childDone (t : Nat) : Option Scheduler :=
  let u := s.threads t
  if u.place = .awaiting then some ((s.setFlow u.inst releasedFlow).goto t .resumed) else none

/-- A request that has the turn takes the instance over. -/
def acquire (t : Nat) : Option Scheduler :=
  let u := s.threads t
  match u.job with
  | .request target m _ =>
    if u.place = .resumed ∨ u.place = .arrived ∧ m.childID = "" then
      if u.before = none then some (s.goto t .acquired)
      else some (((s.log .acquire t ((s.instances u.inst).activeFlow != releasedFlow)).setFlow
        u.inst target.flow).goto t .acquired)
    else none
  | .deactivation => none

/-- `if clearFlowOnRelease { instance.ActiveFlow = releasedFlow }` -/
def clearFlow (i : Nat) (clear : Bool) : Scheduler :=
  if clear then s.setFlow i releasedFlow else s

/-- The request has been answered: what is left is the send on `after`. -/
def endTask (t : Nat) : Scheduler :=
  s.goto t (if (s.threads t).after = none then .ended else .releasing)

/-- The request of `t` ends without tail call. -/
def answer (t : Nat) (m : Request) (clear : Bool) (value : List UInt8) (errMsg : String) :
    Scheduler :=
  ((s.clearFlow (s.threads t).inst clear).send (State.final m value errMsg).toList).endTask t

/-- The lock that a tail call retains, with the flow it is retained for. -/
def deferral (after : Option Chan) (dest : Target) : Option (Session × Chan) :=
  match dest.session?, after with
  | some target, some c => if target.deferredLockID ≠ "" then some (target, c) else none
  | _, _ => none

/-- The continuation is sent. -/
def sendContinuation (v : Request) : Scheduler :=
  { s with sent := s.sent ++ [.request v], inFlight := s.inFlight ++ [v] }

/-- The request of `t` ends with a tail call. -/
def tailCall (t : Nat) (m : Request) (clear : Bool) (dest : Target) (method : String)
    (value : List UInt8) : Scheduler :=
  let u := s.threads t
  match deferral u.after dest with
  | some (next, c) =>
    -- Defer my obligation to release `after` to the next invocation of this flow.
    (({ s.log .deferral t (next.flow != (s.instances u.inst).activeFlow) with
        deferredLocks := s.deferredLocks.set next.deferredLockID c }).sendContinuation
      (State.continuation m dest method value true)).goto t .ended
  | none =>
    ((s.clearFlow u.inst clear).sendContinuation
      (State.continuation m dest method value false)).endTask t

/-- `instance.lastAccess = time.Now()` -/
def touch (i : Nat) (target : Session) (now : Int) : Scheduler :=
  if (s.instances i).activated = true ∧ target.flow ≠ nonexclusiveFlow then
    s.setInstance i { s.instances i with lastAccess := some now }
  else s

/-- `handleSessionRequest` after the call of the handler. -/
def conclude (t : Nat) (target : Session) (m : Request) (clear : Bool) (r : HandlerResult)
    (now : Int) : Scheduler :=
  let s := s.touch (s.threads t).inst target now
  match r.err, r.dest with
  | some err, _ => s.answer t m clear r.value err
  | none, none => s.answer t m clear r.value ""
  | none, some (dest, method) => s.tailCall t m clear dest method r.value

/-- The call of the handler. -/
def enter (cfg : SchedulerConfig) (t : Nat) (callerDead : Bool) (now : Int) : Option Scheduler :=
  let u := s.threads t
  match u.job with
  | .request target m clear =>
    if u.place = .acquired then
      match cfg.handlersSession m.method with
      | none => some ((s.passOver t .undefined).answer t m clear [] ("undefined method " ++ m.method))
      | some handler =>
        if cfg.cancellation = true ∧ m.caller?.isSome = true ∧ callerDead = true then
          some ((s.passOver t .cancelled).conclude t target m clear
            { dest := none, value := [], err := none } now)
        else
          let s := { s with entered := s.entered ++ [t] }
          if handler = .actor ∧ (s.instances u.inst).activeFlow ≠ target.flow then
            some ((s.log .entry t true).conclude t target m clear (flowMismatch target) now)
          else some (s.goto t .running)
    else none
  | .deactivation => none

/-- The handler returns. -/
def finish (cfg : SchedulerConfig) (t : Nat) (r : HandlerResult) (delete activated : Bool)
    (now : Int) : Option Scheduler :=
  let u := s.threads t
  match u.job with
  | .request target m clear =>
    if u.place = .running then
      let s := s.setInstance u.inst { s.instances u.inst with activated := activated }
      -- The command `delete` returns before the check at the exit.
      let checked := cfg.handlersSession m.method == some .actor && !delete
      some ((s.log .exit t (checked && (s.instances u.inst).activeFlow != target.flow)).conclude
        t target m clear r now)
    else none
  | .deactivation => none

/-! ## Collecting idle instances -/

/-- A pass of the collector reaches the instance `i` and finds its lock free. -/
def collect (i : Nat) (time : Int) : Option Scheduler :=
  let a := s.instances i
  if i < s.numInstances ∧ a.locked = false ∧ a.valid = true ∧ a.idle time = true then
    some (s.enqueue i .deactivation)
  else none

/-- Nobody has been scheduled on the instance after the deactivation `t`. -/
def last (t : Nat) : Bool :=
  let u := s.threads t
  (s.instances u.inst).valid && u.after == some ⟨u.inst, (s.instances u.inst).next⟩

/-- The deactivation `t` is at the place `p`. -/
def deactivating (t : Nat) (p : Place) : Bool :=
  (s.threads t).job == .deactivation && (s.threads t).place == p

/-- A deactivation that has the turn takes the instance over. -/
def claim (t : Nat) (uuid : String) : Option Scheduler :=
  let i := (s.threads t).inst
  if s.deactivating t .arrived then
    some (((s.log .deactivate t ((s.instances i).activeFlow != releasedFlow)).setFlow i
      ("flow-deactivate-" ++ uuid)).goto t .claimed)
  else none

/-- The first check, under the lock. -/
def probe (t : Nat) : Option Scheduler :=
  if s.deactivating t .claimed = true ∧ (s.instances (s.threads t).inst).locked = false then
    some (s.goto t (.probed (s.last t)))
  else none

/-- `if canDeactivate && instance.Activated { callback(ctx, instance) }` -/
def beginCallback (t : Nat) : Option Scheduler :=
  match (s.threads t).place with
  | .probed can =>
    some (s.goto t (if can = true ∧ (s.instances (s.threads t).inst).activated = true then .callback
      else .settling))
  | _ => none

def callbackDone (t : Nat) (activated : Bool) : Option Scheduler :=
  let i := (s.threads t).inst
  if (s.threads t).place = .callback then
    some ((s.setInstance i { s.instances i with activated := activated }).goto t .settling)
  else none

/-- The second check, under the lock. -/
def settle (t : Nat) : Option Scheduler :=
  let i := (s.threads t).inst
  if (s.threads t).place = .settling ∧ (s.instances i).locked = false then
    if s.last t then
      some ((s.setInstance i { s.instances i with
        activeFlow := releasedFlow, valid := false, locked := true }).goto t .removing)
    else some ((s.setFlow i releasedFlow).goto t .aborting)
  else none

/-- `sessionTable.Delete(key)` -/
def remove (t : Nat) : Option Scheduler :=
  let key := (s.instances (s.threads t).inst).key
  if (s.threads t).place = .removing then
    some ({ s with sessionTable := Function.update s.sessionTable key none }.goto t .closing)
  else none

/-- `close(savedLast)`, and the lock is released. -/
def close (t : Nat) : Option Scheduler :=
  let i := (s.threads t).inst
  match (s.threads t).place, (s.threads t).after with
  | .closing, some c =>
    some (({ s with closed := Function.update s.closed c true }.setInstance i
      { s.instances i with locked := false }).goto t .ended)
  | _, _ => none

def step (cfg : SchedulerConfig) (s : Scheduler) : SchedulerEvent → Option Scheduler
  | .accept m now => s.accept m now
  | .schedule => s.schedule
  | .receive t => s.receive t
  | .timeout t => s.timeout cfg t
  | .awaitChild t => s.awaitChild t
  | .childDone t => s.childDone t
  | .acquire t => s.acquire t
  | .enter t callerDead now => s.enter cfg t callerDead now
  | .finish t r delete activated now => s.finish cfg t r delete activated now
  | .pass t => s.pass t
  | .collect i time => s.collect i time
  | .claim t uuid => s.claim t uuid
  | .probe t => s.probe t
  | .beginCallback t => s.beginCallback t
  | .callbackDone t activated => s.callbackDone t activated
  | .settle t => s.settle t
  | .remove t => s.remove t
  | .close t => s.close t

end Scheduler

end Kar.Rpc
