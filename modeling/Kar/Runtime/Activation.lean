import Kar.Runtime.HandlerActor

/-!
# The activation of an actor

Whether an actor is active is recorded twice: in `instance.Activated` of the sidecar, and in the table of
live instances of the SDK's actor runtime (`table` of `sdk-js/index.js`, `ActorManager` of the Java SDK).
The sidecar learns of the table only by the status code that answers `GET`, and a status below 400 makes
the instance activated (`activate` in `commands.go`).

A run is about one actor.  `GET`, `POST` and `DELETE` are the requests of the sidecar.  An `activate`
callback ends in a step of its own, since the actor may be called while it runs.
-/

namespace Kar.Runtime

open Kar.Lib List

/-! ## The answers of the actor runtimes -/

inductive Sdk where
  | javascript
  | java
  deriving DecidableEq

/-- How a constructor or a callback ends. -/
inductive Ending where
  | returns
  | throws (message : String)
  /-- JavaScript code may also throw a value such as `undefined`. -/
  | throwsNothing
  deriving DecidableEq

/-- An actor runtime and the actor that it hosts. -/
structure ActorHost where
  sdk : Sdk
  type : String
  id : String
  /-- The body that `errorHandler` sends for a message. -/
  errorBody : String → String
  /-- The page of Express for a request that no route answers. -/
  notFound : String
  /-- The message of the `TypeError` for an instance that has left the table. -/
  typeError : String

namespace ActorHost

/-- `.catch(next)`: `errorHandler` answers with status 200.  Express takes no error from a value such as
`undefined`, and answers that there is no such page. -/
def next (host : ActorHost) : Ending → HttpReply
  | .throws message => ⟨200, "application/kar+json", host.errorBody message⟩
  | _ => ⟨404, "text/html", host.notFound⟩

/-- The answer to `GET` if there is an instance. -/
def existing (host : ActorHost) : HttpReply :=
  match host.sdk with
  | .javascript => ⟨200, "text/plain", "existing instance"⟩
  | .java => ⟨200, "", ""⟩

/-- The answer to `GET` if the constructor fails. -/
def unallocated (host : ActorHost) (thrown : Ending) : HttpReply :=
  match host.sdk with
  | .javascript => host.next thrown
  | .java => ⟨400, "text/plain", "Unable to allocate instance: " ++ host.type ++ " actor " ++ host.id⟩

/-- The answer to `GET` after `activate`.  The JavaScript runtime looks the instance up again. -/
def created (host : ActorHost) (table : Option Nat) : HttpReply :=
  match host.sdk with
  | .javascript =>
    if table.isSome then ⟨201, "text/plain", "Created"⟩ else host.next (.throws host.typeError)
  | .java => ⟨201, "text/plain", "Created " ++ host.type ++ " actor " ++ host.id⟩

/-- The answer to `GET` if `activate` fails. -/
def inactive (host : ActorHost) (thrown : Ending) : HttpReply :=
  match host.sdk, thrown with
  | .javascript, thrown => host.next thrown
  | .java, .throws message => ⟨400, "text/plain", message⟩
  | .java, _ => ⟨400, "text/plain", ""⟩

end ActorHost

/-! ## Runs -/

/-- The sidecar and the actor runtime.  Instances are numbered as they are created. -/
structure Hosted where
  /-- `instance.Activated` -/
  activated : Bool := false
  /-- The entry of the table of live instances. -/
  table : Option Nat := none
  created : Nat := 0
  /-- The instances whose `activate` is running. -/
  activating : List Nat := []
  /-- The instances whose `activate` has returned normally, and those without one. -/
  ready : List Nat := []
  /-- The instances on which a method other than `activate`, or the callback `deactivate`, has been
  invoked. -/
  invoked : List Nat := []
  /-- The last attempt to activate the actor has failed. -/
  failed : Bool := false
  deriving DecidableEq

/-- Requests of the sidecar, whose answer may be lost with an error, and the end of `activate`. -/
inductive HostEvent where
  | get (constructor : Ending) (hasActivate : Bool) (lost : Option String)
  | activateEnds (i : Nat) (activate : Ending) (lost : Option String)
  | post (hasMethod : Bool)
  | delete (deactivate : Ending) (lost : Option String)

/-- Whether an answer makes the instance activated. -/
def accepted (env : HandlerEnv) (lost : Option String) (reply : HttpReply) : Bool :=
  activate env (match lost with | some err => .error err | none => .ok reply) = (none, none)

namespace Hosted

/-- The sidecar takes the answer to `GET`. -/
def answered (env : HandlerEnv) (s : Hosted) (lost : Option String) (reply : HttpReply) : Hosted :=
  { s with activated := s.activated || accepted env lost reply }

/-- `GET` while there is no instance. -/
def allocate (host : ActorHost) (env : HandlerEnv) (s : Hosted) (hasActivate : Bool)
    (lost : Option String) : Ending → Hosted
  | .returns =>
    let s' := { s with table := some s.created, created := s.created + 1, failed := false }
    if hasActivate then { s' with activating := s.created :: s.activating }
    else { s' with ready := s.created :: s.ready }.answered env lost (host.created s'.table)
  | thrown => { s with failed := true }.answered env lost (host.unallocated thrown)

def step (host : ActorHost) (env : HandlerEnv) (s : Hosted) : HostEvent → Option Hosted
  | .get constructor hasActivate lost =>
    if s.activated then none
    else match s.table with
      | some _ => some (s.answered env lost host.existing)
      | none => some (s.allocate host env hasActivate lost constructor)
  | .activateEnds i activate lost =>
    let s' := { s with activating := s.activating.erase i }
    if i ∉ s.activating then none
    else match activate with
      | .returns => some ({ s' with ready := i :: s.ready }.answered env lost (host.created s.table))
      -- The instance stays in the table.
      | thrown => some ({ s' with failed := true }.answered env lost (host.inactive thrown))
  | .post hasMethod =>
    if !s.activated then none
    else match s.table with
      | some i => some (if hasMethod then { s with invoked := i :: s.invoked } else s)
      | none => some s
  | .delete deactivate lost =>
    -- Any answer to `DELETE` ends the activation for the sidecar.
    if !s.activated then none
    else some { s with
      activated := lost.isSome
      table := if deactivate = .returns then none else s.table
      invoked := s.table.toList ++ s.invoked }

/-- What the sidecar and the actor runtime do with the next message. -/
inductive Handling where
  | invokes
  | finds
  | attempts
  deriving DecidableEq

def handling (s : Hosted) : Handling :=
  if s.activated then .invokes else if s.table.isSome then .finds else .attempts

/-- No `activate` fails, the failure of a constructor is answered with an error status, and no other
message comes to an actor while its `activate` runs. -/
def Smooth (host : ActorHost) (s : Hosted) : HostEvent → Prop
  | .get constructor _ _ => s.activating = [] ∧
      (constructor = .returns ∨ 400 ≤ (host.unallocated constructor).statusCode)
  | .activateEnds _ activate _ => activate = .returns
  | _ => True

instance (host : ActorHost) (s : Hosted) : (e : HostEvent) → Decidable (Smooth host s e)
  | .get _ _ _ => inferInstanceAs (Decidable (_ ∧ _))
  | .activateEnds _ _ _ => inferInstanceAs (Decidable (_ = _))
  | .post _ => inferInstanceAs (Decidable True)
  | .delete _ _ => inferInstanceAs (Decidable True)

/-! ## Methods run on activated instances -/

theorem accepted_of_error (h : 400 ≤ reply.statusCode) : accepted env lost reply = false := by
  cases lost with
  | none => simp [accepted, activate, h]
  | some => simp [accepted, activate]

/-- The table of the runtime and the record of the sidecar agree. -/
structure Agrees (s : Hosted) : Prop where
  live : ∀ i, s.table = some i → i ∈ s.ready ∨ i ∈ s.activating
  invoked : ∀ i ∈ s.invoked, i ∈ s.ready
  single : s.activating.length ≤ 1
  idle : s.activated = true → s.activating = []
  retried : s.failed = true → s.activated = false ∧ s.table = none ∧ s.activating = []

section Agrees

variable {s : Hosted}

/-- The instance that an activated actor has is ready. -/
theorem Agrees.ready (h : s.Agrees) (hactivated : s.activated = true)
    (htable : s.table = some i) : i ∈ s.ready := by
  apply (h.live i htable).resolve_right
  rw [h.idle hactivated]
  exact not_mem_nil

/-- An answer that comes while no attempt has failed. -/
theorem Agrees.answered (h : s.Agrees) (hidle : s.activating = []) (hfailed : s.failed = false) :
    (s.answered env lost reply).Agrees :=
  { h with
    idle := fun _ => hidle
    retried := fun hf => by
      rw [show s.failed = true from hf] at hfailed
      cases hfailed }

theorem Agrees.allocate (h : s.Agrees) (hactivated : s.activated = false) (htable : s.table = none)
    (hidle : s.activating = []) (hasActivate : Bool)
    (hconstructor : constructor = .returns ∨ 400 ≤ (host.unallocated constructor).statusCode) :
    (s.allocate host env hasActivate lost constructor).Agrees := by
  by_cases hreturns : constructor = .returns
  · subst hreturns
    cases hasActivate with
    | true =>
      refine ⟨fun i hi => .inr ?_, h.invoked, by simp [Hosted.allocate, hidle], fun ha => ?_, nofun⟩
      · cases hi
        exact mem_cons_self
      · rw [show s.activated = true from ha] at hactivated
        cases hactivated
    | false =>
      refine Agrees.answered ⟨fun i hi => .inl ?_, fun i hi => ?_, h.single, h.idle, nofun⟩ hidle rfl
      · cases hi
        exact mem_cons_self
      · exact mem_cons_of_mem _ (h.invoked i hi)
  · -- The constructor has failed, and the sidecar is told so: the next message is a new attempt.
    have hstatus : 400 ≤ (host.unallocated constructor).statusCode := by
      apply hconstructor.resolve_left hreturns
    have hallocate : s.allocate host env hasActivate lost constructor = { s with failed := true } := by
      cases constructor with
      | returns => exact absurd rfl hreturns
      | throws => simp [Hosted.allocate, Hosted.answered, accepted_of_error hstatus]
      | throwsNothing => simp [Hosted.allocate, Hosted.answered, accepted_of_error hstatus]
    rw [hallocate]
    exact { h with retried := fun _ => ⟨hactivated, htable, hidle⟩ }

/-- An `activate` that returns makes its instance ready. -/
theorem Agrees.activateEnds (h : s.Agrees) (hi : i ∈ s.activating) :
    ({ s with activating := s.activating.erase i, ready := i :: s.ready }.answered env lost
      reply).Agrees := by
  have hfailed : s.failed = false := by
    by_contra hfailed
    rw [(h.retried (by simpa using hfailed)).2.2] at hi
    cases hi
  have hidle : s.activating.erase i = [] := by
    have hlength := length_erase_of_mem hi
    have hsingle := h.single
    exact eq_nil_of_length_eq_zero (by omega)
  refine Agrees.answered ⟨fun j hj => ?_, fun j hj => ?_, ?_, fun _ => hidle, fun hf => ?_⟩ hidle hfailed
  · by_cases hji : j = i
    · exact .inl (hji ▸ mem_cons_self)
    · exact (h.live j hj).imp (mem_cons_of_mem _) (mem_erase_of_ne hji).mpr
  · exact mem_cons_of_mem _ (h.invoked j hj)
  · simp [hidle]
  · rw [show s.failed = true from hf] at hfailed
    cases hfailed

theorem Agrees.step (h : s.Agrees) (hok : Smooth host s e)
    (hstep : s.step host env e = some s') : s'.Agrees := by
  cases e with
  | get _ hasActivate =>
    simp only [Hosted.step] at hstep
    split at hstep
    · cases hstep
    rename_i hactivated
    split at hstep
    · rename_i i htable
      cases hstep
      apply h.answered hok.1
      by_contra hfailed
      have := (h.retried (by simpa using hfailed)).2.1
      rw [htable] at this
      cases this
    · rename_i htable
      cases hstep
      exact h.allocate (by simpa using hactivated) htable hok.1 hasActivate hok.2
  | activateEnds _ activate =>
    simp only [Hosted.step, show activate = .returns from hok] at hstep
    split at hstep
    · cases hstep
    rename_i hi
    cases hstep
    exact h.activateEnds (by simpa using hi)
  | post hasMethod =>
    simp only [Hosted.step] at hstep
    split at hstep
    · cases hstep
    rename_i hactivated
    split at hstep
    · rename_i i htable
      cases hstep
      cases hasMethod with
      | false => exact h
      | true =>
        refine { h with invoked := fun j hj => ?_ }
        cases hj with
        | head => exact h.ready (by simpa using hactivated) htable
        | tail _ hj => exact h.invoked j hj
    · cases hstep
      exact h
  | delete =>
    simp only [Hosted.step] at hstep
    split at hstep
    · cases hstep
    rename_i hactivated
    have hactivated : s.activated = true := by simpa using hactivated
    cases hstep
    refine ⟨fun i hi => h.live i ?_, fun i hi => ?_, h.single, fun _ => h.idle hactivated, fun hf => ?_⟩
    · split at hi
      · cases hi
      exact hi
    · cases mem_append.mp hi with
      | inl hi => exact h.ready hactivated (Option.mem_toList.mp hi)
      | inr hi => exact h.invoked i hi
    · rw [(h.retried hf).1] at hactivated
      cases hactivated

end Agrees

/-- **Activation.**  In every run in which no `activate` fails, the failure of a constructor is answered
with an error status and no message comes to an actor while its `activate` runs, methods are invoked on
activated instances only, and the message after a failed attempt is a new attempt. -/
theorem methods_run_on_activated (host : ActorHost) (env : HandlerEnv) (s : Hosted)
    (h : Reachable (Hosted.step host env) (Smooth host) {} s) :
    (∀ i ∈ s.invoked, i ∈ s.ready) ∧ (s.failed = true → s.handling = .attempts) := by
  have hinit : Agrees {} := ⟨nofun, nofun, by decide, nofun, nofun⟩
  have hagrees : s.Agrees := h.invariant hinit fun _ _ _ _ hs hok hstep => hs.step hok hstep
  refine ⟨hagrees.invoked, fun hf => ?_⟩
  obtain ⟨hactivated, htable, -⟩ := hagrees.retried hf
  simp [handling, hactivated, htable]

/-- An actor of each SDK. -/
private def counter (sdk : Sdk) : ActorHost := ⟨sdk, "Counter", "1", id, "Cannot GET", "TypeError"⟩

private def plainEnv : HandlerEnv := ⟨.error, fun _ => [], fun _ => [], "lock"⟩

private def retries : List HostEvent :=
  [.get (.throws "failed") true none, .get .returns true none, .activateEnds 0 .returns none, .post true]

/-- The constructor of a Java actor fails.  The next message creates an instance, and its method runs. -/
theorem counter_retried :
    ∃ s, run (Hosted.step (counter .java) plainEnv) {} retries = some s ∧ s.invoked = [0] ∧
      (∀ i ∈ s.invoked, i ∈ s.ready) ∧ (s.failed = true → s.handling = .attempts) := by
  have hok : runOk (Hosted.step (counter .java) plainEnv) (Smooth (counter .java)) {} retries = true := by
    decide +kernel
  obtain ⟨s, hrun, hs⟩ := reachable_of_run .init hok
  exact ⟨s, hrun, eq_of_run (fun s => s.invoked) (a := [0]) hrun (by decide +kernel),
    methods_run_on_activated (counter .java) plainEnv s hs⟩

/-- A method runs although `activate` has failed: at once with the JavaScript SDK, whose error has status
200, and at the second message with the Java SDK, which finds the instance of the first one.  After the
failure of a JavaScript constructor there is no new attempt.  And a call that an actor makes to itself
during `activate` runs before `activate` has returned. -/
theorem method_runs_on_failed_instance :
    (run (Hosted.step (counter .javascript) plainEnv) {} [.get .returns true none,
      .activateEnds 0 (.throws "failed") none, .post true]).map
        (fun s => (s.invoked, s.ready, s.failed, s.handling)) = some ([0], [], true, .invokes) ∧
    (run (Hosted.step (counter .java) plainEnv) {} [.get .returns true none,
      .activateEnds 0 (.throws "failed") none, .get .returns true none, .post true]).map
        (fun s => (s.invoked, s.ready, s.failed, s.handling)) = some ([0], [], true, .invokes) ∧
    (run (Hosted.step (counter .javascript) plainEnv) {} [.get (.throws "failed") true none]).map
        (fun s => (s.table, s.failed, s.handling)) = some (none, true, .invokes) ∧
    (run (Hosted.step (counter .java) plainEnv) {} [.get .returns true none, .get .returns true none,
      .post true]).map (fun s => (s.invoked, s.ready)) = some ([0], []) := by
  decide +kernel

end Hosted

end Kar.Runtime
