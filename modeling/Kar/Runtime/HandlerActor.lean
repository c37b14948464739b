import Kar.Rpc.Answers
import Kar.Store.Commands

/-!
# The handler of actors

`handlerActor` of `core/internal/runtime/commands.go`.  A request for an actor activates the actor if
necessary and invokes its method over HTTP.  The reply is inspected for a tail call, which is an untyped
JSON value that the handler walks through with type assertions.

The method is invoked in a block with an `err` of its own, so the error of an invocation is not the one
that is returned (`invocation_failure_reported_iff`).  And the type assertions are not checked
(`reply_inspected_iff`).
-/

namespace Kar.Runtime

open Kar.Lib Kar.Rpc Kar.Store

/-! ## Untyped values -/

/-- A value of type `interface{}`, as `json.Unmarshal` makes it. -/
inductive Any where
  | nil
  | bool (b : Bool)
  | float64 (literal : String)
  | string (s : String)
  | slice (elements : List Any)
  | map (fields : String → Option Any)

namespace Any

/-- The dynamic type, as a panic names it. -/
def typeName : Any → String
  | .nil => "nil"
  | .bool _ => "bool"
  | .float64 _ => "float64"
  | .string _ => "string"
  | .slice _ => "[]interface \x7b\x7d"
  | .map _ => "map[string]interface \x7b\x7d"

/-- A type assertion that fails. -/
def conversion (v : Any) (type : String) : String :=
  "interface conversion: interface \x7b\x7d is " ++ v.typeName ++ ", not " ++ type

/-- `v.(string)` -/
def asString : Any → Except String String
  | .string s => .ok s
  | v => .error (v.conversion "string")

/-- `v.(map[string]interface{})` -/
def asMap : Any → Except String (GoMap String Any)
  | .map fields => .ok fields
  | v => .error (v.conversion "map[string]interface \x7b\x7d")

end Any

/-- The result of a method. -/
structure ActorCallResult where
  value : Any
  tailCall : Bool
  error : Bool
  message : String
  stack : String

/-- A reply of the application. -/
structure HttpReply where
  statusCode : Nat
  contentType : String
  payload : String
  deriving DecidableEq, Repr

/-- What the handler takes from libraries: `encoding/json`, and an id for a lock. -/
structure HandlerEnv where
  unmarshalResult : String → Except String ActorCallResult
  marshalMap : List (String × String) → List UInt8
  marshalReply : HttpReply → List UInt8
  newLockId : String

def actorEndpoint : String := "handlerActor"

def serviceEndpoint : String := "handlerService"

/-! ## Tail calls -/

/-- The destination of a tail call: `none` is an unsupported result. -/
def tailCallDest (env : HandlerEnv) (target : Session) (cr : GoMap String Any) :
    Except String (Option (Target × String)) :=
  if cr.has "serviceName" then do
    let name ← (cr.getD "serviceName" .nil).asString
    return some (.service name, serviceEndpoint)
  else if cr.has "actorType" then do
    let name ← (cr.getD "actorType" .nil).asString
    let id ← (cr.getD "actorId" .nil).asString
    let releaseLock := match cr.getD "releaseLock" .nil with
      | .string s => s == "true"
      | _ => false
    let lock := if name = target.name ∧ id = target.id ∧ releaseLock = false then env.newLockId else ""
    return some (.session name id target.flow lock, actorEndpoint)
  else .ok none

/-- The method of a tail call to a service. -/
def tailCallMethod (cr : GoMap String Any) : Except String (List (String × String)) :=
  match cr.getD "method" .nil with
  | .nil => .ok []
  | v => v.asString.map fun method => [("method", method),
      ("header", "\x7b\"Content-Type\": [\"application/json\"]\x7d"), ("actorTailCall", "true")]

/-- The message of a tail call. -/
def tailCallMessage (command : String) (cr : GoMap String Any) :
    Except String (List (String × String)) := do
  let path ← (cr.getD "path" .nil).asString
  let payload ← (cr.getD "payload" .nil).asString
  let method ← tailCallMethod cr
  return [("command", command), ("path", path), ("payload", payload)] ++ method

/-- The destination and the message of a tail call. -/
def tailCall (env : HandlerEnv) (command : String) (target : Session) (value : Any) :
    Except String (Option ((Target × String) × List UInt8)) := do
  let cr ← value.asMap
  match ← tailCallDest env target cr with
  | none => return none
  | some dest =>
    let msg ← tailCallMessage command cr
    return some (dest, env.marshalMap msg)

/-! ## Replies -/

/-- What is left of the reply to a tell.  Errors are logged. -/
def inspectTell (env : HandlerEnv) (target : Session) (reply : HttpReply) :
    Except String (Option ((Target × String) × List UInt8)) :=
  if reply.statusCode = 204 then .ok none
  else if reply.statusCode = 200 then
    match env.unmarshalResult reply.payload with
    | .error _ => .ok none
    | .ok result =>
      if result.error then .ok none
      else if result.tailCall then tailCall env "tell" target result.value
      else .ok none
  else .ok none

/-- A tail call in the reply to a call. -/
def inspectCall (env : HandlerEnv) (target : Session) (reply : HttpReply) :
    Except String (Option ((Target × String) × List UInt8)) :=
  if reply.statusCode = 200 then
    match env.unmarshalResult reply.payload with
    | .error _ => .ok none
    | .ok result => if result.tailCall then tailCall env "call" target result.value else .ok none
  else .ok none

/-- The tail call in the reply to the invocation of a method. -/
def inspect (env : HandlerEnv) (command : String) (target : Session) (reply : HttpReply) :
    Except String (Option ((Target × String) × List UInt8)) :=
  if command = "tell" then inspectTell env target reply else inspectCall env target reply

/-- Whatever is not a tail call is passed through to the caller, if there is one. -/
def inspectReply (env : HandlerEnv) (command : String) (target : Session) (reply : HttpReply) :
    Except String HandlerResult :=
  (inspect env command target reply).map fun
    | some (dest, value) => ⟨some dest, value, none⟩
    | none => ⟨none, if command = "tell" then [] else env.marshalReply reply, none⟩

/-! ## The handler -/

/-- A request that is delivered to an instance: its command, the instance, and what the invocations of
the application return. -/
structure ActorDelivery where
  /-- `msg["command"]`, or the error of `json.Unmarshal`. -/
  command : Except String String
  target : Session
  activeFlow : String
  activated : Bool
  /-- The invocation that activates the actor. -/
  activation : Except String HttpReply
  /-- The invocation of the method. -/
  invocation : Except String HttpReply
  /-- The invocation that deactivates the actor before it is deleted. -/
  deactivation : Except String HttpReply
  /-- The error of `DelSession`. -/
  deletion : Option String

/-- `activate`: the reply of the application is returned if it is an error. -/
def activate (env : HandlerEnv) (activation : Except String HttpReply) :
    Option (List UInt8) × Option String :=
  match activation with
  | .error err => (none, some err)
  | .ok reply => if reply.statusCode ≥ 400 then (some (env.marshalReply reply), none) else (none, none)

/-- The invocation of a method.  Its error is not returned. -/
def invokeMethod (env : HandlerEnv) (d : ActorDelivery) (command : String) : Except String HandlerResult :=
  if command = "call" ∨ command = "tell" then
    match d.invocation with
    | .error _ => .ok ⟨none, [], none⟩
    | .ok reply => inspectReply env command d.target reply
  else .ok ⟨none, [], none⟩

/-- `handlerActor`, which returns the result and whether the instance is activated.  A panic is an
error. -/
def handlerActor (env : HandlerEnv) (d : ActorDelivery) : Except String (HandlerResult × Bool) :=
  match d.command with
  | .error err => .ok (⟨none, [], some err⟩, d.activated)
  | .ok command =>
    if d.target.flow ≠ d.activeFlow then .ok (flowMismatch d.target, d.activated)
    else if command = "delete" then
      -- `deactivate` leaves the instance activated if its invocation fails.
      .ok (⟨none, [], d.deletion⟩, d.activated && d.deactivation.toOption.isNone)
    else if d.activated then (invokeMethod env d command).map (·, true)
    else
      match activate env d.activation with
      | (some reply, _) => .ok (⟨none, reply, none⟩, false)
      | (none, some err) => .ok (⟨none, [], some err⟩, false)
      | (none, none) => (invokeMethod env d command).map (·, true)

/-! ## Failed invocations -/

/-- The instance is activated, or the application activates it. -/
def ActorDelivery.Active (d : ActorDelivery) : Prop :=
  d.activated = true ∨ ∃ reply, d.activation = .ok reply ∧ reply.statusCode < 400

/-- The invocation that activates the actor fails, or the one of the method does. -/
inductive ActorDelivery.Fails (d : ActorDelivery) : Prop
  | activation (hactivated : d.activated = false) {err : String} (h : d.activation = .error err)
  | method (hactive : d.Active) {err : String} (h : d.invocation = .error err)

section Handler

theorem ne_delete (hkind : command = "call" ∨ command = "tell") : command ≠ "delete" := by
  cases hkind with
  | inl h => rw [h]; decide
  | inr h => rw [h]; decide

/-- The handler of an active instance invokes the method. -/
theorem handlerActor_of_active (hcommand : d.command = .ok command)
    (hkind : command = "call" ∨ command = "tell") (hflow : d.target.flow = d.activeFlow)
    (hactive : d.Active) : handlerActor env d = (invokeMethod env d command).map (·, true) := by
  unfold handlerActor
  rw [hcommand]
  simp only [hflow, ne_eq, not_true_eq_false, if_false, ne_delete hkind]
  cases hactive with
  | inl h => rw [if_pos h]
  | inr h =>
    obtain ⟨reply, hreply, hstatus⟩ := h
    have hactivate : activate env d.activation = (none, none) := by
      rw [hreply]
      exact if_neg (Nat.not_le.mpr hstatus)
    rw [hactivate]
    split <;> rfl

/-- The error of an activation is returned. -/
theorem handlerActor_of_activation (hcommand : d.command = .ok command)
    (hkind : command = "call" ∨ command = "tell") (hflow : d.target.flow = d.activeFlow)
    (hactivated : d.activated = false) (h : d.activation = .error err) :
    handlerActor env d = .ok (⟨none, [], some err⟩, false) := by
  unfold handlerActor
  rw [hcommand]
  simp [hflow, ne_delete hkind, hactivated, activate, h]

end Handler

/-- The result is an error, and the response to a call has its text. -/
def Reported (d : ActorDelivery) (m : Request) (r : HandlerResult) : Prop :=
  r.err ≠ none ∧ ∀ call, m = .call call → ∀ (s : Scheduler) t clear now,
    ∃ response, (s.conclude t d.target m clear r now).sent = s.sent ++ [.response response] ∧
      response.errMsg ≠ ""

/-- The response to a call whose handler returns an error. -/
theorem sent_conclude_err (s : Scheduler) (t : Nat) (target : Session) (call : CallRequest)
    (clear : Bool) (herr : r.err = some err) (now : Int) :
    (s.conclude t target (.call call) clear r now).sent = s.sent ++ [.response
      { requestID := call.requestID, value := r.value, deadline := call.deadline, errMsg := err,
        node := call.caller }] := by
  unfold Scheduler.conclude
  rw [herr]
  simp [State.final]

theorem reported_iff :
    Reported d m ⟨none, [], some err⟩ ↔ ∀ call, m = .call call → err ≠ "" := by
  constructor
  · intro h call hm
    obtain ⟨response, hsent, hne⟩ := h.2 call hm Scheduler.init 0 true 0
    rw [hm, sent_conclude_err _ _ _ _ _ rfl, List.append_cancel_left_eq, List.singleton_inj,
      Message.response.injEq] at hsent
    rw [← hsent] at hne
    exact hne
  · intro h
    refine ⟨by simp, fun call hm s t clear now => ?_⟩
    rw [hm]
    exact ⟨_, sent_conclude_err s t d.target call clear rfl now, h call hm⟩

/-- **Failed invocations.**  An invocation that fails is reported exactly if it is the one that
activates the actor. -/
theorem invocation_failure_reported_iff (env : HandlerEnv) (d : ActorDelivery) (m : Request)
    (command : String) (hcommand : d.command = .ok command)
    (hkind : command = "call" ∨ command = "tell") (hflow : d.target.flow = d.activeFlow)
    (hfails : d.Fails) :
    (∃ r activated, handlerActor env d = .ok (r, activated) ∧ Reported d m r) ↔
      d.activated = false ∧ ∃ err, d.activation = .error err ∧ ∀ call, m = .call call → err ≠ "" := by
  cases hfails with
  | @activation hactivated err h =>
    rw [handlerActor_of_activation hcommand hkind hflow hactivated h]
    constructor
    · intro hreported
      obtain ⟨r, activated, hr, hreported⟩ := hreported
      cases hr
      exact ⟨hactivated, err, h, reported_iff.mp hreported⟩
    · intro hactivation
      obtain ⟨-, err', herr', hne⟩ := hactivation
      rw [h, Except.error.injEq] at herr'
      subst herr'
      exact ⟨_, _, rfl, reported_iff.mpr hne⟩
  | @method hactive _ h =>
    have hresult : handlerActor env d = .ok (⟨none, [], none⟩, true) := by
      rw [handlerActor_of_active hcommand hkind hflow hactive, invokeMethod, if_pos hkind, h]
      rfl
    rw [hresult]
    constructor
    · intro hreported
      obtain ⟨r, activated, hr, hreported⟩ := hreported
      cases hr
      exact absurd rfl hreported.1
    · intro hactivation
      obtain ⟨hactivated, err', herr', -⟩ := hactivation
      cases hactive with
      | inl htrue =>
        rw [hactivated] at htrue
        cases htrue
      | inr hok =>
        obtain ⟨reply, hreply, -⟩ := hok
        rw [hreply] at herr'
        cases herr'

/-- Libraries that know one result of a method: a tail call without a value. -/
private def emptyTailCall : HandlerEnv where
  unmarshalResult
    | "tail" => .ok ⟨.nil, true, false, "", ""⟩
    | _ => .error "unexpected end of JSON input"
  marshalMap _ := [123, 125]
  marshalReply _ := [123, 125]
  newLockId := "lock"

/-- A call of an actor. -/
private def ringCall : CallRequest where
  requestID := "k"
  value := []
  deadline := none
  target := .session "Clock" "c" "flow" ""
  method := actorEndpoint
  caller := "n"
  sequence := 0
  childID := ""
  parentID := ""
  isEdited := false

/-- The delivery of the call. -/
private def ring (activated : Bool) (activation invocation : Except String HttpReply) : ActorDelivery where
  command := .ok "call"
  target := ⟨"Clock", "c", "flow", ""⟩
  activeFlow := "flow"
  activated := activated
  activation := activation
  invocation := invocation
  deactivation := .error "connection refused"
  deletion := none

/-- An activation that fails is reported to the caller. -/
theorem activation_failure_reported :
    ∃ r activated, handlerActor emptyTailCall
        (ring false (.error "connection refused") (.error "connection refused")) = .ok (r, activated) ∧
      Reported (ring false (.error "connection refused") (.error "connection refused"))
        (.call ringCall) r :=
  (invocation_failure_reported_iff emptyTailCall _ (.call ringCall) "call" rfl (Or.inl rfl) rfl
    (.activation rfl rfl)).mpr ⟨rfl, _, rfl, fun _ _ => by decide⟩

/-- A method whose invocation fails is answered with an empty result and no error. -/
theorem method_failure_succeeds :
    handlerActor emptyTailCall (ring true (.error "connection refused") (.error "connection refused")) =
        .ok (⟨none, [], none⟩, true) ∧
      (Scheduler.init.conclude 0 ⟨"Clock", "c", "flow", ""⟩ (.call ringCall) true ⟨none, [], none⟩ 0).sent =
        [.response { requestID := "k", value := [], deadline := none, errMsg := "", node := "n" }] :=
  ⟨rfl, by decide +kernel⟩

/-! ## Replies that are not tail calls -/

namespace Any

def isNil : Any → Bool
  | .nil => true
  | _ => false

def isString : Any → Bool
  | .string _ => true
  | _ => false

theorem asMap_eq_ok {v : Any} {cr : GoMap String Any} : v.asMap = .ok cr ↔ v = .map cr := by
  cases v with
  | map =>
    constructor
    · intro h
      cases h
      rfl
    · intro h
      cases h
      rfl
  | _ => simp [asMap]

theorem asString_isOk (v : Any) : (∃ s, v.asString = .ok s) ↔ v.isString = true := by
  cases v <;> simp [asString, isString]

end Any

/-- The fields of the message of a tail call have the types that they are asserted to have. -/
def wellFormedMessage (cr : GoMap String Any) : Bool :=
  (cr.getD "path" .nil).isString && (cr.getD "payload" .nil).isString &&
    ((cr.getD "method" .nil).isNil || (cr.getD "method" .nil).isString)

/-- The fields of the destination have the types that they are asserted to have. -/
def wellFormedDest (cr : GoMap String Any) : Bool :=
  if cr.has "serviceName" then (cr.getD "serviceName" .nil).isString
  else if cr.has "actorType" then
    (cr.getD "actorType" .nil).isString && (cr.getD "actorId" .nil).isString
  else true

/-- The message is not looked at if there is no destination. -/
def wellFormedTailCall (cr : GoMap String Any) : Bool :=
  wellFormedDest cr && (!(cr.has "serviceName" || cr.has "actorType") || wellFormedMessage cr)

/-- If the reply is a tail call, then its value is an object with fields of the right types. -/
def Inspectable (env : HandlerEnv) (command : String) (reply : HttpReply) : Prop :=
  ∀ result, reply.statusCode = 200 → env.unmarshalResult reply.payload = .ok result →
    result.tailCall = true → (command = "tell" → result.error = false) →
      ∃ cr : GoMap String Any, result.value = .map cr ∧ wellFormedTailCall cr = true

/-- A reply is a tail call with a message, or it is passed through to the caller. -/
structure Inspected (env : HandlerEnv) (command : String) (reply : HttpReply) (r : HandlerResult) :
    Prop where
  err : r.err = none
  value : (∃ dest msg, r.dest = some dest ∧ r.value = env.marshalMap msg) ∨
    r.dest = none ∧ r.value = if command = "tell" then [] else env.marshalReply reply

section Inspection

variable {env : HandlerEnv} {command : String}

theorem tailCallMethod_isOk : (∃ msg, tailCallMethod cr = .ok msg) ↔
    ((cr.getD "method" .nil).isNil || (cr.getD "method" .nil).isString) = true := by
  unfold tailCallMethod
  cases cr.getD "method" .nil <;> simp [Any.asString, Any.isNil, Any.isString, Except.map]

theorem tailCallMessage_isOk : (∃ msg, tailCallMessage command cr = .ok msg) ↔
    wellFormedMessage cr = true := by
  simp only [tailCallMessage, wellFormedMessage, bind_eq_ok, Bool.and_eq_true, ← Any.asString_isOk,
    ← tailCallMethod_isOk]
  constructor
  · intro h
    obtain ⟨msg, path, hpath, payload, hpayload, method, hmethod, -⟩ := h
    exact ⟨⟨⟨path, hpath⟩, payload, hpayload⟩, method, hmethod⟩
  · intro h
    obtain ⟨⟨⟨path, hpath⟩, payload, hpayload⟩, method, hmethod⟩ := h
    exact ⟨_, path, hpath, payload, hpayload, method, hmethod, rfl⟩

theorem tailCallDest_isOk :
    (∃ dest, tailCallDest env target cr = .ok dest) ↔ wellFormedDest cr = true := by
  unfold tailCallDest wellFormedDest
  split
  · simp only [bind_eq_ok, ← Any.asString_isOk]
    constructor
    · intro h
      obtain ⟨dest, name, hname, -⟩ := h
      exact ⟨name, hname⟩
    · intro h
      obtain ⟨name, hname⟩ := h
      exact ⟨_, name, hname, rfl⟩
  split
  · simp only [bind_eq_ok, Bool.and_eq_true, ← Any.asString_isOk]
    constructor
    · intro h
      obtain ⟨dest, name, hname, id, hid, -⟩ := h
      exact ⟨⟨name, hname⟩, id, hid⟩
    · intro h
      obtain ⟨⟨name, hname⟩, id, hid⟩ := h
      exact ⟨_, name, hname, id, hid, rfl⟩
  · simp

/-- There is a destination if there is a service or an actor. -/
theorem isSome_tailCallDest (h : tailCallDest env target cr = .ok dest) :
    dest.isSome = (cr.has "serviceName" || cr.has "actorType") := by
  unfold tailCallDest at h
  split at h
  · rename_i hservice
    obtain ⟨name, -, h⟩ := bind_eq_ok.mp h
    cases h
    simp [hservice]
  split at h
  · rename_i hactor
    obtain ⟨name, -, h⟩ := bind_eq_ok.mp h
    obtain ⟨id, -, h⟩ := bind_eq_ok.mp h
    cases h
    simp [hactor]
  · rename_i hservice hactor
    cases h
    simp [hservice, hactor]

/-- A tail call is taken apart exactly if its value is an object with fields of the right types. -/
theorem tailCall_isOk :
    (∃ r, tailCall env command target value = .ok r) ↔
      ∃ cr : GoMap String Any, value = .map cr ∧ wellFormedTailCall cr = true := by
  constructor
  · intro h
    obtain ⟨r, h⟩ := h
    obtain ⟨cr, hcr, h⟩ := bind_eq_ok.mp h
    obtain ⟨dest, hdest, h⟩ := bind_eq_ok.mp h
    refine ⟨cr, Any.asMap_eq_ok.mp hcr, ?_⟩
    rw [wellFormedTailCall, tailCallDest_isOk.mp ⟨dest, hdest⟩, ← isSome_tailCallDest hdest,
      Bool.true_and]
    cases dest with
    | none => rfl
    | some =>
      obtain ⟨msg, hmsg, -⟩ := bind_eq_ok.mp h
      simp [tailCallMessage_isOk.mp ⟨msg, hmsg⟩]
  · intro h
    obtain ⟨cr, hvalue, hwell⟩ := h
    have hcr := Bool.and_eq_true_iff.mp hwell
    obtain ⟨dest, hdest⟩ : ∃ dest, tailCallDest env target cr = .ok dest := tailCallDest_isOk.mpr hcr.1
    rw [← isSome_tailCallDest hdest] at hcr
    cases dest with
    | none => exact ⟨none, bind_eq_ok.mpr ⟨cr, Any.asMap_eq_ok.mpr hvalue, bind_eq_ok.mpr ⟨none, hdest, rfl⟩⟩⟩
    | some dest =>
      obtain ⟨msg, hmsg⟩ : ∃ msg, tailCallMessage command cr = .ok msg :=
        tailCallMessage_isOk.mpr (by simpa using hcr.2)
      exact ⟨some (dest, env.marshalMap msg), bind_eq_ok.mpr ⟨cr, Any.asMap_eq_ok.mpr hvalue,
        bind_eq_ok.mpr ⟨some dest, hdest, bind_eq_ok.mpr ⟨msg, hmsg, rfl⟩⟩⟩⟩

/-- What a tail call is taken apart into. -/
theorem tailCall_eq_ok (h : tailCall env command target value = .ok (some (dest, bytes))) :
    ∃ msg, bytes = env.marshalMap msg := by
  obtain ⟨cr, -, h⟩ := bind_eq_ok.mp h
  obtain ⟨dest', -, h⟩ := bind_eq_ok.mp h
  cases dest' with
  | none => cases h
  | some =>
    obtain ⟨msg, -, h⟩ := bind_eq_ok.mp h
    cases h
    exact ⟨msg, rfl⟩

theorem inspectTell_isOk :
    (∃ r, inspectTell env target reply = .ok r) ↔ Inspectable env "tell" reply := by
  unfold inspectTell Inspectable
  by_cases hstatus : reply.statusCode = 200
  · rw [if_neg (by omega), if_pos hstatus]
    cases hresult : env.unmarshalResult reply.payload with
    | error => simp
    | ok result =>
      simp only [Except.ok.injEq, forall_eq', hstatus, forall_true_left]
      by_cases herror : result.error = true
      · simp [herror]
      · by_cases htail : result.tailCall = true
        · simp [herror, htail, tailCall_isOk]
        · simp [herror, htail]
  · rw [if_neg hstatus]
    simp [hstatus]

theorem inspectCall_isOk :
    (∃ r, inspectCall env target reply = .ok r) ↔ Inspectable env "call" reply := by
  unfold inspectCall Inspectable
  by_cases hstatus : reply.statusCode = 200
  · rw [if_pos hstatus]
    cases hresult : env.unmarshalResult reply.payload with
    | error => simp
    | ok result =>
      simp only [Except.ok.injEq, forall_eq', hstatus, forall_true_left]
      by_cases htail : result.tailCall = true
      · simp [htail, tailCall_isOk]
      · simp [htail]
  · rw [if_neg hstatus]
    simp [hstatus]

theorem inspect_isOk (hkind : command = "call" ∨ command = "tell") :
    (∃ r, inspect env command target reply = .ok r) ↔ Inspectable env command reply := by
  cases hkind with
  | inl hcall =>
    subst hcall
    exact inspectCall_isOk
  | inr htell =>
    subst htell
    exact inspectTell_isOk

/-- What a reply is taken apart into. -/
theorem inspect_eq_ok (h : inspect env command target reply = .ok (some (dest, bytes))) :
    ∃ msg, bytes = env.marshalMap msg := by
  unfold inspect inspectTell inspectCall at h
  repeat' split at h
  all_goals first | exact tailCall_eq_ok h | cases h

/-- A reply is inspected without a panic exactly if it is inspectable. -/
theorem inspectReply_isOk (hkind : command = "call" ∨ command = "tell") :
    (∃ r, inspectReply env command target reply = .ok r ∧ Inspected env command reply r) ↔
      Inspectable env command reply := by
  have hinspect : (∃ r, inspect env command target reply = .ok r) ↔ Inspectable env command reply :=
    inspect_isOk hkind
  rw [← hinspect, inspectReply]
  constructor
  · intro h
    obtain ⟨r, hr, -⟩ := h
    cases hinspect : inspect env command target reply with
    | error => simp [hinspect, Except.map] at hr
    | ok r' => exact ⟨r', rfl⟩
  intro h
  obtain ⟨r, hr⟩ := h
  rw [hr]
  cases r with
  | none => exact ⟨_, rfl, rfl, Or.inr ⟨rfl, rfl⟩⟩
  | some p =>
    obtain ⟨msg, hmsg⟩ := inspect_eq_ok hr
    exact ⟨_, rfl, rfl, Or.inl ⟨p.1, msg, rfl, hmsg⟩⟩

end Inspection

/-- **Replies of the application.**  The handler takes the reply of a method apart or passes it through,
without a panic, exactly if a tail call in the reply is an object with fields of the right types. -/
theorem reply_inspected_iff (env : HandlerEnv) (d : ActorDelivery) (command : String) (reply : HttpReply)
    (hcommand : d.command = .ok command) (hkind : command = "call" ∨ command = "tell")
    (hflow : d.target.flow = d.activeFlow) (hactive : d.Active) (hreply : d.invocation = .ok reply) :
    (∃ r, handlerActor env d = .ok (r, true) ∧ Inspected env command reply r) ↔
      Inspectable env command reply := by
  have hinspect : (∃ r, inspectReply env command d.target reply = .ok r ∧
      Inspected env command reply r) ↔ Inspectable env command reply := inspectReply_isOk hkind
  rw [← hinspect, handlerActor_of_active hcommand hkind hflow hactive, invokeMethod, if_pos hkind, hreply]
  dsimp only
  constructor
  · intro h
    obtain ⟨r, hr, hinspected⟩ := h
    cases hresult : inspectReply env command d.target reply with
    | error => simp [hresult, Except.map] at hr
    | ok =>
      rw [hresult] at hr
      cases hr
      exact ⟨r, rfl, hinspected⟩
  · intro h
    obtain ⟨r, hr, hinspected⟩ := h
    rw [hr]
    exact ⟨r, rfl, hinspected⟩

/-- A reply that is not JSON is passed through to the caller. -/
theorem reply_passed_through :
    ∃ r, handlerActor emptyTailCall (ring true (.error "") (.ok ⟨200, "text/plain", "noon"⟩)) =
        .ok (r, true) ∧ Inspected emptyTailCall "call" ⟨200, "text/plain", "noon"⟩ r :=
  (reply_inspected_iff emptyTailCall (ring true (.error "") (.ok ⟨200, "text/plain", "noon"⟩)) "call" _
    rfl (Or.inl rfl) rfl (Or.inl rfl) rfl).mpr fun result _ hresult => by simp [emptyTailCall] at hresult

/-- A tail call without a value ends the sidecar. -/
theorem tail_call_without_value_panics :
    handlerActor emptyTailCall (ring true (.error "") (.ok ⟨200, "application/kar+json", "tail"⟩)) =
      .error "interface conversion: interface \x7b\x7d is nil, not map[string]interface \x7b\x7d" := by
  decide +kernel

end Kar.Runtime
